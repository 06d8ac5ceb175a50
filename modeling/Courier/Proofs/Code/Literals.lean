import Courier.Code.Literal
import Courier.Proofs.Code.Calls
import Courier.Proofs.Code.Progress
import Courier.Proofs.Text.Quoted

/-! Arrays of string literals: how their text becomes tokens, and how the tokens are read. -/
namespace Courier.Code
open Text

variable {cs r : List Char} {body : Tokens}

/-! ## Quoted literals -/

/-- What may follow a value: nothing, a comma, or the end of an array. -/
inductive EndsValue : List Char → Prop
  | nil : EndsValue []
  | comma (r : List Char) : EndsValue (',' :: r)
  | bracket (r : List Char) : EndsValue (']' :: r)

theorem EndsValue.afterSuffix_eq (h : EndsValue r) : afterSuffix r = r := by
  have hcomma : isIdentStart ',' = false := by decide +kernel
  have hbracket : isIdentStart ']' = false := by decide +kernel
  cases h <;> simp [afterSuffix, identText, hcomma, hbracket]

theorem nextStep_quote (cs : List Char) (h : EndsValue r) :
    nextStep (quote cs ++ r) = .emit [.literal (String.ofList (quote cs))] r := by
  have hquoted : afterLiteral (quote cs ++ r) = some r := by
    have hread : readQuoted .text (cs.flatMap escapeChar ++ '"' :: r) = some (cs, r) :=
      readQuoted_quote QuoteForm.full_text cs r
    have htext : afterTextLiteral (quote cs ++ r) = some r := by
      simp [quote, afterTextLiteral, afterQuoted, hread, h.afterSuffix_eq]
    rw [afterLiteral, htext, Option.some_or]
  have hleaf : leafStep (quote cs ++ r) = .emit [.literal (String.ofList (quote cs))] r := by
    rw [leafStep, hquoted]
    simp
  have hstep : ∀ t, nextStep ('"' :: t) = leafStep ('"' :: t) := fun _ => rfl
  exact (hstep _).trans hleaf

theorem lexFrom_quote (cs : List Char) (h : EndsValue r) : lexFrom (quote cs ++ r) =
    (lexFrom r).map fun p => (.literal (String.ofList (quote cs)) :: p.1, p.2) :=
  lexFrom_emit (nextStep_quote cs h)

theorem lexFrom_comma (r : List Char) :
    lexFrom (',' :: ' ' :: r) = (lexFrom r).map fun p => (.comma :: p.1, p.2) := by
  have hcomma : nextStep (',' :: ' ' :: r) = .emit [.comma] (' ' :: r) := rfl
  have hspace : nextStep (' ' :: r) = .skip r := rfl
  rw [lexFrom_emit hcomma, lexFrom_skip hspace]
  rfl

theorem lexFrom_nil : lexFrom [] = some ([], []) := lexFrom_stop rfl

theorem lexFrom_closing (r : List Char) : lexFrom (']' :: r) = some ([], ']' :: r) := lexFrom_stop rfl

theorem lexFrom_array (h : lexFrom cs = some (body, ']' :: r)) :
    lexFrom ('[' :: cs) = (lexFrom r).map fun p => (.group .bracket body :: p.1, p.2) :=
  lexFrom_enter rfl h rfl

/-! ## Expressions -/

namespace Parser
open Tokens

variable {p : Parser Tree} {ts : Tokens} {es : List Tree}

/-- The parser reads a token alone as an expression. -/
def ReadsAlone (p : Parser Tree) (t : Token) (e : Tree) : Prop :=
  ∀ after, EndsExpr after → p.run (t :: after) = .ok (e, after)

theorem separated_intersperse (h : List.Forall₂ (ReadsAlone p) ts es) :
    (separated "," p).run (ts.intersperse .comma) = .ok (es.intersperse (.sign ","), []) := by
  unfold separated
  refine iterate_run fun n hn => ?_
  induction h generalizing n with
  | nil =>
    cases n with
    | zero => contradiction
    | succ n => exact loop_stop (bind_run finished_run rfl)
  | @cons t e ts es ht hts ih =>
    cases n with
    | zero => contradiction
    | succ n =>
      cases hts with
      | nil =>
        refine loop_stop (bind_run finished_run ?_)
        exact bind_run (ht [] .nil) (bind_run finished_run rfl)
      | @cons u f ts es hu hts =>
        rw [List.intersperse_cons_cons] at hn ⊢
        rw [List.intersperse_cons_cons]
        refine loop_more [e, .sign ","] (bind_run finished_run ?_) (ih n ?_)
        · rw [if_neg (by simp)]
          refine bind_run (ht _ .comma) (bind_run finished_run ?_)
          rw [if_neg (by simp)]
          refine bind_run (a := .sign ",") (r := (u :: ts).intersperse .comma) ?_ rfl
          simp [sign_run, Token.comma]
        · have hcomma : Token.comma.span = 1 := rfl
          simp only [Token.spanList] at hn ⊢
          omega

end Parser

namespace Grammar
open Code.Parser Tokens

variable (g : Grammar) {braces : Bool} {t : Token} {e : Tree} {after : Tokens}

theorem atom_literal (text : String) : (g.atom braces).run (.literal text :: after) =
    .ok (.node .literalExpr [.token (.literal text)], after) := by
  unfold atom
  refine bind_run rest_run ?_
  rw [if_neg (by simp), if_pos (by simp)]
  exact bind_run (literal_run text) rfl

theorem atom_bracket (body : Tokens) : (g.atom braces).run (.group .bracket body :: after) =
    g.array.run (.group .bracket body :: after) := by
  unfold atom
  refine bind_run rest_run ?_
  simp [startsAsyncBlock, startsClosure, startsBinder, startsExprPath, startsPath]

theorem array_run {ts : Tokens} {es : List Tree} (h : List.Forall₂ (ReadsAlone g.fullExpr) ts es) :
    g.array.run (.group .bracket (ts.intersperse .comma) :: after) =
      .ok (.node .arrayExpr [.group .bracket (es.intersperse (.sign ","))], after) := by
  unfold array
  simp only [StateT.run_bind, StateT.run_get, StateT.run_set, pure_bind,
    next?_group (by simp : Delimiter.bracket ≠ .hidden)]
  cases h with
  | nil => rfl
  | @cons t e ts es ht hts =>
    cases hts with
    | nil =>
      have hfirst : g.fullExpr.run [t] = .ok (e, []) := ht [] .nil
      rw [List.intersperse_singleton, List.intersperse_singleton, if_neg (by simp), hfirst]
      rfl
    | @cons u f ts es hu hts =>
      have hfirst := ht (.comma :: (u :: ts).intersperse .comma) .comma
      have hothers : all (do
          let comma ← sign ","
          return comma :: (← separated "," g.fullExpr)) (.comma :: (u :: ts).intersperse .comma) =
          .ok (.sign "," :: (f :: es).intersperse (.sign ",")) := by
        refine all_of_run (bind_run (a := .sign ",") (r := (u :: ts).intersperse .comma) ?_ ?_)
        · simp [sign_run, Token.comma]
        · exact bind_run (separated_intersperse (.cons hu hts)) rfl
      rw [List.intersperse_cons_cons, List.intersperse_cons_cons, if_neg (by simp), hfirst]
      refine bind_run (a := (e, .comma :: (u :: ts).intersperse .comma)) (r := after) rfl ?_
      simp only
      rw [if_neg (by simp), if_pos (by simp [Token.comma]), hothers]
      rfl

/-- What is an atom alone is an expression alone, three calls of the grammar further out. -/
theorem readsAlone_of_atom {k : Nat} (hh : ∀ ts, startsHidden (t :: ts) = false)
    (hs : ∀ ts, ∀ s ∈ ["#", "&", "*", "!", "-"], startsSign s (t :: ts) = false)
    (he : isRange e = false)
    (ha : ∀ after, ((ofDepth (k + 1)).atom true).run (t :: after) = .ok (e, after)) :
    ReadsAlone (ofDepth (k + 3)).fullExpr t e := by
  intro after hend
  have htrailers : ((ofDepth (k + 1)).trailers e).run after = .ok (e, after) :=
    (ofDepth k).trailersRule_stop hend
  have hunary : ((ofDepth (k + 2)).unary true).run (t :: after) = .ok (e, after) :=
    (ofDepth (k + 1)).unaryRule_plain (hh after) (hs after) (ha after) htrailers
  have hoperators : ((ofDepth (k + 2)).operators e true Level.lowest).run after = .ok (e, after) :=
    (ofDepth (k + 1)).operatorsRule_stop he hend
  exact (ofDepth (k + 2)).exprRule_run hunary hoperators

theorem readsAlone_literal (k : Nat) (text : String) : ReadsAlone (ofDepth (k + 3)).fullExpr
    (.literal text) (.node .literalExpr [.token (.literal text)]) :=
  readsAlone_of_atom (fun _ => startsHidden_literal) (fun _ => by simp) rfl
    fun _ => (ofDepth (k + 1)).atom_literal text

/-- An array is an expression two calls of the grammar further out than its elements. -/
theorem readsAlone_array {k : Nat} {ts : Tokens} {es : List Tree}
    (h : List.Forall₂ (ReadsAlone (ofDepth (k + 1)).fullExpr) ts es) :
    ReadsAlone (ofDepth (k + 3)).fullExpr (.group .bracket (ts.intersperse .comma))
      (.node .arrayExpr [.group .bracket (es.intersperse (.sign ","))]) :=
  readsAlone_of_atom (fun _ => startsHidden_group (by simp)) (fun _ => by simp) rfl
    fun _ => ((ofDepth (k + 1)).atom_bracket _).trans ((ofDepth (k + 1)).array_run h)

end Grammar

end Courier.Code
