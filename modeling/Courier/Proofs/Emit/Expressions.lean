import Courier.Emit.Conversion
import Courier.Proofs.Code.Calls

/-!
Emitted expressions are read as expressions. The reader goes deeper with each link of a chain, so a
chain is followed from its end: what its last link is read as decides what the whole is read as.
-/
namespace Courier.Emit
open Code Code.Tokens Code.Grammar

/-! ## Functions -/

namespace FunctionName

/-- All names in it are such as may stand in a path. -/
inductive Plain : FunctionName → Prop
  | ofTrait {p : PlainPath} {t : Trait} {name : String} (hp : p.Free) (hn : isIdent name = true) :
      Plain (.ofTrait ⟨p.tree, t⟩ name)
  | qualified {type : String} {p : PlainPath} {t : Trait} {name : String}
      (ht : isIdent type = true) (hp : p.Free) (hn : isIdent name = true) :
      Plain (.qualified type ⟨p.tree, t⟩ name)
  | inherent {type name : String} (ht : isIdent type = true) (hn : isIdent name = true) :
      Plain (.inherent type name)

end FunctionName

theorem Trait.isIdent_name (t : Trait) : isIdent t.name = true := by
  cases t <;> decide

theorem TraitPath.tokens_tree (p : PlainPath) (t : Trait) :
    TraitPath.tokens ⟨p.tree, t⟩ = (p.append t.name).tokens := by
  rw [TraitPath.tokens, PlainPath.append_tokens, PlainPath.tree_tokens]

variable {f : FunctionName} {after : Tokens}

theorem inherent_tokens (type name : String) : (FunctionName.inherent type name).tokens =
    (PlainPath.append ⟨false, type, []⟩ name).tokens := by
  rw [PlainPath.append_tokens]
  rfl

theorem FunctionName.Plain.starts (hf : f.Plain) (after : Tokens) :
    StartsAtom (f.tokens ++ after) := by
  cases hf with
  | ofTrait hp hn =>
    rw [tokens, TraitPath.tokens_tree, ← PlainPath.append_tokens]
    exact .path (((hp.append (Trait.isIdent_name _)).append hn).starts _)
  | qualified ht hp hn =>
    have hs : Tokens.sign "<" = [.punct '<' false] := by simp [Tokens.sign, joined]
    rw [tokens, hs]
    exact .angle
  | inherent ht hn =>
    rw [inherent_tokens]
    exact .path (((PlainPath.free_word (isPathWord_of_isIdent ht)).append hn).starts _)

theorem FunctionName.Plain.atom_run (hf : f.Plain) : ∃ t, IsOperand t ∧ ∀ n braces after,
    EndsPath after → (braces && startsGroup .brace after) = false →
      ((ofDepth (n + 1)).atom braces).run (f.tokens ++ after) = .ok (t, after) := by
  cases hf with
  | @ofTrait p t name hp hn =>
    refine ⟨.node .pathExpr [((p.append t.name).append name).tree], isOperand_path _,
      fun n braces after ha hb => ?_⟩
    rw [tokens, TraitPath.tokens_tree, ← PlainPath.append_tokens]
    exact Grammar.atom_run _ braces ((hp.append (Trait.isIdent_name _)).append hn) ha hb
  | @inherent type name ht hn =>
    refine ⟨.node .pathExpr [(PlainPath.append ⟨false, type, []⟩ name).tree], isOperand_path _,
      fun n braces after ha hb => ?_⟩
    rw [inherent_tokens]
    exact Grammar.atom_run _ braces ((PlainPath.free_word (isPathWord_of_isIdent ht)).append hn) ha hb
  | @qualified type p t name ht hp hn =>
    refine ⟨.node .pathExpr [.node .qualified [.sign "<",
      .node .pathType [PlainPath.tree ⟨false, type, []⟩], Code.Tree.word "as",
      (p.append t.name).tree, .sign ">", .sign "::", PlainPath.segment name]], isOperand_path _,
      fun n braces after ha hb => ?_⟩
    have hend : EndsPath (.ident "as" :: ((p.append t.name).tokens ++ behindTrait name after)) := by
      constructor <;> simp
    have htype := (ofDepth n).typeRule_run true true
      (PlainPath.free_word (isPathWord_of_isIdent ht)) hend
    have hpath := (ofDepth (n + 1)).qualifiedPath_as htype (hp.append (Trait.isIdent_name _)).valid hn
      ha
    have htokens : (FunctionName.qualified type ⟨p.tree, t⟩ name).tokens ++ after =
        .punct '<' false :: .ident type :: .ident "as" ::
          ((p.append t.name).tokens ++ behindTrait name after) := by
      rw [tokens, TraitPath.tokens_tree]
      simp [Tokens.sign, joined, Tokens.word, behindTrait]
    rw [htokens]
    exact atom_qualified _ hpath ha hb

/-! ## Expressions -/

namespace Expr

/-- All names in it are such as may stand at their places. An operand is what a chain may go on
behind; a borrowed expression is none. -/
inductive Plain : (operand : Bool) → Expr → Prop
  | named {b : Bool} {name : String} (hn : isPathWord name = true) : Plain b (.variable name)
  | field {b : Bool} {e : Expr} {name : String} (he : Plain true e) (hn : isIdent name = true) :
      Plain b (.field e name)
  | borrow {e : Expr} (he : Plain true e)
      (hr : ∀ after, startsWord "raw" (e.tokens ++ after) = false) : Plain false (.borrow e)
  | call {b : Bool} {f : FunctionName} {e : Expr} (hf : f.Plain) (he : Plain false e) :
      Plain b (.call f e)
  | method {b : Bool} {e : Expr} {name : String} (he : Plain true e) (hn : isIdent name = true) :
      Plain b (.method e name)
  | map {b : Bool} {e : Expr} {f : FunctionName} (he : Plain true e) (hf : f.Plain) :
      Plain b (.map e f)
  | mapEach {b : Bool} {e body : Expr} {x : String} (he : Plain true e) (hx : isIdent x = true)
      (hb : Plain true body) : Plain b (.mapEach e x body)

/-- A bound for half the depth to which an expression takes the reader. -/
def depth : Expr → Nat
  | .variable _ => 0
  | .field e _ => e.depth + 1
  | .borrow e => e.depth + 1
  | .call _ e => e.depth + 4
  | .method e _ => e.depth + 1
  | .map e _ => e.depth + 4
  | .mapEach e _ body => e.depth + 2 * body.depth + 8

theorem Plain.starts {e : Expr} (h : e.Plain true) (after : Tokens) :
    StartsAtom (e.tokens ++ after) := by
  generalize hb : true = b at h
  induction h generalizing after with
  | named hn => exact .path (.word hn)
  | borrow => cases hb
  | call hf _ _ =>
    simp only [tokens, List.append_assoc]
    exact hf.starts _
  | field _ _ ih | method _ _ ih | map _ _ ih =>
    simp only [tokens, List.append_assoc]
    exact ih _ rfl
  | mapEach _ _ _ ih _ =>
    simp only [tokens, List.append_assoc]
    exact ih _ rfl

/-- An expression that is read as an operand: what its last link is followed by decides the rest. -/
def Chains (e : Expr) : Prop := ∃ t, IsOperand t ∧ ∀ n braces after x, e.depth ≤ n → Trails after →
  ((ofDepth n).trailers t).run after = .ok x →
    ((ofDepth (n + e.depth + 1)).unary braces).run (e.tokens ++ after) = .ok x

/-- An expression that is read up to its end. -/
def Reads (e : Expr) : Prop := ∃ t, ∀ n after, EndsExpr after → 2 * e.depth + 4 ≤ n →
  (ofDepth n).fullExpr.run (e.tokens ++ after) = .ok (t, after)

theorem Plain.tokens_ne_nil {b : Bool} {e : Expr} (h : e.Plain b) : e.tokens ≠ [] := by
  cases h <;> simp [tokens, Tokens.word, Tokens.sign, joined]

end Expr

variable {e body : Expr} {ts : Tokens} {t : Code.Tree} {name x : String} {n : Nat}

theorem fullExpr_of_unary (ht : isRange t = false) (h : EndsExpr after)
    (hu : ((ofDepth (n + 1)).unary true).run ts = .ok (t, after)) :
    (ofDepth (n + 2)).fullExpr.run ts = .ok (t, after) :=
  exprRule_run _ hu (operatorsRule_stop _ ht h)

theorem Expr.Chains.reads (h : e.Chains) : e.Reads := by
  obtain ⟨t, ht, h⟩ := h
  refine ⟨t, fun n after ha hn => ?_⟩
  obtain ⟨m, rfl⟩ := Nat.exists_eq_add_of_le' (show 2 ≤ n by omega)
  refine fullExpr_of_unary ht.isRange ha ?_
  have hstop : ((ofDepth (e.depth + 1)).trailers t).run after = .ok (t, after) :=
    trailersRule_stop _ ha
  have hu := h (e.depth + 1) true after _ (Nat.le_succ _) (.ends ha) hstop
  exact ((ofDepth_below (by omega)).unary true).run_eq_ok hu

theorem FunctionName.Plain.reads (hf : f.Plain) :
    ∃ t, ∀ n, 3 ≤ n → (ofDepth n).fullExpr.run f.tokens = .ok (t, []) := by
  obtain ⟨t, ht, h⟩ := hf.atom_run
  refine ⟨t, fun n hn => ?_⟩
  obtain ⟨m, rfl⟩ := Nat.exists_eq_add_of_le' hn
  refine fullExpr_of_unary (n := m + 1) ht.isRange .nil ?_
  have ha := h m true [] (EndsExpr.nil |> Trails.ends).endsPath (by simp)
  have hs := hf.starts []
  rw [List.append_nil] at ha hs
  exact unaryRule_run _ hs ha (trailersRule_stop _ .nil)

theorem FunctionName.Plain.tokens_ne_nil (hf : f.Plain) : f.tokens ≠ [] := by
  cases hf <;> simp [tokens, TraitPath.tokens, path, Tokens.word]

/-! ## Links -/

theorem chains_variable (hn : isPathWord name = true) : (Expr.variable name).Chains := by
  have hp := PlainPath.free_word hn
  refine ⟨.node .pathExpr [PlainPath.tree ⟨false, name, []⟩], isOperand_path _,
    fun n braces after x _ ha hx => ?_⟩
  exact unaryRule_run _ (.path (hp.starts after))
    ((ofDepth n).atom_run braces hp ha.endsPath (by rw [ha.startsGroup, Bool.and_false])) hx

theorem Expr.Chains.field (h : e.Chains) (hn : isIdent name = true) : (Expr.field e name).Chains := by
  obtain ⟨t, ht, h⟩ := h
  refine ⟨.node .fieldExpr [t, .sign ".", Code.Tree.word name], isOperand_field _,
    fun n braces after x hd ha hx => ?_⟩
  have hlink : ((ofDepth (n + 1)).trailers t).run (.punct '.' false :: .ident name :: after) = .ok x :=
    trailersRule_dot _ ht hn
      ((ofDepth n).afterDot_field hn ha.endsPath.separator (ha.startsGroup _)) hx
  rw [depth] at hd ⊢
  have hu := h (n + 1) braces _ x (by omega) .dot hlink
  rw [show n + (e.depth + 1) + 1 = n + 1 + e.depth + 1 by omega]
  simpa [tokens, Tokens.word, Tokens.sign, joined] using hu

/-- A method behind an operand; `k` is how deep its arguments take the reader. -/
theorem Expr.Chains.link {e' : Expr} {arguments : Tokens} {c : Code.Tree} {k : Nat} (h : e.Chains)
    (hn : isIdent name = true)
    (hc : ∀ n after, k ≤ n →
      (ofDepth n).callList.run (.group .paren arguments :: after) = .ok (c, after))
    (htokens : e'.tokens =
      e.tokens ++ Tokens.sign "." ++ Tokens.word name ++ [.group .paren arguments])
    (hdepth : e'.depth = e.depth + (k + 1)) : e'.Chains := by
  obtain ⟨t, ht, h⟩ := h
  refine ⟨.node .methodExpr [t, .sign ".", Code.Tree.word name, Code.Tree.none, c],
    isOperand_method _, fun n braces after x hd ha hx => ?_⟩
  have hlink : ((ofDepth (n + 1)).trailers t).run
      (.punct '.' false :: .ident name :: .group .paren arguments :: after) = .ok x :=
    trailersRule_dot _ ht hn ((ofDepth n).afterDot_method hn (hc n after (by omega))) hx
  have hu := h (n + 1) braces _ x (by omega) .dot hlink
  rw [htokens, hdepth]
  refine ((ofDepth_below (by omega)).unary braces).run_eq_ok (p := (ofDepth (n + 1 + e.depth + 1)).unary braces) ?_
  simpa [Tokens.word, Tokens.sign, joined] using hu

theorem Expr.Chains.method (h : e.Chains) (hn : isIdent name = true) :
    (Expr.method e name).Chains :=
  h.link hn (fun n _ (_ : 0 ≤ n) => (ofDepth n).callList_nil) rfl rfl

theorem Expr.Chains.map (h : e.Chains) (hf : f.Plain) : (Expr.map e f).Chains := by
  obtain ⟨t, ht⟩ := hf.reads
  exact h.link (by decide) (fun n _ hn => (ofDepth n).callList_one hf.tokens_ne_nil (ht n hn)) rfl rfl

theorem chains_call (hf : f.Plain) (he : e.Reads) (hne : e.tokens ≠ []) : (Expr.call f e).Chains := by
  obtain ⟨t, -, h⟩ := hf.atom_run
  obtain ⟨a, ha⟩ := he
  refine ⟨.node .callExpr [t, .group .paren [a]], isOperand_call _,
    fun n braces after x hd hafter hx => ?_⟩
  rw [Expr.depth] at hd ⊢
  have hargument : (ofDepth (n + e.depth)).fullExpr.run e.tokens = .ok (a, []) := by
    have := ha (n + e.depth) [] .nil (by omega)
    rwa [List.append_nil] at this
  have hcall : ((ofDepth (n + e.depth + 1)).trailers t).run (.group .paren e.tokens :: after) = .ok x :=
    trailersRule_call _ ((ofDepth _).callList_one hne hargument)
      (((ofDepth_below (Nat.le_add_right ..)).trailers _).run_eq_ok hx)
  have hatom := h (n + e.depth) braces (.group .paren e.tokens :: after) endsPath_paren (by simp)
  have hu : ((ofDepth (n + e.depth + 2)).unary braces).run
      (f.tokens ++ .group .paren e.tokens :: after) = .ok x :=
    unaryRule_run _ (hf.starts _) hatom hcall
  rw [Expr.tokens, List.append_assoc]
  exact ((ofDepth_below (by omega)).unary braces).run_eq_ok hu

/-- A closure is read where its body is. -/
theorem closure_reads (hx : isIdent x = true) (hb : body.Reads)
    (hs : ∀ after, StartsAtom (body.tokens ++ after)) : ∃ t, ∀ n, 2 * body.depth + 7 ≤ n →
      (ofDepth n).fullExpr.run (.punct '|' false :: .ident x :: .punct '|' false :: body.tokens) =
        .ok (t, []) := by
  obtain ⟨t, ht⟩ := hb
  refine ⟨closureOf (.node .namePattern [Code.Tree.none, Code.Tree.none, Code.Tree.word x]) t,
    fun n hn => ?_⟩
  obtain ⟨m, rfl⟩ := Nat.exists_eq_add_of_le' (show 4 ≤ n by omega)
  have hbody := ht (m + 2) [] .nil (by omega)
  have hstart := hs []
  rw [List.append_nil] at hbody hstart
  have hpattern := (ofDepth (m + 1)).patternRule_name hx (.inl rfl)
  have hclosure := (ofDepth (m + 2)).closure_run hstart hpattern hbody
  exact fullExpr_of_unary (n := m + 2) rfl .nil
    (unaryRule_run _ .bar (atom_closure _ hclosure) (trailersRule_stop _ .nil))

theorem Expr.Chains.mapEach (h : e.Chains) (hx : isIdent x = true) (hb : body.Reads)
    (hs : ∀ after, StartsAtom (body.tokens ++ after)) : (Expr.mapEach e x body).Chains := by
  obtain ⟨t, ht⟩ := closure_reads hx hb hs
  refine h.link (show isIdent "map" = true by decide)
    (fun n _ hn => (ofDepth n).callList_one (List.cons_ne_nil _ _) (ht n hn)) ?_ rfl
  simp [tokens, Tokens.word, Tokens.sign, joined]

theorem borrow_reads (h : e.Chains) (hs : ∀ after, StartsAtom (e.tokens ++ after))
    (hr : ∀ after, startsWord "raw" (e.tokens ++ after) = false) : (Expr.borrow e).Reads := by
  obtain ⟨t, ht, h⟩ := h
  refine ⟨.node .referenceExpr [.sign "&", Code.Tree.none, t], fun n after ha hn => ?_⟩
  rw [Expr.depth] at hn
  obtain ⟨m, rfl⟩ := Nat.exists_eq_add_of_le' (show 3 ≤ n by omega)
  have hstop : ((ofDepth (e.depth + 1)).trailers t).run after = .ok (t, after) :=
    trailersRule_stop _ ha
  have hu := h (e.depth + 1) true after _ (Nat.le_succ _) (.ends ha) hstop
  have hu' := ((ofDepth_below (m := m + 1) (by omega)).unary true).run_eq_ok hu
  have hborrow := unaryRule_borrow _ (hs after) (hr after) hu'
  exact fullExpr_of_unary (n := m + 1) rfl ha hborrow

/-- Every plain expression is read, as an operand if it is one. -/
theorem Expr.Plain.reads {b : Bool} (h : e.Plain b) : e.Reads ∧ (b = true → e.Chains) := by
  induction h with
  | named hn => exact ⟨(chains_variable hn).reads, fun _ => chains_variable hn⟩
  | field _ hn ih =>
    have hc := (ih.2 rfl).field hn
    exact ⟨hc.reads, fun _ => hc⟩
  | borrow he hr ih => exact ⟨borrow_reads (ih.2 rfl) he.starts hr, nofun⟩
  | call hf he ih =>
    have hc := chains_call hf ih.1 he.tokens_ne_nil
    exact ⟨hc.reads, fun _ => hc⟩
  | method _ hn ih =>
    have hc := (ih.2 rfl).method hn
    exact ⟨hc.reads, fun _ => hc⟩
  | map _ hf ih =>
    have hc := (ih.2 rfl).map hf
    exact ⟨hc.reads, fun _ => hc⟩
  | mapEach _ hx hb ih ihb =>
    have hc := (ih.2 rfl).mapEach hx ihb.1 hb.starts
    exact ⟨hc.reads, fun _ => hc⟩

end Courier.Emit
