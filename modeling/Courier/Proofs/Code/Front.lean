import Courier.Proofs.Code.Operands
import Courier.Proofs.Result

/-!
Reading tokens that are known: what a stream begins with, and what the small parsers make of it.
-/
namespace Courier.Code

namespace Tokens

variable {name w s : String} {m : Char} {joint : Bool} {text : String} {d : Delimiter}
  {body ts : Tokens}

/-! ## First tokens -/

@[simp] theorem next?_ident : next? (.ident name :: ts) = some (.ident name, ts) := by
  simp [next?, openFront, openToken]

@[simp] theorem next?_punct : next? (.punct m joint :: ts) = some (.punct m joint, ts) := by
  simp [next?, openFront, openToken]

@[simp] theorem next?_literal : next? (.literal text :: ts) = some (.literal text, ts) := by
  simp [next?, openFront, openToken]

@[simp] theorem next?_group (hd : d ≠ .hidden) :
    next? (.group d body :: ts) = some (.group d body, ts) := by
  cases d with
  | hidden => exact absurd rfl hd
  | _ => simp [next?, openFront, openToken]

theorem afterSign_of_next? {t : Token} (h : next? ts = some (t, body)) (ht : ∀ m j, t ≠ .punct m j)
    (hs : s.toList ≠ []) : afterSign s ts = none := by
  rw [afterSign]
  cases hl : s.toList with
  | nil => exact absurd hl hs
  | cons c cs =>
    rw [afterMarks, h]
    cases t with
    | punct m j => exact absurd rfl (ht m j)
    | _ => rfl

@[simp] theorem afterSign_ident (hs : s.toList ≠ []) : afterSign s (.ident name :: ts) = none :=
  afterSign_of_next? next?_ident (by simp) hs

@[simp] theorem afterSign_literal (hs : s.toList ≠ []) : afterSign s (.literal text :: ts) = none :=
  afterSign_of_next? next?_literal (by simp) hs

@[simp] theorem afterSign_group (hd : d ≠ .hidden) (hs : s.toList ≠ []) :
    afterSign s (.group d body :: ts) = none :=
  afterSign_of_next? (next?_group hd) (by simp) hs

@[simp] theorem afterSign_nil (hs : s.toList ≠ []) : afterSign s [] = none :=
  afterSign_of_none rfl hs

@[simp] theorem afterSign_punct : afterSign s (.punct m joint :: ts) =
    afterMarks s.toList (.punct m joint :: ts) := rfl

@[simp] theorem afterMarks_nil : afterMarks [] ts = some ts := rfl

@[simp] theorem afterMarks_cons_punct {c : Char} {cs : List Char} :
    afterMarks (c :: cs) (.punct m joint :: ts) =
      if m = c && (cs.isEmpty || joint) then afterMarks cs ts else none := by
  rw [afterMarks, next?_punct]

@[simp] theorem afterMarks_cons_ident {c : Char} {cs : List Char} :
    afterMarks (c :: cs) (.ident name :: ts) = none := by
  rw [afterMarks, next?_ident]

/-! ## Words, marks and groups -/

@[simp] theorem startsWord_ident : startsWord w (.ident name :: ts) = (name == w) := by
  simp [startsWord]

@[simp] theorem startsWord_punct : startsWord w (.punct m joint :: ts) = false := by
  simp [startsWord]

@[simp] theorem startsWord_group (hd : d ≠ .hidden) :
    startsWord w (.group d body :: ts) = false := by
  simp [startsWord, hd]

@[simp] theorem startsWord_nil : startsWord w [] = false := rfl

@[simp] theorem startsIdent_ident : startsIdent (.ident name :: ts) = isIdent name := by
  simp [startsIdent]

@[simp] theorem startsIdent_punct : startsIdent (.punct m joint :: ts) = false := by
  simp [startsIdent]

@[simp] theorem startsIdent_group (hd : d ≠ .hidden) :
    startsIdent (.group d body :: ts) = false := by
  simp [startsIdent, hd]

@[simp] theorem startsGroup_ident : startsGroup d (.ident name :: ts) = false := by
  simp [startsGroup]

@[simp] theorem startsGroup_punct : startsGroup d (.punct m joint :: ts) = false := by
  simp [startsGroup]

@[simp] theorem startsGroup_group {d' : Delimiter} (hd : d ≠ .hidden) :
    startsGroup d' (.group d body :: ts) = (d' == d) := by
  simp [startsGroup, hd]

@[simp] theorem startsGroup_nil : startsGroup d [] = false := rfl

@[simp] theorem startsLifetime_ident : startsLifetime (.ident name :: ts) = false := by
  simp [startsLifetime, openFront, openToken]

@[simp] theorem startsLifetime_punct (hm : m ≠ '\'') :
    startsLifetime (.punct m joint :: ts) = false := by
  simp [startsLifetime, openFront, openToken, hm]

@[simp] theorem startsLiteral_ident :
    startsLiteral (.ident name :: ts) = (name == "true" || name == "false") := by
  rw [startsLiteral, literal?, next?_ident]
  simp only
  split
  · rename_i h
    rw [h]
    rfl
  · rename_i h
    rw [Bool.eq_false_iff.2 h]
    rfl

@[simp] theorem startsLiteral_punct (hm : m ≠ '-') :
    startsLiteral (.punct m joint :: ts) = false := by
  rw [startsLiteral, literal?, next?_punct]
  split
  · rename_i h
    cases h
  · rename_i h
    cases h
  · rename_i h
    cases h
    exact absurd rfl hm
  · rfl

@[simp] theorem startsLiteral_literal : startsLiteral (.literal text :: ts) = true := by
  simp [startsLiteral, literal?]

@[simp] theorem startsLiteral_group (hd : d ≠ .hidden) :
    startsLiteral (.group d body :: ts) = false := by
  simp [startsLiteral, literal?, hd]

@[simp] theorem startsHidden_ident : startsHidden (.ident name :: ts) = false := rfl

@[simp] theorem startsHidden_punct : startsHidden (.punct m joint :: ts) = false := rfl

@[simp] theorem startsHidden_literal : startsHidden (.literal text :: ts) = false := rfl

@[simp] theorem startsHidden_group (hd : d ≠ .hidden) :
    startsHidden (.group d body :: ts) = false := by
  cases d <;> first | rfl | exact absurd rfl hd

@[simp] theorem startsSign_ident (hs : s.toList ≠ []) :
    startsSign s (.ident name :: ts) = false := by
  rw [startsSign, afterSign_ident hs]
  rfl

@[simp] theorem startsSign_literal (hs : s.toList ≠ []) :
    startsSign s (.literal text :: ts) = false := by
  rw [startsSign, afterSign_literal hs]
  rfl

@[simp] theorem startsSign_punct : startsSign s (.punct m joint :: ts) =
    (afterMarks s.toList (.punct m joint :: ts)).isSome := rfl

@[simp] theorem startsSign_group (hd : d ≠ .hidden) (hs : s.toList ≠ []) :
    startsSign s (.group d body :: ts) = false := by
  rw [startsSign, afterSign_group hd hs]
  rfl

@[simp] theorem startsSign_nil (hs : s.toList ≠ []) : startsSign s [] = false :=
  startsSign_of_none rfl hs

@[simp] theorem skip_ident : skip (.ident name :: ts) = ts := skip_of_next? next?_ident (by simp)

@[simp] theorem skip_punct : skip (.punct m false :: ts) = ts :=
  skip_of_next? next?_punct (by simp)

@[simp] theorem skip_joined (hm : m ≠ '\'') : skip (.punct m true :: ts) = ts :=
  skip_of_next? next?_punct (by simpa using hm)

@[simp] theorem skip_group (hd : d ≠ .hidden) : skip (.group d body :: ts) = ts :=
  skip_of_next? (next?_group hd) (by simp)

/-- An identifier is none of the words of the language. -/
theorem ne_of_isIdent (h : isIdent name = true) (hw : isIdent w = false) : (name == w) = false := by
  rw [beq_eq_false_iff_ne]
  rintro rfl
  rw [h] at hw
  cases hw

end Tokens

namespace Parser
open Tokens

variable {α β : Type} {ts r : Tokens}

/-! ## Runs -/

/-- A step whose result is known. -/
theorem bind_run {p : Parser α} {f : α → Parser β} {a : α} {x : Except Fault (β × Tokens)}
    (hp : p.run ts = .ok (a, r)) (hf : (f a).run r = x) : (p >>= f).run ts = x := by
  rw [StateT.run_bind, hp]
  exact hf

@[simp] theorem rest_run : Parser.rest.run ts = .ok (ts, ts) := rfl

@[simp] theorem sees_run {p : Tokens → Bool} : (sees p).run ts = .ok (p ts, ts) := rfl

@[simp] theorem seesSign_run {s : String} : (seesSign s).run ts = .ok (startsSign s ts, ts) := rfl

@[simp] theorem seesWord_run {w : String} : (seesWord w).run ts = .ok (startsWord w ts, ts) := rfl

@[simp] theorem finished_run : finished.run ts = .ok (ts.isEmpty, ts) := rfl

@[simp] theorem budget_run : budget.run ts = .ok (Token.spanList ts + 1, ts) := rfl

@[simp] theorem anyIdent_run {name : String} :
    anyIdent.run (.ident name :: ts) = .ok (Tree.word name, ts) := by
  simp only [anyIdent, StateT.run_bind, StateT.run_get, pure_bind, next?_ident]
  rfl

theorem ident_run {name : String} (h : isIdent name = true) :
    ident.run (.ident name :: ts) = .ok (Tree.word name, ts) := by
  simp only [ident, StateT.run_bind, StateT.run_get, pure_bind, next?_ident, h, if_true]
  rfl

theorem literal_run (text : String) :
    literal.run (.literal text :: ts) = .ok (.token (.literal text), ts) := by
  have hl : literal? (.literal text :: ts) = some (.literal text, ts) := by simp [literal?]
  simp only [literal, StateT.run_bind, StateT.run_get, pure_bind, hl]
  rfl

theorem word?_run (w : String) (ts : Tokens) : (word? w).run ts =
    match next? ts with
    | some (.ident name, r) => if name == w then .ok (some (Tree.word w), r) else .ok (none, ts)
    | _ => .ok (none, ts) := by
  simp only [word?, StateT.run_bind, StateT.run_get, pure_bind]
  rcases next? ts with _ | ⟨_ | _ | _ | _, _⟩
  case some.ident name =>
    simp only
    split <;> rfl
  all_goals rfl

theorem word?_self {w : String} : (word? w).run (.ident w :: ts) = .ok (some (Tree.word w), ts) := by
  rw [word?_run, next?_ident]
  simp

theorem word?_other {w name : String} (h : (name == w) = false) :
    (word? w).run (.ident name :: ts) = .ok (none, .ident name :: ts) := by
  rw [word?_run, next?_ident]
  simp [h]

@[simp] theorem word?_punct {w : String} {m : Char} {joint : Bool} :
    (word? w).run (.punct m joint :: ts) = .ok (none, .punct m joint :: ts) := by
  rw [word?_run, next?_punct]

@[simp] theorem word?_group {w : String} {d : Delimiter} {body : Tokens} (hd : d ≠ .hidden) :
    (word? w).run (.group d body :: ts) = .ok (none, .group d body :: ts) := by
  rw [word?_run, next?_group hd]

theorem word_self {w : String} : (word w).run (.ident w :: ts) = .ok (Tree.word w, ts) :=
  bind_run word?_self rfl

/-- All tokens were read by the parser itself. -/
theorem run_of_all {p : Parser α} {a : α} (h : all p ts = .ok a) : p.run ts = .ok (a, []) := by
  rw [all] at h
  obtain ⟨⟨b, r⟩, hr, h⟩ := bind_eq_ok.1 h
  simp only at h
  split at h
  · rename_i he
    cases h
    rw [hr, List.isEmpty_iff.1 he]
  · cases h

theorem all_of_run {p : Parser α} {a : α} (h : p.run ts = .ok (a, [])) : all p ts = .ok a := by
  rw [all, h]
  rfl

/-! ## Loops -/

section
variable {p : Parser (List Tree × Bool)} {as bs : List Tree} {r' : Tokens} {n : Nat}

theorem loop_stop (h : p.run ts = .ok ((as, false), r)) :
    (iterate.loop p (n + 1)).run ts = .ok (as, r) := by
  rw [iterate.loop, StateT.run_bind, h]
  rfl

theorem loop_more (as : List Tree) (h : p.run ts = .ok ((as, true), r))
    (h' : (iterate.loop p n).run r = .ok (bs, r')) :
    (iterate.loop p (n + 1)).run ts = .ok (as ++ bs, r') := by
  rw [iterate.loop, StateT.run_bind, h]
  simp [h']

/-- A loop that needs no more steps than there are tokens. -/
theorem iterate_run (h : ∀ n, Token.spanList ts < n → (iterate.loop p n).run ts = .ok (as, r)) :
    (iterate p).run ts = .ok (as, r) :=
  h _ (Nat.lt_succ_self _)

/-- A loop whose first step is its last. -/
theorem iterate_stop (h : p.run ts = .ok ((as, false), r)) : (iterate p).run ts = .ok (as, r) :=
  loop_stop h

end

end Parser

end Courier.Code
