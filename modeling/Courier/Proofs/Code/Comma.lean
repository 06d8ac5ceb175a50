import Courier.Proofs.Code.Depth

/-!
Reading in front of a comma. A comma ends whatever stands before it, so that what was read up to the
end of a stream is read alike up to a comma.
-/
namespace Courier.Code

/-- The mark that ends an element of a list. -/
def Token.comma : Token := .punct ',' false

namespace Tokens

variable {ts after r : Tokens} {s w : String} {d : Delimiter}

/-! ## First tokens -/

theorem openFront_append (ts after : Tokens) : openFront (ts ++ after) =
    match openFront ts with
    | [] => openFront after
    | t :: r => t :: (r ++ after) := by
  induction ts with
  | nil => simp [openFront]
  | cons t ts ih =>
    rw [List.cons_append, openFront, openFront]
    cases openToken t with
    | nil => exact ih
    | cons t' ts' => simp

theorem openFront_comma (ts after : Tokens) : openFront (ts ++ .comma :: after) =
    match openFront ts with
    | [] => .comma :: after
    | t :: r => t :: (r ++ .comma :: after) := by
  rw [openFront_append]
  rfl

theorem next?_eq_none : next? ts = none ↔ openFront ts = [] := by
  rw [next?]
  cases openFront ts <;> simp

theorem next?_comma (ts after : Tokens) : next? (ts ++ .comma :: after) =
    match next? ts with
    | none => some (.comma, after)
    | some (t, r) => some (t, r ++ .comma :: after) := by
  rw [next?, next?, openFront_comma]
  cases openFront ts <;> rfl

theorem next?_comma_of_some {t : Token} (h : next? ts = some (t, r)) :
    next? (ts ++ .comma :: after) = some (t, r ++ .comma :: after) := by
  rw [next?_comma, h]

theorem afterMarks_comma_of_some {cs : List Char} (h : afterMarks cs ts = some r) :
    afterMarks cs (ts ++ .comma :: after) = some (r ++ .comma :: after) := by
  induction cs generalizing ts with
  | nil =>
    cases h
    rfl
  | cons c cs ih =>
    rw [afterMarks] at h
    split at h
    · rename_i hn
      split at h
      · rename_i hm
        rw [afterMarks, next?_comma_of_some hn]
        simp only [hm, if_true]
        exact ih h
      · cases h
    · cases h

theorem afterMarks_comma_of_none {cs : List Char} (hcs : ',' ∉ cs) (h : afterMarks cs ts = none) :
    afterMarks cs (ts ++ .comma :: after) = none := by
  induction cs generalizing ts with
  | nil => cases h
  | cons c cs ih =>
    simp only [List.mem_cons, not_or] at hcs
    rw [afterMarks] at h ⊢
    rw [next?_comma]
    rcases hn : next? ts with _ | ⟨_ | ⟨m, joint⟩ | _ | _, left⟩ <;> rw [hn] at h
    case none => simp [Token.comma, hcs.1]
    case some.punct =>
      simp only at h ⊢
      split at h
      · rename_i hm
        rw [if_pos hm]
        exact ih hcs.2 h
      · rename_i hm
        rw [if_neg hm]

theorem afterSign_comma (hs : ',' ∉ s.toList) : afterSign s (ts ++ .comma :: after) =
    (afterSign s ts).map (· ++ .comma :: after) := by
  cases h : afterSign s ts with
  | none => exact afterMarks_comma_of_none hs h
  | some r => exact afterMarks_comma_of_some h

@[simp] theorem startsSign_comma (hs : ',' ∉ s.toList) :
    startsSign s (ts ++ .comma :: after) = startsSign s ts := by
  rw [startsSign, startsSign, afterSign_comma hs, Option.isSome_map]

@[simp] theorem startsWord_comma : startsWord w (ts ++ .comma :: after) = startsWord w ts := by
  rw [startsWord, startsWord, next?_comma]
  rcases next? ts with _ | ⟨_ | _ | _ | _, _⟩ <;> rfl

@[simp] theorem startsIdent_comma : startsIdent (ts ++ .comma :: after) = startsIdent ts := by
  rw [startsIdent, startsIdent, next?_comma]
  rcases next? ts with _ | ⟨_ | _ | _ | _, _⟩ <;> rfl

@[simp] theorem startsAnyIdent_comma :
    startsAnyIdent (ts ++ .comma :: after) = startsAnyIdent ts := by
  rw [startsAnyIdent, startsAnyIdent, next?_comma]
  rcases next? ts with _ | ⟨_ | _ | _ | _, _⟩ <;> rfl

@[simp] theorem startsGroup_comma : startsGroup d (ts ++ .comma :: after) = startsGroup d ts := by
  rw [startsGroup, startsGroup, next?_comma]
  rcases next? ts with _ | ⟨_ | _ | _ | _, _⟩ <;> rfl

@[simp] theorem startsHidden_comma : startsHidden (ts ++ .comma :: after) = startsHidden ts := by
  rcases ts with _ | ⟨_ | _ | _ | ⟨_ | _ | _ | _, _⟩, _⟩ <;> rfl

/-! ## Lifetimes and literals -/

/-- A stream begins with a lifetime, or nothing in it is taken for one. -/
theorem lifetime_cases (ts : Tokens) :
    (∃ name r, openFront ts = .punct '\'' true :: .ident name :: r ∧ startsLifetime ts = true ∧
      skip ts = r) ∨
    startsLifetime ts = false ∧ skip ts = (openFront ts).tail := by
  rw [startsLifetime, skip]
  cases openFront ts with
  | nil => exact .inr ⟨rfl, rfl⟩
  | cons t r =>
    by_cases h : ∃ name r', t = .punct '\'' true ∧ r = .ident name :: r'
    · obtain ⟨name, r', rfl, rfl⟩ := h
      exact .inl ⟨name, r', rfl, rfl, rfl⟩
    · refine .inr ⟨?_, ?_⟩
      · split
        · rename_i heq
          cases heq
          exact absurd ⟨_, _, rfl, rfl⟩ h
        · rfl
      · split
        · rename_i heq
          cases heq
          exact absurd ⟨_, _, rfl, rfl⟩ h
        · rename_i heq
          cases heq
          rfl
        · contradiction

theorem lifetime_comma (ts after : Tokens) :
    startsLifetime (ts ++ .comma :: after) = startsLifetime ts ∧
      (next? ts ≠ none → skip (ts ++ .comma :: after) = skip ts ++ .comma :: after) := by
  have hf := openFront_comma ts after
  rcases lifetime_cases ts with ⟨name, r, ho, hl, hs⟩ | ⟨hl, hs⟩
  · rw [ho] at hf
    rcases lifetime_cases (ts ++ .comma :: after) with ⟨name', r', ho', hl', hs'⟩ | ⟨hl', -⟩
    · rw [ho'] at hf
      cases hf
      exact ⟨hl'.trans hl.symm, fun _ => hs'.trans (congrArg (· ++ _) hs.symm)⟩
    · rw [startsLifetime, hf] at hl'
      cases hl'
  · rcases lifetime_cases (ts ++ .comma :: after) with ⟨name', r', ho', -, -⟩ | ⟨hl', hs'⟩
    · rw [ho'] at hf
      rcases ho : openFront ts with _ | ⟨t, _ | ⟨t', r⟩⟩ <;> rw [ho] at hf <;> cases hf
      rw [startsLifetime, ho] at hl
      cases hl
    · refine ⟨hl'.trans hl.symm, fun hn => ?_⟩
      rw [hs', hs, hf]
      rcases ho : openFront ts with _ | ⟨t, r⟩
      · exact absurd (next?_eq_none.2 ho) hn
      · rfl

@[simp] theorem startsLifetime_comma :
    startsLifetime (ts ++ .comma :: after) = startsLifetime ts :=
  (lifetime_comma ts after).1

theorem skip_comma (h : next? ts ≠ none) :
    skip (ts ++ .comma :: after) = skip ts ++ .comma :: after :=
  (lifetime_comma ts after).2 h

theorem literal?_comma : literal? (ts ++ .comma :: after) =
    (literal? ts).map fun p => (p.1, p.2 ++ .comma :: after) := by
  rw [literal?, literal?, next?_comma]
  rcases next? ts with _ | ⟨_ | ⟨m, j⟩ | _ | _, r⟩
  case none => rfl
  case some.ident name =>
    simp only
    split <;> rfl
  case some.punct =>
    by_cases hm : m = '-'
    · subst hm
      simp only [next?_comma]
      rcases next? r with _ | ⟨_ | _ | _ | _, _⟩
      all_goals try rfl
      simp only
      split <;> rfl
    · simp [hm]
  all_goals rfl

@[simp] theorem startsLiteral_comma : startsLiteral (ts ++ .comma :: after) = startsLiteral ts := by
  rw [startsLiteral, startsLiteral, literal?_comma, Option.isSome_map]

/-! ## Nothing left -/

section
variable (h : next? ts = none)
include h

theorem afterSign_of_none (hs : s.toList ≠ []) : afterSign s ts = none := by
  rw [afterSign]
  cases hl : s.toList with
  | nil => exact absurd hl hs
  | cons c cs => rw [afterMarks, h]

theorem startsSign_of_none (hs : s.toList ≠ []) : startsSign s ts = false := by
  rw [startsSign, afterSign_of_none h hs]
  rfl

theorem startsWord_of_none : startsWord w ts = false := by
  rw [startsWord, h]

theorem startsIdent_of_none : startsIdent ts = false := by
  rw [startsIdent, h]

theorem startsGroup_of_none : startsGroup d ts = false := by
  rw [startsGroup, h]

theorem startsLiteral_of_none : startsLiteral ts = false := by
  rw [startsLiteral, literal?, h]
  rfl

theorem startsLifetime_of_none : startsLifetime ts = false := by
  rw [startsLifetime, next?_eq_none.1 h]

end

/-! ## Second tokens -/

variable {b : Bool} {t : Tokens → Bool}

/-- A test of the tokens behind the first one, where there is a first one. -/
theorem and_skip_comma (after : Tokens) (hb : b = true → next? ts ≠ none)
    (ht : ∀ ts, t (ts ++ .comma :: after) = t ts) :
    (b && t (skip (ts ++ .comma :: after))) = (b && t (skip ts)) := by
  cases b with
  | false => rfl
  | true => rw [skip_comma (hb rfl), ht]

theorem next?_of_startsWord (h : startsWord w ts = true) : next? ts ≠ none := by
  intro hn
  rw [startsWord_of_none hn] at h
  cases h

theorem next?_of_startsSign (hs : s.toList ≠ []) (h : startsSign s ts = true) :
    next? ts ≠ none := by
  intro hn
  rw [startsSign_of_none hn hs] at h
  cases h

theorem next?_of_startsIdent (h : startsIdent ts = true) : next? ts ≠ none := by
  intro hn
  rw [startsIdent_of_none hn] at h
  cases h

theorem next?_of_startsLifetime (h : startsLifetime ts = true) : next? ts ≠ none := by
  intro hn
  rw [startsLifetime_of_none hn] at h
  cases h

theorem skip_of_next? {t : Token} (h : next? ts = some (t, r)) (ht : t ≠ .punct '\'' true) :
    skip ts = r := by
  rw [next?] at h
  rcases lifetime_cases ts with ⟨name, left, ho, -, -⟩ | ⟨-, hs⟩
  · rw [ho] at h
    cases h
    exact absurd rfl ht
  · rw [hs]
    split at h
    · cases h
    · rename_i ho
      cases h
      rw [ho]
      rfl

theorem afterMarks_cons {c : Char} {cs : List Char} (h : afterMarks (c :: cs) ts = some r) :
    ∃ joint left, next? ts = some (.punct c joint, left) ∧ afterMarks cs left = some r := by
  rw [afterMarks] at h
  split at h
  · rename_i hn
    split at h
    · rename_i hm
      simp only [Bool.and_eq_true, decide_eq_true_eq] at hm
      obtain ⟨rfl, -⟩ := hm
      exact ⟨_, _, hn, h⟩
    · cases h
  · cases h

/-- The tokens behind a path separator. -/
theorem skip_skip_of_separator (h : afterSign "::" ts = some r) : skip (skip ts) = r := by
  rw [afterSign, show "::".toList = [':', ':'] by simp] at h
  obtain ⟨_, left, hn, h⟩ := afterMarks_cons h
  obtain ⟨_, _, hn', h⟩ := afterMarks_cons h
  cases h
  rw [skip_of_next? hn (by simp), skip_of_next? hn' (by simp)]

theorem separator_skip_comma (ht : ∀ ts, t (ts ++ .comma :: after) = t ts) :
    (startsSign "::" ts && t (skip (skip (ts ++ .comma :: after)))) =
      (startsSign "::" ts && t (skip (skip ts))) := by
  rw [startsSign]
  cases h : afterSign "::" ts with
  | none => rfl
  | some r =>
    rw [skip_skip_of_separator h, skip_skip_of_separator (afterMarks_comma_of_some h), ht]

@[simp] theorem separator_startsSign_comma (hs : ',' ∉ s.toList) :
    (startsSign "::" ts && startsSign s (skip (skip (ts ++ .comma :: after)))) =
      (startsSign "::" ts && startsSign s (skip (skip ts))) :=
  separator_skip_comma fun _ => startsSign_comma hs

@[simp] theorem separator_startsGroup_comma :
    (startsSign "::" ts && startsGroup d (skip (skip (ts ++ .comma :: after)))) =
      (startsSign "::" ts && startsGroup d (skip (skip ts))) :=
  separator_skip_comma fun _ => startsGroup_comma

@[simp] theorem separator_not_startsGroup_comma :
    (startsSign "::" ts && !startsGroup d (skip (skip (ts ++ .comma :: after)))) =
      (startsSign "::" ts && !startsGroup d (skip (skip ts))) :=
  separator_skip_comma (t := fun ts => !startsGroup d ts) fun _ => by rw [startsGroup_comma]

@[simp] theorem separator_startsAnyIdent_comma :
    (startsSign "::" ts && startsAnyIdent (skip (skip (ts ++ .comma :: after)))) =
      (startsSign "::" ts && startsAnyIdent (skip (skip ts))) :=
  separator_skip_comma fun _ => startsAnyIdent_comma

end Tokens

/-- In front of a comma the second parser reads what the first one reads. -/
def Parser.Before {α : Type} (after : Tokens) (p q : Parser α) : Prop :=
  ∀ ts a r, p.run ts = .ok (a, r) → q.run (ts ++ .comma :: after) = .ok (a, r ++ .comma :: after)

namespace Parser
open Tokens

variable {after : Tokens} {α β : Type} {p q : Parser α} {f f' : α → Parser β}

/-! ## Composition -/

@[gcongr] theorem Before.bind (h : Before after p q) (hf : ∀ a, Before after (f a) (f' a)) :
    Before after (p >>= f) (q >>= f') := by
  intro ts b r hb
  rw [StateT.run_bind] at hb ⊢
  cases hp : p.run ts with
  | error e =>
    rw [hp] at hb
    cases hb
  | ok x =>
    rw [hp] at hb
    rw [h ts x.1 x.2 hp]
    exact hf x.1 x.2 b r hb

@[gcongr] theorem Before.ite {b : Prop} [Decidable b] {p' q' : Parser α}
    (h : Before after p q) (h' : Before after p' q') :
    Before after (if b then p else p') (if b then q else q') := by
  split
  · exact h
  · exact h'

/-- A choice by conditions that agree. -/
theorem Before.ite_congr {b b' : Prop} [Decidable b] [Decidable b'] {p' q' : Parser α}
    (hb : b' ↔ b) (h : Before after p q) (h' : Before after p' q') :
    Before after (if b then p else p') (if b' then q else q') := by
  by_cases hc : b
  · rw [if_pos hc, if_pos (hb.2 hc)]
    exact h
  · rw [if_neg hc, if_neg (mt hb.1 hc)]
    exact h'

/-- A parser that looks at all that is left. -/
theorem Before.look {k k' : Tokens → Parser β}
    (h : ∀ ts, Before after (k ts) (k' (ts ++ .comma :: after))) :
    Before after (rest >>= k) (rest >>= k') :=
  fun ts b r hb => h ts ts b r hb

theorem Before.get {k k' : Tokens → Parser β}
    (h : ∀ ts, Before after (k ts) (k' (ts ++ .comma :: after))) :
    Before after (get >>= k) (get >>= k') :=
  .look h

theorem Before.set {k k' : PUnit → Parser β} (left : Tokens) (h : ∀ u, Before after (k u) (k' u)) :
    Before after (set left >>= k) (set (left ++ .comma :: after) >>= k') :=
  fun _ b r hb => h ⟨⟩ left b r hb

/-- A parser that looks at all that is left, and agrees there with the comma or fails without. -/
theorem Before.look_or {k k' : Tokens → Parser β}
    (hk : ∀ ts, k' (ts ++ .comma :: after) = k' ts ∨ ∀ x, (k ts).run ts ≠ .ok x)
    (h : ∀ ts, Before after (k ts) (k' ts)) : Before after (rest >>= k) (rest >>= k') := by
  intro ts b r hb
  change (k' (ts ++ .comma :: after)).run _ = _
  rcases hk ts with hk | hk
  · rw [hk]
    exact h ts ts b r hb
  · exact absurd hb (hk _)

@[gcongr] theorem Before.rest {k k' : Tokens → Parser β}
    (hk : ∀ ts, k' (ts ++ .comma :: after) = k' ts) (h : ∀ ts, Before after (k ts) (k' ts)) :
    Before after (rest >>= k) (rest >>= k') :=
  .look fun ts => by
    rw [hk]
    exact h ts

@[simp] theorem pure_before (a : α) : Before after (pure a) (pure a) := by
  intro ts b r h
  cases h
  rfl

@[simp] theorem throw_before (e : Fault) : Before after (throw e) q := by
  intro ts b r h
  cases h

@[simp] theorem fail_before (e : Fault) : Before after (fail e) q := throw_before e

@[simp] theorem missing_before (what : String) : Before after (missing what) q := by
  intro ts b r h
  cases h

theorem missing_bind_before (what : String) (f : α → Parser β) (q : Parser β) :
    Before after (missing what >>= f) q := by
  intro ts b r h
  cases h

@[simp] theorem lift_before (x : Except Fault α) :
    Before after (liftM x : Parser α) (liftM x) := by
  intro ts b r h
  cases x with
  | error e => cases h
  | ok a =>
    cases h
    rfl

/-- What is read inside of brackets does not see the comma. -/
theorem lift_run_before (h : p.Below q) (ts : Tokens) :
    Before after (liftM (p.run ts) : Parser (α × Tokens)) (liftM (q.run ts)) := by
  intro us a r hr
  cases hp : p.run ts with
  | error e =>
    rw [hp] at hr
    cases hr
  | ok x =>
    rw [hp] at hr
    rw [h.run_eq_ok hp]
    exact lift_before _ us a r hr

theorem lift_all_before (h : p.Below q) (ts : Tokens) :
    Before after (liftM (all p ts) : Parser α) (liftM (all q ts)) := by
  intro us a r hr
  cases hp : all p ts with
  | error e =>
    rw [hp] at hr
    cases hr
  | ok x =>
    rw [hp] at hr
    rw [h.all_eq_ok hp]
    exact lift_before _ us a r hr

@[simp] theorem sees_before {t : Tokens → Bool} (h : ∀ ts, t (ts ++ .comma :: after) = t ts) :
    Before after (sees t) (sees t) := by
  intro ts b r hb
  cases hb
  show Except.ok _ = _
  rw [h]

@[simp] theorem seesSign_before {s : String} (hs : ',' ∉ s.toList) :
    Before after (seesSign s) (seesSign s) :=
  sees_before fun _ => startsSign_comma hs

@[simp] theorem seesWord_before {w : String} : Before after (seesWord w) (seesWord w) :=
  sees_before fun _ => startsWord_comma

/-! ## Marks and words -/

theorem sign?_run (s : String) (ts : Tokens) : (sign? s).run ts =
    match afterSign s ts with
    | some r => .ok (some (.sign s), r)
    | none => .ok (none, ts) := by
  simp only [sign?, StateT.run_bind, StateT.run_get, pure_bind]
  cases afterSign s ts <;> rfl

theorem sign?_absent {s : String} {ts : Tokens} (h : startsSign s ts = false) :
    (sign? s).run ts = .ok (none, ts) := by
  have ha : afterSign s ts = none := by simpa [startsSign] using h
  rw [sign?_run, ha]

@[simp] theorem sign?_before {s : String} (hs : ',' ∉ s.toList) :
    Before after (sign? s) (sign? s) := by
  intro ts a r h
  rw [sign?_run] at h ⊢
  rw [afterSign_comma hs]
  cases hr : afterSign s ts <;> rw [hr] at h <;> cases h <;> rfl

theorem sign_run (s : String) (ts : Tokens) : (sign s).run ts =
    match afterSign s ts with
    | some r => .ok (.sign s, r)
    | none => .error (.expected ("`" ++ s ++ "`")) := by
  simp only [sign, StateT.run_bind, sign?_run]
  cases afterSign s ts <;> rfl

/-- A mark that is there stays there, be it a comma. -/
@[simp] theorem sign_before (s : String) : Before after (sign s) (sign s) := by
  intro ts a r h
  rw [sign_run] at h ⊢
  cases hr : afterSign s ts with
  | none =>
    rw [hr] at h
    cases h
  | some left =>
    rw [hr] at h
    rw [afterSign, afterMarks_comma_of_some hr]
    cases h
    rfl

@[simp] theorem word?_before (w : String) : Before after (word? w) (word? w) := by
  intro ts a r h
  simp only [word?, StateT.run_bind, StateT.run_get, pure_bind] at h ⊢
  rw [next?_comma]
  rcases hn : next? ts with _ | ⟨_ | _ | _ | _, left⟩ <;> rw [hn] at h
  case some.ident name =>
    simp only at h ⊢
    split at h <;> cases h
    · rename_i hw
      rw [if_pos hw]
      rfl
    · rename_i hw
      rw [if_neg hw]
      rfl
  all_goals
    cases h
    rfl

@[simp] theorem word_before (w : String) : Before after (word w) (word w) := by
  unfold word
  refine (word?_before w).bind fun o => ?_
  cases o <;> simp

@[simp] theorem anyIdent_before : Before after anyIdent anyIdent := by
  intro ts a r h
  simp only [anyIdent, StateT.run_bind, StateT.run_get, pure_bind] at h ⊢
  rw [next?_comma]
  rcases hn : next? ts with _ | ⟨_ | _ | _ | _, left⟩ <;> rw [hn] at h <;> cases h
  rfl

@[simp] theorem ident_before : Before after ident ident := by
  intro ts a r h
  simp only [ident, StateT.run_bind, StateT.run_get, pure_bind] at h ⊢
  rw [next?_comma]
  rcases hn : next? ts with _ | ⟨_ | _ | _ | _, left⟩ <;> rw [hn] at h
  case some.ident =>
    simp only at h ⊢
    split at h
    · rename_i hi
      cases h
      rw [if_pos hi]
      rfl
    · cases h
  all_goals cases h

@[simp] theorem lifetime_before : Before after lifetime lifetime := by
  intro ts a r h
  simp only [lifetime, StateT.run_bind, StateT.run_get, pure_bind] at h ⊢
  split at h
  · rename_i ho
    rw [openFront_comma, ho]
    cases h
    rfl
  · cases h

@[simp] theorem lifetime?_before : Before after lifetime? lifetime? := by
  unfold lifetime?
  gcongr <;> simp

@[simp] theorem literal_before : Before after literal literal := by
  intro ts a r h
  simp only [literal, StateT.run_bind, StateT.run_get, pure_bind] at h ⊢
  rw [literal?_comma]
  cases hl : literal? ts <;> rw [hl] at h <;> cases h
  rfl

/-! ## Groups -/

@[gcongr] theorem group_before (d : Delimiter) (h : p.Below q) :
    Before after (group d p) (group d q) := by
  intro ts a r hr
  simp only [group, StateT.run_bind, StateT.run_get, pure_bind] at hr ⊢
  rw [next?_comma]
  rcases hn : next? ts with _ | ⟨_ | _ | _ | ⟨d', body⟩, left⟩ <;> rw [hn] at hr
  case some.group =>
    simp only at hr ⊢
    split at hr
    · rename_i hd
      rw [if_pos hd]
      cases hb : all p body with
      | error e =>
        rw [hb] at hr
        cases hr
      | ok b =>
        rw [hb] at hr
        rw [h.all_eq_ok hb]
        cases hr
        rfl
    · cases hr
  all_goals cases hr

@[gcongr] theorem grouped_before {p q : Parser (List Tree)} (d : Delimiter) (h : p.Below q) :
    Before after (grouped d p) (grouped d q) := by
  unfold grouped
  gcongr
  simp

@[gcongr] theorem hidden_before (h : p.Below q) : Before after (hidden p) (hidden q) := by
  intro ts a r hr
  simp only [hidden, StateT.run_bind, StateT.run_get, pure_bind] at hr ⊢
  rcases ts with _ | ⟨_ | _ | _ | ⟨_ | _ | _ | _, body⟩, left⟩
  case cons.group.hidden =>
    simp only [List.cons_append] at hr ⊢
    cases hb : all p body with
    | error e =>
      rw [hb] at hr
      cases hr
    | ok b =>
      rw [hb] at hr
      rw [h.all_eq_ok hb]
      cases hr
      rfl
  all_goals cases hr

@[simp] theorem delimited_before : Before after Grammar.delimited Grammar.delimited := by
  intro ts a r h
  simp only [Grammar.delimited, StateT.run_bind, StateT.run_get, pure_bind] at h ⊢
  rw [next?_comma]
  rcases hn : next? ts with _ | ⟨_ | _ | _ | _, left⟩ <;> rw [hn] at h <;> cases h
  rfl

@[gcongr] theorem when_before {p q : Parser Tree} (b : Bool) (h : Before after p q) :
    Before after (when b p) (when b q) := by
  unfold when
  gcongr
  simp

/-! ## Loops -/

section
variable {p q : Parser (List Tree × Bool)}

theorem loop_before {n m : Nat} (hn : n ≤ m) (h : Before after p q) :
    Before after (iterate.loop p n) (iterate.loop q m) := by
  induction n generalizing m with
  | zero => exact throw_before _
  | succ n ih =>
    cases m with
    | zero => contradiction
    | succ m =>
      unfold iterate.loop
      refine h.bind fun x => ?_
      split
      split
      · exact (ih (Nat.le_of_succ_le_succ hn)).bind fun _ => pure_before _
      · exact pure_before _

theorem spanList_append (ts us : Tokens) :
    Token.spanList (ts ++ us) = Token.spanList ts + Token.spanList us := by
  induction ts with
  | nil => simp [Token.spanList]
  | cons t ts ih => simp [Token.spanList, ih, Nat.add_assoc]

@[gcongr] theorem iterate_before (h : Before after p q) :
    Before after (iterate p) (iterate q) := by
  intro ts a r hr
  have hn : Token.spanList ts + 1 ≤ Token.spanList (ts ++ .comma :: after) + 1 := by
    rw [spanList_append]
    omega
  exact loop_before hn h ts a r hr

end

section
variable {p q : Parser Tree}

@[gcongr] theorem untilSign_before {close : String} (sep : String) (hc : ',' ∉ close.toList)
    (h : Before after p q) : Before after (untilSign close sep p) (untilSign close sep q) := by
  unfold untilSign
  gcongr <;> simp [hc]

@[gcongr] theorem manyWhile_before {go : Tokens → Bool}
    (hg : ∀ ts, go (ts ++ .comma :: after) = go ts) (h : Before after p q) :
    Before after (manyWhile go p) (manyWhile go q) := by
  unfold manyWhile
  gcongr <;> simp [hg]

end

end Parser
end Courier.Code
