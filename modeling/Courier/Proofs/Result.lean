import Courier.Model.Trace
import Mathlib.Data.List.Forall2

/-! Computations that may fail: what it takes for them to succeed. -/
namespace Courier

section
variable {ε α β : Type}

@[simp] theorem ok_bind {a : α} {f : α → Except ε β} : (Except.ok a >>= f) = f a := rfl

theorem exists_eq_ok {x : Except ε α} (h : x.isOk = true) : ∃ a, x = .ok a := by
  cases x with
  | error e => cases h
  | ok a => exact ⟨a, rfl⟩

theorem bind_eq_ok {x : Except ε α} {f : α → Except ε β} {b : β} :
    (x >>= f) = .ok b ↔ ∃ a, x = .ok a ∧ f a = .ok b := by
  constructor
  · intro h
    cases x with
    | error e => cases h
    | ok a => exact ⟨a, rfl, h⟩
  · rintro ⟨a, rfl, h⟩
    exact h

theorem bind_eq_error {x : Except ε α} {f : α → Except ε β} {e : ε} :
    (x >>= f) = .error e ↔ x = .error e ∨ ∃ a, x = .ok a ∧ f a = .error e := by
  cases x with
  | error e' => simp [bind, Except.bind]
  | ok a => simp

/-- A list of computations succeeds when each of them does. -/
theorem mapM_eq_ok {f : α → Except ε β} {as : List α} {bs : List β} :
    as.mapM f = .ok bs ↔ List.Forall₂ (fun a b => f a = .ok b) as bs := by
  induction as generalizing bs with
  | nil =>
    rw [List.forall₂_nil_left_iff]
    exact ⟨fun h => by cases h; rfl, fun h => h ▸ rfl⟩
  | cons a as ih =>
    rw [List.mapM_cons, List.forall₂_cons_left_iff]
    constructor
    · intro h
      obtain ⟨b, hb, h⟩ := bind_eq_ok.1 h
      obtain ⟨bs, hbs, h⟩ := bind_eq_ok.1 h
      cases h
      exact ⟨b, bs, hb, ih.1 hbs, rfl⟩
    · rintro ⟨b, bs, hb, hbs, rfl⟩
      rw [hb, ih.2 hbs]
      rfl

/-- What is true of a list and its results is true of each element and its result. -/
theorem forall₂_mem_left {R : α → β → Prop} {as : List α} {bs : List β} (h : List.Forall₂ R as bs) :
    ∀ a ∈ as, ∃ b ∈ bs, R a b := by
  induction h with
  | nil => simp
  | cons hab _ ih =>
    intro a ha
    rcases List.mem_cons.1 ha with rfl | ha
    · exact ⟨_, List.mem_cons_self .., hab⟩
    · obtain ⟨b, hb, h⟩ := ih a ha
      exact ⟨b, List.mem_cons_of_mem _ hb, h⟩

theorem forall₂_mem_right {R : α → β → Prop} {as : List α} {bs : List β} (h : List.Forall₂ R as bs) :
    ∀ b ∈ bs, ∃ a ∈ as, R a b :=
  forall₂_mem_left (R := fun b a => R a b) h.flip

/-- The error of the first element on which a function fails. -/
def FirstError (f : α → Except ε β) (as : List α) (e : ε) : Prop :=
  ∃ before a after, as = before ++ a :: after ∧ (∀ b ∈ before, ∃ y, f b = .ok y) ∧ f a = .error e

variable {f : α → Except ε β} {a : α} {as : List α} {e : ε}

theorem firstError_nil : ¬FirstError f [] e := by simp [FirstError]

theorem firstError_cons :
    FirstError f (a :: as) e ↔ f a = .error e ∨ (∃ b, f a = .ok b) ∧ FirstError f as e := by
  constructor
  · rintro ⟨_ | ⟨b, before⟩, c, after, has, hb, hc⟩
    · obtain ⟨rfl, rfl⟩ := List.cons.inj has
      exact .inl hc
    · obtain ⟨rfl, rfl⟩ := List.cons.inj has
      obtain ⟨ha, hb⟩ := List.forall_mem_cons.1 hb
      exact .inr ⟨ha, before, c, after, rfl, hb, hc⟩
  · rintro (ha | ⟨ha, before, c, after, rfl, hb, hc⟩)
    · exact ⟨[], a, as, rfl, by simp, ha⟩
    · exact ⟨a :: before, c, after, rfl, List.forall_mem_cons.2 ⟨ha, hb⟩, hc⟩

/-- A list of computations fails as the first of them that fails. -/
theorem mapM_eq_error : as.mapM f = .error e ↔ FirstError f as e := by
  induction as with
  | nil => exact iff_of_false nofun firstError_nil
  | cons a as ih =>
    have hlast : ∀ bs : List β, (pure bs : Except ε (List β)) ≠ .error e := nofun
    simp only [List.mapM_cons, bind_eq_error, firstError_cons, ih, hlast, and_false, exists_false,
      or_false, exists_and_right]

end

/-! ## Two computations -/

/-- Two computations agree: both succeed with results in a relation, or both fail. -/
inductive Alike {ε ε' α β : Type} (R : α → β → Prop) : Except ε α → Except ε' β → Prop
  | ok {a : α} {b : β} (h : R a b) : Alike R (.ok a) (.ok b)
  | error {e : ε} {e' : ε'} : Alike R (.error e) (.error e')

namespace Alike

variable {ε ε' α β γ δ : Type} {R : α → β → Prop} {S : γ → δ → Prop} {x : Except ε α} {y : Except ε' β}

theorem refl (x : Except ε α) : Alike Eq x x := by
  cases x with
  | error => exact .error
  | ok => exact .ok rfl

theorem bind {f : α → Except ε γ} {g : β → Except ε' δ} (h : Alike R x y)
    (hf : ∀ a b, R a b → Alike S (f a) (g b)) : Alike S (x >>= f) (y >>= g) := by
  cases h with
  | ok h => exact hf _ _ h
  | error => exact .error

theorem trans {ε'' : Type} {T : β → γ → Prop} {z : Except ε'' γ} (h : Alike R x y) (h' : Alike T y z) :
    Alike (fun a c => ∃ b, R a b ∧ T b c) x z := by
  cases h with
  | ok h =>
    cases h' with
    | ok h' => exact .ok ⟨_, h, h'⟩
  | error =>
    cases h'
    exact .error

/-- The second one goes on, and does not fail. -/
theorem bind_right {T : α → δ → Prop} {g : β → Except ε' δ} (h : Alike R x y)
    (hg : ∀ a b, R a b → ∃ d, g b = .ok d ∧ T a d) : Alike T x (y >>= g) := by
  cases h with
  | ok h =>
    obtain ⟨d, hd, ht⟩ := hg _ _ h
    rw [ok_bind, hd]
    exact .ok ht
  | error => exact .error

/-- It is enough to know when the second one succeeds, and with which result. -/
theorem of_ok_iff {f : α → β} (h : ∀ b, y = .ok b ↔ ∃ a, x = .ok a ∧ b = f a) :
    Alike (fun a b => b = f a) x y := by
  cases x with
  | ok a =>
    rw [(h (f a)).2 ⟨a, rfl, rfl⟩]
    exact .ok rfl
  | error e =>
    cases y with
    | error e' => exact .error
    | ok b =>
      obtain ⟨a, hx, -⟩ := (h b).1 rfl
      cases hx

theorem imp {R' : α → β → Prop} (h : Alike R x y) (hR : ∀ a b, R a b → R' a b) : Alike R' x y := by
  cases h with
  | ok h => exact .ok (hR _ _ h)
  | error => exact .error

theorem mapError {η η' : Type} (h : Alike R x y) (f : ε → η) (g : ε' → η') :
    Alike R (x.mapError f) (y.mapError g) := by
  cases h with
  | ok h => exact .ok h
  | error => exact .error

theorem mapM {as : List α} {bs : List β} {f : α → Except ε γ} {g : β → Except ε' δ}
    (h : List.Forall₂ R as bs) (hf : ∀ a b, R a b → Alike S (f a) (g b)) :
    Alike (List.Forall₂ S) (as.mapM f) (bs.mapM g) := by
  induction h with
  | nil => exact .ok .nil
  | cons hab _ ih =>
    rw [List.mapM_cons, List.mapM_cons]
    exact (hf _ _ hab).bind fun c d hcd => ih.bind fun cs ds hcds => .ok (.cons hcd hcds)

/-- Where the first one succeeds, so does the second. -/
theorem of_ok {a : α} (h : Alike R x y) (hx : x = .ok a) : ∃ b, y = .ok b ∧ R a b := by
  cases h with
  | ok h =>
    cases hx
    exact ⟨_, rfl, h⟩
  | error => cases hx

end Alike

/-- Two computations agree fully: both succeed with results in a relation, or both fail with the same
error. -/
inductive Agree {ε α β : Type} (R : α → β → Prop) : Except ε α → Except ε β → Prop
  | ok {a : α} {b : β} (h : R a b) : Agree R (.ok a) (.ok b)
  | error {e : ε} : Agree R (.error e) (.error e)

namespace Agree

variable {ε ε' α β γ δ : Type} {R : α → β → Prop} {S : γ → δ → Prop} {x : Except ε α} {y : Except ε β}

theorem refl (x : Except ε α) : Agree Eq x x := by
  cases x with
  | error => exact .error
  | ok => exact .ok rfl

theorem eq {x y : Except ε α} (h : Agree Eq x y) : x = y := by
  cases h with
  | ok h => rw [h]
  | error => rfl

theorem bind {f : α → Except ε γ} {g : β → Except ε δ} (h : Agree R x y)
    (hf : ∀ a b, R a b → Agree S (f a) (g b)) : Agree S (x >>= f) (y >>= g) := by
  cases h with
  | ok h => exact hf _ _ h
  | error => exact .error

theorem exists_ok_iff (h : Agree R x y) : (∃ a, x = .ok a) ↔ ∃ b, y = .ok b := by
  cases h <;> simp

theorem eq_error_iff {e : ε} (h : Agree R x y) : x = .error e ↔ y = .error e := by
  cases h <;> simp

/-- The second one goes on with its result alone. -/
theorem map_right {g : β → γ} {T : α → γ → Prop} (h : Agree R x y) (hg : ∀ a b, R a b → T a (g b)) :
    Agree T x (y >>= fun b => pure (g b)) := by
  cases h with
  | ok h => exact .ok (hg _ _ h)
  | error => exact .error

theorem mapError (h : Agree R x y) (f : ε → ε') : Agree R (x.mapError f) (y.mapError f) := by
  cases h with
  | ok h => exact .ok h
  | error => exact .error

theorem mapM {as : List α} {bs : List β} {f : α → Except ε γ} {g : β → Except ε δ}
    (h : List.Forall₂ R as bs) (hf : ∀ a b, R a b → Agree S (f a) (g b)) :
    Agree (List.Forall₂ S) (as.mapM f) (bs.mapM g) := by
  induction h with
  | nil => exact .ok .nil
  | cons hab _ ih =>
    rw [List.mapM_cons, List.mapM_cons]
    exact (hf _ _ hab).bind fun c d hcd => ih.bind fun cs ds hcds => .ok (.cons hcd hcds)

end Agree

end Courier
