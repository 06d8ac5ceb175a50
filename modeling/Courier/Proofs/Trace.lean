import Courier.Model.Trace

/-! The events on the way to a result: which computations warn of something, and of what. -/
namespace Courier

/-- The events that warn of something. -/
def warnings (events : List Event) : List Event := events.filter (·.severity = .warn)

@[simp] theorem warnings_append (as bs : List Event) :
    warnings (as ++ bs) = warnings as ++ warnings bs := List.filter_append ..

namespace Traced

variable {ε ε' α β : Type}

/-- Computations in a row may be grouped at will. -/
instance : LawfulMonad (Traced ε) := LawfulMonad.mk' _
  (fun x => by
    rcases x with ⟨_ | a, es⟩
    · rfl
    · exact congrArg (Traced.mk _) (List.append_nil es))
  (fun _ _ => rfl)
  (fun x f g => by
    rcases x with ⟨_ | a, es⟩
    · rfl
    show Traced.bind ⟨(f a).result, es ++ (f a).events⟩ g =
      ⟨(Traced.bind (f a) g).result, es ++ (Traced.bind (f a) g).events⟩
    rcases f a with ⟨_ | b, fs⟩
    · rfl
    · exact congrArg (Traced.mk _) (List.append_assoc es fs (g b).events))

/-- Only the result of a computation decides how the ones behind it go on. -/
theorem bind_congr_of_ok {x : Traced ε α} {f g : α → Traced ε β} {a : α} (hx : x.result = .ok a)
    (h : f a = g a) : (x >>= f) = x >>= g := by
  obtain ⟨r, es⟩ := x
  obtain rfl : r = .ok a := hx
  show Traced.mk (f a).result (es ++ (f a).events) = ⟨(g a).result, es ++ (g a).events⟩
  rw [h]

/-- Nothing is warned of. -/
def Quiet (x : Traced ε α) : Prop := warnings x.events = []

section
variable {x : Traced ε α} {f : α → Traced ε β}

theorem quiet_pure (a : α) : (pure a : Traced ε α).Quiet := rfl

theorem quiet_ofExcept (r : Except ε α) : (ofExcept r).Quiet := rfl

theorem Quiet.mapError (hx : x.Quiet) (g : ε → ε') : (x.mapError g).Quiet := hx

/-- What follows without warnings adds none. -/
theorem warnings_bind_of_quiet (hf : ∀ a, (f a).Quiet) :
    warnings (x >>= f).events = warnings x.events := by
  cases h : x.result with
  | error e => rw [events_bind_error h]
  | ok a => rw [events_bind_ok h, warnings_append, hf a, List.append_nil]

theorem Quiet.bind (hx : x.Quiet) (hf : ∀ a, (f a).Quiet) : (x >>= f).Quiet :=
  (warnings_bind_of_quiet hf).trans hx

theorem Quiet.forEach (hf : ∀ a, (f a).Quiet) (as : List α) : (forEach f as).Quiet := by
  induction as with
  | nil => rfl
  | cons a as ih => exact (hf a).bind fun _ => ih.bind fun _ => quiet_pure _

end

end Traced

end Courier
