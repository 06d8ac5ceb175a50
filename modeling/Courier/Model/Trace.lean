/-! Results with the events that were logged on the way to them. -/
namespace Courier

/-- How important an event is. -/
inductive Severity where
  | trace
  | debug
  | info
  | warn
  deriving DecidableEq, Repr

/-- The value of a field of an event. -/
inductive Detail where
  | text (value : String)
  | count (value : Nat)
  deriving DecidableEq, Repr

/-- What is logged. -/
inductive Event where
  | parsedSchema (package : String) (models : Nat)
  | skippedMember (model member : String)
  | extracted (model : String) (fields nested : Nat)
  | classified (field declared transfer shape : String)
  | emitted (model transfer : String)
  | unresolvedNested (model nested : String)
  | generated (package : String) (models bytes : Nat)
  | wrote (schema out : String)
  deriving DecidableEq, Repr

namespace Event

def severity : Event → Severity
  | .skippedMember .. => .trace
  | .unresolvedNested .. => .warn
  | .generated .. | .wrote .. => .info
  | _ => .debug

def message : Event → String
  | .parsedSchema .. => "parsed model schema"
  | .skippedMember .. => "skipping member"
  | .extracted .. => "extracted type descriptor"
  | .classified .. => "classified convertible field"
  | .emitted .. => "emitted transfer type"
  | .unresolvedNested .. =>
    "nested type has no model in this schema; assuming it is generated elsewhere"
  | .generated .. => "generated transfer types"
  | .wrote .. => "wrote generated transfer types"

def details : Event → List (String × Detail)
  | .parsedSchema package models => [("package", .text package), ("models", .count models)]
  | .skippedMember model member => [("model", .text model), ("member", .text member)]
  | .extracted model fields nested =>
    [("model", .text model), ("fields", .count fields), ("nested", .count nested)]
  | .classified field declared transfer shape => [("field", .text field),
      ("declared", .text declared), ("transfer", .text transfer), ("shape", .text shape)]
  | .emitted model transfer => [("model", .text model), ("transfer", .text transfer)]
  | .unresolvedNested model nested => [("model", .text model), ("nested", .text nested)]
  | .generated package models bytes =>
    [("package", .text package), ("models", .count models), ("bytes", .count bytes)]
  | .wrote schema out => [("schema", .text schema), ("out", .text out)]

end Event

/-- A result or an error, with the events up to it. -/
structure Traced (ε α : Type) where
  result : Except ε α
  events : List Event

namespace Traced

variable {ε ε' α β : Type}

def ofExcept (x : Except ε α) : Traced ε α := ⟨x, []⟩

def log (events : List Event) : Traced ε Unit := ⟨.ok (), events⟩

/-- One computation after another; an error ends them. -/
protected def bind (x : Traced ε α) (f : α → Traced ε β) : Traced ε β :=
  match x.result with
  | .ok a => ⟨(f a).result, x.events ++ (f a).events⟩
  | .error e => ⟨.error e, x.events⟩

instance : Monad (Traced ε) where
  pure a := ⟨.ok a, []⟩
  bind := Traced.bind

/-- The same events with another error. -/
def mapError (f : ε → ε') (x : Traced ε α) : Traced ε' α := ⟨x.result.mapError f, x.events⟩

/-- The results for all elements of a list, up to the first error. -/
def forEach (f : α → Traced ε β) : List α → Traced ε (List β)
  | [] => pure []
  | a :: as => do
    let b ← f a
    return b :: (← forEach f as)

@[simp] theorem result_pure (a : α) : (pure a : Traced ε α).result = .ok a := rfl

@[simp] theorem events_pure (a : α) : (pure a : Traced ε α).events = [] := rfl

@[simp] theorem result_ofExcept (x : Except ε α) : (ofExcept x).result = x := rfl

@[simp] theorem events_ofExcept (x : Except ε α) : (ofExcept x).events = [] := rfl

@[simp] theorem result_log (es : List Event) : (log es : Traced ε Unit).result = .ok () := rfl

@[simp] theorem events_log (es : List Event) : (log es : Traced ε Unit).events = es := rfl

@[simp] theorem result_mapError (f : ε → ε') (x : Traced ε α) :
    (x.mapError f).result = x.result.mapError f := rfl

@[simp] theorem result_bind (x : Traced ε α) (f : α → Traced ε β) :
    (x >>= f).result = x.result >>= fun a => (f a).result := by
  show (x.bind f).result = _
  unfold Traced.bind
  cases x.result <;> rfl

theorem events_bind_ok {x : Traced ε α} {f : α → Traced ε β} {a : α} (h : x.result = .ok a) :
    (x >>= f).events = x.events ++ (f a).events := by
  show (x.bind f).events = _
  unfold Traced.bind
  rw [h]

theorem events_bind_error {x : Traced ε α} {f : α → Traced ε β} {e : ε}
    (h : x.result = .error e) : (x >>= f).events = x.events := by
  show (x.bind f).events = _
  unfold Traced.bind
  rw [h]

end Traced

end Courier
