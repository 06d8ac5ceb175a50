import Courier.Model.Descriptor
import Courier.Model.Error
import Courier.Model.Trace

/-! Extraction: the fields and nested names of a declaration, or the reason why it has none. -/
namespace Courier

/-- The labels of the argument that lists nested names. -/
def nestedLabels : List String := ["nestedDTOs", "nested_dtos"]

/-- Does the argument list nested names? -/
def Argument.isNestedList (a : Argument) : Bool := a.label.any (nestedLabels.contains ·)

/-- The strings of an array, in order; the first element that is none is refused. -/
def stringElements (name : String) : List ArgumentValue → Except ExtractError (List String)
  | [] => .ok []
  | .text value :: es => do return value :: (← stringElements name es)
  | e :: _ => .error (.invalidNestedList name e.display)

/-- The names that an argument lists. -/
def listedNames (name : String) (a : Argument) : Except ExtractError (List String) :=
  match a.value with
  | .list elements => stringElements name elements
  | value => .error (.invalidNestedList name value.display)

/-- The names that all lists together give, in order. -/
def allListedNames (name : String) : List Argument → Except ExtractError (List String)
  | [] => .ok []
  | a :: as => do
    if a.isNestedList then
      let first ← listedNames name a
      return first ++ (← allListedNames name as)
    else allListedNames name as

/-- The nested names of a declaration. -/
def nestedNames (name : String) (arguments : List Argument) : Except ExtractError NestedNames := do
  return NestedNames.ofList (← allListedNames name arguments)

/-- The fields among some members: the stored ones with a type. A name that occurs again is refused;
members that are no fields are skipped. -/
def fieldsFrom (model : String) (seen : List String) : List Member → Traced ExtractError (List Field)
  | [] => pure []
  | .stored name (some type) :: ms =>
    if seen.contains name then .ofExcept (.error (.duplicateField model name))
    else do return ⟨name, type⟩ :: (← fieldsFrom model (name :: seen) ms)
  | m :: ms => do
    .log [.skippedMember model m.name]
    fieldsFrom model seen ms

/-- The descriptor of a declaration. -/
def extract (d : Declaration) (arguments : List Argument) : Traced ExtractError Extracted := do
  if !d.kind.isClassLike then
    .ofExcept (.error (.unsupportedKind d.name d.kind.tag))
  else
    let nested ← .ofExcept (nestedNames d.name arguments)
    let fields ← fieldsFrom d.name [] d.members
    .log [.extracted d.name fields.length nested.size]
    return ⟨d.name, fields, nested⟩

end Courier
