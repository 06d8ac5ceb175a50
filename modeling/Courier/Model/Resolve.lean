import Courier.Model.Descriptor
import Courier.Model.Error

/-! Rules for the models of a schema together. -/
namespace Courier

/-- The first of some names that occurs among those before it. -/
def firstRepeated (seen : List String) : List String → Option String
  | [] => none
  | n :: ns => if seen.contains n then some n else firstRepeated (n :: seen) ns

/-- No two models of a schema share a name. -/
def Schema.validate (s : Schema) : Except SchemaError Unit :=
  match firstRepeated [] s.names with
  | some name => .error (.duplicateModel name)
  | none => .ok ()

/-- A nested name for which there is no model. -/
structure Unresolved where
  model : String
  nested : String
  deriving DecidableEq, Repr

/-- The nested names without a model, by model and in the order in which they were listed. -/
def unresolved (models : List Extracted) : List Unresolved :=
  let known := models.map (·.name)
  models.flatMap fun m =>
    (m.nested.toList.filter fun n => !known.contains n).map fun n => ⟨m.name, n⟩

end Courier
