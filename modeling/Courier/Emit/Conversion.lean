import Courier.Code.Grammar
import Courier.Emit.Item
import Courier.Model.Classify
import Courier.Model.Error

/-! The conversions between a model and its transfer type, field by field. -/
namespace Courier.Emit
open Code

/-- Which of the two is made from the other. -/
inductive Direction where
  | toTransfer
  | toModel
  deriving DecidableEq, Repr

namespace Direction

/-- The variable that holds the value to convert. -/
def source : Direction → String
  | .toTransfer => "model"
  | .toModel => "dto"

/-- The function that converts a nested value. -/
def convert (runtime : Code.Tree) : Direction → FunctionName
  | .toTransfer => .ofTrait ⟨runtime, .convertible⟩ "to_dto"
  | .toModel => .ofTrait ⟨runtime, .dto⟩ "to_model"

end Direction

/-- The identifier in a text, or nothing if there is more or less in it. -/
def identifier? (text : String) : Option String := do
  let tokens ← lex text
  match parseIdent tokens with
  | .ok (.token (.ident name)) => some name
  | _ => none

/-- The identifier that a name spells. -/
def identifier (name : String) : Except GenerateError String :=
  match identifier? name with
  | some x => .ok x
  | none => .error (.invalidIdentifier name)

def fieldType (field text : String) : Except GenerateError Code.Tree :=
  match (lex text).bind fun ts => (parseType ts).toOption with
  | some t => .ok t
  | none => .error (.invalidType text field)

/-- The path of the runtime that provides the traits. -/
def runtimePath (text : String) : Except GenerateError Code.Tree :=
  match (lex text).bind fun ts => (parsePath ts).toOption with
  | some t => .ok t
  | none => .error (.invalidRuntimePath text)

/-- The identifier and transfer type of a field. -/
def transferField (c : Classified) : Except GenerateError (String × Code.Tree) := do
  return (← identifier c.field.name, ← fieldType c.field.name c.transferText)

/-- The value of a field on the other side, by the form of the field. -/
def converted (shape : FieldShape) (convert : FunctionName) (e : Expr) : Expr :=
  match shape with
  | .scalar => .method e "clone"
  | .direct => .call convert (.borrow e)
  | .optional => .map (.method e "as_ref") convert
  | .array => .method (.map (.method e "iter") convert) "collect"
  | .optionalArray => .mapEach (.method e "as_ref") "elements"
      (.method (.map (.method (.variable "elements") "iter") convert) "collect")

/-- The initializer of a field of a known name. -/
def initializerOf (d : Direction) (runtime : Code.Tree) (shape : FieldShape) (name : String) :
    Initializer :=
  ⟨name, some (converted shape (d.convert runtime) (.field (.variable d.source) name))⟩

def initializer (d : Direction) (runtime : Code.Tree) (c : Classified) :
    Except GenerateError Initializer := do
  return initializerOf d runtime c.shape (← identifier c.field.name)

end Courier.Emit
