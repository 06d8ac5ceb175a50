import Courier.Model.Descriptor
import Courier.Model.Trace
import Courier.Model.TypeShape

/-! Classification: which fields hold nested models, and in which form. -/
namespace Courier

/-- The form of a field. All but the first hold values of a nested model. -/
inductive FieldShape where
  | scalar
  | direct
  | optional
  | array
  | optionalArray
  deriving DecidableEq, Repr

namespace FieldShape

/-- Do values of this form go through a conversion? -/
def isConvertible : FieldShape → Bool
  | .scalar => false
  | _ => true

/-- The name of a form in the log. -/
def name : FieldShape → String
  | .scalar => "Scalar"
  | .direct => "Direct"
  | .optional => "Optional"
  | .array => "Array"
  | .optionalArray => "OptionalArray"

/-- The form of a shape over a nested name. -/
def ofShape (nested : String) : TypeShape → Option FieldShape
  | .array (.bare n) => if n = nested then some .array else none
  | .optional (.array (.bare n)) => if n = nested then some .optionalArray else none
  | .optional (.bare n) => if n = nested then some .optional else none
  | .bare n => if n = nested then some .direct else none
  | _ => none

end FieldShape

/-- A field with its form and the text of its transfer type. -/
structure Classified where
  field : Field
  shape : FieldShape
  transferType : String
  deriving DecidableEq, Repr

namespace Classified

def isConvertible (c : Classified) : Bool := c.shape.isConvertible

/-- The transfer type in the generic spelling. -/
def transferText (c : Classified) : String := (TypeShape.parse c.transferType).render .generic

/-- A converted field is logged. -/
def events (c : Classified) : List Event :=
  if c.isConvertible then [.classified c.field.name c.field.type c.transferType c.shape.name]
  else []

end Classified

/-- The first nested name that a shape is a form of. -/
def matchNested (shape : TypeShape) : List String → Option (String × FieldShape)
  | [] => none
  | n :: ns =>
    match FieldShape.ofShape n shape with
    | some s => some (n, s)
    | none => matchNested shape ns

/-- The form of a field. The transfer type of a converted field is spelled as its type is. -/
def classify (f : Field) (nested : NestedNames) : Classified :=
  let shape := TypeShape.parse f.type
  match matchNested shape nested.toList with
  | some (name, form) =>
    ⟨f, form, (shape.withBaseName (transferName name)).render (Spelling.detect f.type)⟩
  | none => ⟨f, .scalar, f.type⟩

/-- The forms of all fields in order. -/
def Extracted.classified (x : Extracted) : List Classified := x.fields.map (classify · x.nested)

end Courier
