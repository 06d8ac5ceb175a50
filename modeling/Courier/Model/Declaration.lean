import Courier.Model.Argument

/-! Declarations of models, as they are handed over before anything is checked. -/
namespace Courier

/-- What is declared. -/
inductive DeclarationKind where
  | classType
  | struct
  | tupleStruct
  | enum
  | protocol
  | function
  | union
  /-- Any other item. -/
  | item
  deriving DecidableEq, Repr

namespace DeclarationKind

/-- The kind with a tag. The case of ASCII letters does not count. -/
def parse (tag : String) : Option DeclarationKind :=
  match String.ofList (tag.toList.map Char.toLower) with
  | "class" => some .classType
  | "struct" => some .struct
  | "tuple-struct" | "tuplestruct" | "tuple_struct" => some .tupleStruct
  | "enum" => some .enum
  | "protocol" | "trait" => some .protocol
  | "function" | "fn" => some .function
  | "union" => some .union
  | _ => none

/-- Is it a type with named stored members? -/
def isClassLike : DeclarationKind → Bool
  | .classType | .struct => true
  | _ => false

/-- The tag of a kind in messages and schemas. -/
def tag : DeclarationKind → String
  | .classType => "class"
  | .struct => "struct"
  | .tupleStruct => "tuple-struct"
  | .enum => "enum"
  | .protocol => "protocol"
  | .function => "function"
  | .union => "union"
  | .item => "item"

theorem parse_tag {k : DeclarationKind} (h : k ≠ .item) : parse k.tag = some k := by
  cases k <;> first | contradiction | decide

end DeclarationKind

inductive Member where
  /-- A stored property, perhaps with the text of its type. -/
  | stored (name : String) (type : Option String)
  | computed (name : String)
  | method (name : String)
  | nested (name : String)
  deriving DecidableEq, Repr

def Member.name : Member → String
  | .stored name _ | .computed name | .method name | .nested name => name

/-- A declaration with its members in order. -/
structure Declaration where
  kind : DeclarationKind
  name : String
  members : List Member
  deriving DecidableEq, Repr

/-- A declaration with the arguments of its directives. -/
structure Model where
  declaration : Declaration
  arguments : List Argument
  deriving DecidableEq, Repr

/-- The models of a package in order. -/
structure Schema where
  package : String
  models : List Model
  deriving DecidableEq, Repr

namespace Schema

def names (s : Schema) : List String := s.models.map (·.declaration.name)

def model? (s : Schema) (name : String) : Option Model :=
  s.models.find? (·.declaration.name == name)

def hasModel (s : Schema) (name : String) : Bool := (s.model? name).isSome

end Schema

end Courier
