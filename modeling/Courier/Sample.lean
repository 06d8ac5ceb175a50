import Courier.Emit.Pair
import Courier.Emit.Run

/-! Sample models, whose conversions are run on values. -/
namespace Courier
open Code Emit

/-- The type of a field of a sample. -/
inductive SampleType where
  | text
  | number (spelling : String)
  | struct (name : String)
  | list (element : SampleType)
  | optional (content : SampleType)
  | boxed (content : SampleType)
  /-- Texts by keys. -/
  | table
  deriving DecidableEq, Repr

namespace SampleType

/-- The type as it is written. -/
def spelling : SampleType → String
  | .text => "String"
  | .number s => s
  | .struct name => name
  | .list t => "Vec<" ++ t.spelling ++ ">"
  | .optional t => "Option<" ++ t.spelling ++ ">"
  | .boxed t => "Box<" ++ t.spelling ++ ">"
  | .table => "BTreeMap<String, String>"

/-- The same type over the transfer types of its structs. -/
def transfer : SampleType → SampleType
  | .struct name => .struct (transferName name)
  | .list t => .list t.transfer
  | .optional t => .optional t.transfer
  | .boxed t => .boxed t.transfer
  | t => t

end SampleType

/-- A model with the types of its fields. -/
structure Sample where
  name : String
  fields : List (String × SampleType)
  nested : List String
  deriving Repr

namespace Sample

/-- The descriptor of a sample. -/
def extracted (s : Sample) : Extracted :=
  ⟨s.name, s.fields.map fun f => ⟨f.1, f.2.spelling⟩, NestedNames.ofList s.nested⟩

/-- The fields of the transfer type: those that are converted have transfer types. -/
def transferFields (s : Sample) : List (String × SampleType) :=
  let nested := NestedNames.ofList s.nested
  s.fields.map fun f =>
    if (classify ⟨f.1, f.2.spelling⟩ nested).isConvertible then (f.1, f.2.transfer) else f

/-- The code for samples. -/
def code (samples : List Sample) : List Item :=
  samples.flatMap fun s =>
    match pairOf s.extracted Options.default with
    | .ok p => p.items
    | .error _ => []

/-- The functions that convert, by their names. -/
def converter (trait : Trait) (name : String) : FunctionName :=
  .ofTrait ⟨defaultRuntime, trait⟩ name

/-- The transfer value of a model. -/
def toTransfer (items : List Item) (v : Value) : Option Value :=
  run items (converter .convertible "to_dto") [v]

/-- The model of a transfer value. -/
def toModel (items : List Item) (v : Value) : Option Value :=
  run items (converter .dto "to_model") [v]

/-- The transfer value of a model by the function of its type itself. -/
def buildTransfer (items : List Item) (s : Sample) (v : Value) : Option Value :=
  run items (.qualified (transferName s.name) ⟨defaultRuntime, .dto⟩ "from_model") [v]

/-- The model of a transfer value by its own constructor. -/
def buildModel (items : List Item) (s : Sample) (v : Value) : Option Value :=
  run items (.inherent s.name "from_dto") [v]

/-- A transfer value from the values of its fields. -/
def newTransfer (items : List Item) (s : Sample) (fields : List Value) : Option Value :=
  run items (.inherent (transferName s.name) "new") fields

/-- The transfer value of a model, and whether all ways to it agree and lead back. -/
def convert (items : List Item) (s : Sample) (v : Value) : Option (Value × Bool) := do
  let dto ← toTransfer items v
  let agrees := buildTransfer items s v == some dto
  let back := toModel items dto == some v && buildModel items s dto == some v
  return (dto, agrees && back)

/-- The model of a transfer value, and whether all ways to it agree and lead back. -/
def restore (items : List Item) (s : Sample) (v : Value) : Option (Value × Bool) := do
  let model ← toModel items v
  let agrees := buildModel items s v == some model
  let back := toTransfer items model == some v && buildTransfer items s model == some v
  return (model, agrees && back)

def tag : Sample := ⟨"Tag", [("label", .text), ("weight", .number "u16")], []⟩

def article : Sample :=
  { name := "Article"
    fields := [("title", .text), ("views", .number "u64"), ("primary", .struct "Tag"),
      ("secondary", .optional (.struct "Tag")), ("tags", .list (.struct "Tag")),
      ("archived_tags", .optional (.list (.struct "Tag")))]
    nested := ["Tag"] }

/-- A model with fields that are not converted, because their types are nested deeper. -/
def library : Sample :=
  { name := "Library"
    fields := [("name", .text), ("featured", .optional (.struct "Article")),
      ("articles", .list (.struct "Article")), ("grid", .list (.list (.struct "Tag"))),
      ("maybe", .list (.optional (.struct "Tag")))]
    nested := ["Tag", "Article"] }

/-- A model of itself. -/
def node : Sample :=
  { name := "Node"
    fields := [("value", .number "i64"), ("children", .list (.struct "Node")),
      ("parent", .optional (.boxed (.struct "Node")))]
    nested := ["Node"] }

/-- A model that lists no nested names. -/
def unlisted : Sample := ⟨"Unlisted", [("tags", .list (.struct "Tag"))], []⟩

def marker : Sample := ⟨"Marker", [], []⟩

def stockItem : Sample :=
  ⟨"StockItem", [("sku", .text), ("quantity", .number "u32"), ("attributes", .table)], []⟩

def warehouse : Sample :=
  { name := "Warehouse"
    fields := [("code", .text), ("featured", .struct "StockItem"),
      ("items", .list (.struct "StockItem")), ("backorder", .optional (.struct "StockItem")),
      ("archived", .optional (.list (.struct "StockItem")))]
    nested := ["StockItem"] }

def all : List Sample :=
  [tag, article, library, node, unlisted, marker, stockItem, warehouse]

/-- The code for all samples. -/
def allCode : List Item := code all

/-- The fields of a struct among samples and their transfer types. -/
def fieldsOf (samples : List Sample) (name : String) : Option (List (String × SampleType)) :=
  match samples.find? (·.name == name) with
  | some s => some s.fields
  | none => (samples.find? fun s => transferName s.name == name).map transferFields

end Sample

end Courier
