import Courier.Emit.Conversion
import Courier.Model.Trace

/-! The code for one model: its transfer type, and what is added to the model itself. -/
namespace Courier.Emit
open Code

/-- What may vary in the code for a model. -/
structure Options where
  runtime : Code.Tree
  visibility : Code.Tree
  deriving DecidableEq, Repr

/-- The path of the runtime unless another one is given. -/
def defaultRuntime : Code.Tree := .node .path [.sign "::", .node .segment [Code.Tree.word "dtogen"]]

/-- The visibility that admits everyone. -/
def publicVisibility : Code.Tree := .node .visibility [Code.Tree.word "pub"]

/-- The visibility that a text spells. -/
def visibility? (text : String) : Option Code.Tree := do
  let tokens ← lex text
  (parseVisibility tokens).toOption

namespace Options

def default : Options := ⟨defaultRuntime, publicVisibility⟩

/-- Public code for a runtime. -/
def ofRuntime (text : String) : Except GenerateError Options := do
  return ⟨← runtimePath text, publicVisibility⟩

end Options

/-- The code for one model. -/
structure Pair where
  /-- The transfer type. -/
  transfer : Item
  /-- Its constructor from all fields. -/
  new : Item
  /-- Its link to the model. -/
  link : Item
  /-- The model's constructor from a transfer value. -/
  constructor : Item
  /-- The model's link to the transfer type. -/
  conformance : Item
  deriving DecidableEq, Repr

namespace Pair

/-- The items on the side of the transfer type. -/
def transferItems (p : Pair) : List Item := [p.transfer, p.new, p.link]

/-- The items on the side of the model. -/
def modelItems (p : Pair) : List Item := [p.constructor, p.conformance]

def items (p : Pair) : List Item := p.transferItems ++ p.modelItems

def tokens (p : Pair) : Tokens := itemTokens p.items

end Pair

/-- The names in the code for a model: identifiers of both types, and of the fields with the form
of each. -/
structure Names where
  model : String
  transfer : String
  fields : List (String × FieldShape)
  deriving DecidableEq, Repr

namespace Names

def conversionNote : Note := .allow [["unused_variables"], ["clippy", "clone_on_copy"]]

/-- The initializers in a direction. -/
def initializers (n : Names) (d : Direction) (runtime : Code.Tree) : List Initializer :=
  n.fields.map fun f => initializerOf d runtime f.2 f.1

/-- The link of the transfer type to the model. -/
def link (n : Names) (runtime : Code.Tree) : Item :=
  .impl (some ⟨runtime, .dto⟩) n.transfer (some ("Model", n.model))
    [{ notes := [conversionNote]
       isPublic := false
       name := "from_model"
       inputs := [.variable "model" (.borrowed n.model)]
       result := .self
       body := .build (n.initializers .toTransfer runtime) },
     { notes := []
       isPublic := false
       name := "to_model"
       inputs := [.self]
       result := .named n.model
       body := .expr (.call (.inherent n.model "from_dto") (.variable "self")) }]

/-- The constructor of the model. -/
def constructor (n : Names) (runtime : Code.Tree) : Item :=
  .impl none n.model none
    [{ notes := [.doc "r\" Rebuilds a model value from its transfer representation.\"",
        conversionNote, .mustUse]
       isPublic := true
       name := "from_dto"
       inputs := [.variable "dto" (.borrowed n.transfer)]
       result := .self
       body := .build (n.initializers .toModel runtime) }]

/-- The link of the model to the transfer type. -/
def conformance (n : Names) (runtime : Code.Tree) : Item :=
  .impl (some ⟨runtime, .convertible⟩) n.model (some ("Dto", n.transfer))
    [{ notes := []
       isPublic := false
       name := "to_dto"
       inputs := [.self]
       result := .named n.transfer
       body := .expr (.call (.qualified n.transfer ⟨runtime, .dto⟩ "from_model")
         (.variable "self")) },
     { notes := []
       isPublic := false
       name := "from_dto"
       inputs := [.variable "dto" (.borrowed n.transfer)]
       result := .self
       body := .expr (.call (.inherent n.model "from_dto") (.variable "dto")) }]

end Names

/-- The names of a model as identifiers. The first that is none is refused. -/
def names (x : Extracted) : Except GenerateError Names := do
  let model ← identifier x.name
  let transfer ← identifier x.transferName
  let fields ← x.classified.mapM fun c => do return (← identifier c.field.name, c.shape)
  return ⟨model, transfer, fields⟩

/-- What is added to a model itself. -/
def modelItemsOf (x : Extracted) (runtime : Code.Tree) : Except GenerateError (List Item) := do
  let n ← names x
  return [n.constructor runtime, n.conformance runtime]

/-- The names in the code for a model, with the types of the fields of the transfer type. -/
structure Parts where
  title : String
  model : String
  transfer : String
  fields : List (String × Code.Tree × FieldShape)
  deriving DecidableEq, Repr

namespace Parts

def names (p : Parts) : Names := ⟨p.model, p.transfer, p.fields.map fun f => (f.1, f.2.2)⟩

def struct (p : Parts) (visibility : Code.Tree) : Item :=
  .struct
    [.doc (String.ofList
        (Text.quoteLiteral ("Transfer representation of [`" ++ p.title ++ "`].").toList)),
      .derive ["Debug", "Clone", "PartialEq"]]
    visibility p.transfer (p.fields.map fun f => (f.1, f.2.1))

/-- The constructor of the transfer type. -/
def new (p : Parts) : Item :=
  .impl none p.transfer none
    [{ notes := [.doc "r\" Creates a transfer value from all of its fields.\"",
        .allow [["clippy", "too_many_arguments"], ["clippy", "new_without_default"]], .mustUse]
       isPublic := true
       name := "new"
       inputs := p.fields.map fun f => .variable f.1 (.written f.2.1)
       result := .self
       body := .build (p.fields.map fun f => ⟨f.1, none⟩) }]

/-- The code made of the parts. -/
def pair (p : Parts) (o : Options) : Pair :=
  ⟨p.struct o.visibility, p.new, p.names.link o.runtime, p.names.constructor o.runtime,
    p.names.conformance o.runtime⟩

end Parts

/-- The parts for a model. The first name or type that does not parse is refused. -/
def parts (x : Extracted) : Except GenerateError Parts := do
  let model ← identifier x.name
  let transfer ← identifier x.transferName
  let fields ← x.classified.mapM fun c => do
    let (name, type) ← transferField c
    return (name, type, c.shape)
  return ⟨x.name, model, transfer, fields⟩

/-- The code for a model. -/
def pairOf (x : Extracted) (o : Options) : Except GenerateError Pair := do
  return (← parts x).pair o

/-- The events of classifying the fields of a model. -/
def classificationEvents (x : Extracted) : List Event := x.classified.flatMap Classified.events

/-- The code for a model, with what is logged while it is made. -/
def expand (x : Extracted) (o : Options) : Traced GenerateError Pair := do
  .log (classificationEvents x)
  let p ← .ofExcept (pairOf x o)
  .log [.emitted x.name x.transferName]
  return p

end Courier.Emit
