import Courier.Model.Error
import Courier.Model.Trace
import Courier.Xml.Event

/-!
Schema documents. The reader passes over the events of a document once; its state is the schema read
so far and the place it is in.
-/
namespace Courier

/-- Where in a schema document the reader is. -/
inductive Place where
  /-- Outside of any model. -/
  | outside
  | model (m : Model)
  /-- In content of a model that does not count, some elements deep. -/
  | skipped (m : Model) (depth : Nat)
  | directive (m : Model)
  /-- In content of a directive that does not count, some elements deep. -/
  | skippedArgument (m : Model) (depth : Nat)
  | argument (m : Model) (label : Option String) (text : List Char)

/-- The schema read so far, if its element was found, and the place of the reader. -/
structure Reading where
  schema : Option Schema
  place : Place

namespace Reading

/-- The attributes of a tag with their values, up to the first that satisfies a condition. -/
def valuesUntil (stop : String → Bool) :
    List Xml.Attribute → Except ParseError (List (String × String))
  | [] => .ok []
  | a :: as => do
    let value := String.ofList (← (Xml.unescape a.raw).mapError .xml)
    if stop a.key then return [(a.key, value)]
    else return (a.key, value) :: (← valuesUntil stop as)

/-- The attributes of a tag with their values. -/
def values (tag : Xml.Tag) : Except ParseError (List (String × String)) :=
  valuesUntil (fun _ => false) tag.attributes

/-- The value of the last attribute with a name. -/
def lastValue (key : String) (vs : List (String × String)) : Option String :=
  (vs.reverse.find? (·.1 == key)).map Prod.snd

/-- The schema that a tag opens. -/
def openSchema (tag : Xml.Tag) : Except ParseError Schema := do
  return ⟨(lastValue "package" (← values tag)).getD "", []⟩

/-- The name and kind that attributes give to a model, each in turn. -/
def modelAttributes (name : Option String) (kind : DeclarationKind) :
    List Xml.Attribute → Except ParseError (Option String × DeclarationKind)
  | [] => .ok (name, kind)
  | a :: as => do
    let value := String.ofList (← (Xml.unescape a.raw).mapError .xml)
    if a.key = "name" then modelAttributes (some value) kind as
    else if a.key = "kind" then
      match DeclarationKind.parse value with
      | some k => modelAttributes name k as
      | none => throw (.invalidAttribute "model" "kind" value)
    else modelAttributes name kind as

/-- The model that a tag opens. Its kind is a class unless the tag says otherwise. -/
def openModel (tag : Xml.Tag) : Except ParseError Model := do
  let (name, kind) ← modelAttributes none .classType tag.attributes
  match name with
  | some name => return ⟨⟨kind, name, []⟩, []⟩
  | none => throw (.missingAttribute "model" "name")

/-- The member that a tag in a model stands for. A blank type is no type. -/
def member (tag : Xml.Tag) : Except ParseError (Option Member) := do
  let vs ← values tag
  let type := (lastValue "type" vs).filter fun t => !(Text.trim t.toList).isEmpty
  let make : Option (String → Member) := match tag.name with
    | "property" => some (.stored · type)
    | "computed" => some .computed
    | "method" => some .method
    | "nested" => some .nested
    | _ => none
  match make, lastValue "name" vs with
  | none, _ => return none
  | some make, some name => return some (make name)
  | some _, none => throw (.missingAttribute tag.name "name")

/-- The label of an argument. Attributes behind it do not count. -/
def label (tag : Xml.Tag) : Except ParseError (Option String) := do
  return lastValue "label" (← valuesUntil (· == "label") tag.attributes)

/-- What a reference in the text of an argument stands for. -/
def resolve (name : List Char) : Except ParseError Char :=
  match name with
  | '#' :: digits => (Xml.character digits).mapError fun f => .xml (.character f)
  | _ =>
    match Xml.predefined name with
    | some c => .ok c
    | none => .error (.malformed ("unknown entity '&" ++ String.ofList name ++ ";'"))

/-- A model with another member, if there is one. -/
def addMember (m : Model) : Option Member → Model
  | some x => { m with declaration.members := m.declaration.members ++ [x] }
  | none => m

def addArgument (m : Model) (label : Option String) (text : List Char) : Model :=
  { m with arguments := m.arguments ++ [⟨label, .parse (String.ofList text)⟩] }

/-- The reading behind a model that ends. -/
def closeModel (r : Reading) (m : Model) : Reading :=
  ⟨r.schema.map fun s => { s with models := s.models ++ [m] }, .outside⟩

/-- One event. An element that opens inside an argument does not count, but whatever closes next
ends the argument. -/
def step (r : Reading) : Xml.Event → Except ParseError Reading
  | .start tag =>
    match r.place with
    | .outside =>
      match tag.name, r.schema with
      | "dtoSchema", none => return ⟨some (← openSchema tag), .outside⟩
      | "model", some _ => return { r with place := .model (← openModel tag) }
      | _, _ => return r
    | .model m =>
      if tag.name = "directive" then return { r with place := .directive m }
      else return { r with place := .skipped (addMember m (← member tag)) 0 }
    | .skipped m depth => return { r with place := .skipped m (depth + 1) }
    | .directive m =>
      if tag.name = "argument" then return { r with place := .argument m (← label tag) [] }
      else return { r with place := .skippedArgument m 0 }
    | .skippedArgument m depth => return { r with place := .skippedArgument m (depth + 1) }
    | .argument .. => return r
  | .empty tag =>
    match r.place with
    | .outside =>
      match tag.name, r.schema with
      | "dtoSchema", none => return ⟨some (← openSchema tag), .outside⟩
      | "model", some _ => return r.closeModel (← openModel tag)
      | _, _ => return r
    | .model m => return { r with place := .model (addMember m (← member tag)) }
    | .directive m =>
      if tag.name = "argument" then
        return { r with place := .directive (addArgument m (← label tag) []) }
      else return r
    | _ => return r
  | .close =>
    match r.place with
    | .outside => return r
    | .model m => return r.closeModel m
    | .skipped m 0 => return { r with place := .model m }
    | .skipped m (depth + 1) => return { r with place := .skipped m depth }
    | .directive m => return { r with place := .model m }
    | .skippedArgument m 0 => return { r with place := .directive m }
    | .skippedArgument m (depth + 1) => return { r with place := .skippedArgument m depth }
    | .argument m label text => return { r with place := .directive (addArgument m label text) }
  | .text content | .cdata content =>
    match r.place with
    | .argument m label text => return { r with place := .argument m label (text ++ content) }
    | _ => return r
  | .reference name =>
    match r.place with
    | .argument m label text => return { r with place := .argument m label (text ++ [← resolve name]) }
    | _ => return r
  | .aside => return r

/-- The schema, once all events were read. -/
def finish (r : Reading) : Except ParseError Schema :=
  match r.place with
  | .model m | .skipped m _ =>
    .error (.malformed ("unterminated model '" ++ m.declaration.name ++ "'"))
  | .directive _ | .skippedArgument _ _ => .error (.malformed "unterminated directive")
  | .argument .. => .error (.malformed "unterminated argument")
  | .outside =>
    match r.schema with
    | some s => .ok s
    | none => .error (.malformed "No dtoSchema element found")

end Reading

/-- The schema that a document describes. -/
def readDocument (d : Xml.Document) : Except ParseError Schema := do
  let r ← d.events.foldlM Reading.step ⟨none, .outside⟩
  match d.fault with
  | some f => throw (.xml f)
  | none => r.finish

/-- The schema in a text. -/
def readSchema (text : String) : Traced ParseError Schema := do
  let s ← .ofExcept (readDocument (Xml.Document.ofText text))
  .log [.parsedSchema s.package s.models.length]
  return s

end Courier
