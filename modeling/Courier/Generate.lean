import Courier.Code.Format
import Courier.Emit.Pair
import Courier.Model.Document
import Courier.Model.Extract
import Courier.Model.Resolve

/-! The code for all models of a schema. -/
namespace Courier
open Code Emit

/-- What may vary when the code of a schema is generated. -/
structure Config where
  /-- The path of the runtime that provides the traits. -/
  runtime : String
  /-- Is a nested name without a model refused? -/
  strict : Bool
  deriving DecidableEq, Repr

namespace Config

def default : Config := ⟨"::dtogen", false⟩

end Config

/-- The nested names without a model are refused or logged. -/
def checkNested (strict : Bool) (models : List Extracted) : Traced GenerateError Unit :=
  match strict, unresolved models with
  | true, u :: _ => .ofExcept (.error (.schema (.unresolvedNested u.model u.nested)))
  | true, [] => pure ()
  | false, us => .log (us.map fun u => .unresolvedNested u.model u.nested)

namespace Schema

/-- The descriptors of all models in order. -/
def extractModels (s : Schema) (strict : Bool) : Traced GenerateError (List Extracted) := do
  .ofExcept (s.validate.mapError .schema)
  let models ←
    (Traced.forEach (fun m => extract m.declaration m.arguments) s.models).mapError .extract
  checkNested strict models
  return models

/-- The code for all models in order, as pairs. -/
def generatePairs (s : Schema) (c : Config) : Traced GenerateError (List Pair) := do
  let options ← .ofExcept (Options.ofRuntime c.runtime)
  let models ← s.extractModels c.strict
  Traced.forEach (fun m => expand m options) models

/-- The code for all models as tokens. -/
def generateTokens (s : Schema) (c : Config) : Traced GenerateError Tokens := do
  return (← s.generatePairs c).flatMap Pair.tokens

/-- The comment at the beginning of a generated file. -/
def header (s : Schema) : String :=
  "// @generated by dtogen. Do not edit.\n" ++
    (if s.package.isEmpty then "" else "// Package: " ++ s.package ++ "\n") ++ "\n"

/-- The items that tokens spell. -/
def parseEmitted (ts : Tokens) : Except GenerateError (List Code.Tree) :=
  (parseFile ts).mapError fun fault =>
    .generation ("emitted code does not parse: " ++ fault.message)

/-- The code for all models as a formatted file. -/
def generate (s : Schema) (c : Config) : Traced GenerateError String := do
  let tokens ← s.generateTokens c
  let items ← .ofExcept (parseEmitted tokens)
  let text := s.header ++ formatFile items
  .log [.generated s.package s.models.length text.utf8ByteSize]
  return text

end Schema

/-- The code for a schema document. -/
def generateFrom (document : String) (c : Config) : Traced GenerateError String := do
  let s ← (readSchema document).mapError .parse
  s.generate c

end Courier
