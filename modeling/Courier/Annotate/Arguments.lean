import Courier.Emit.Conversion
import Courier.Model.Argument

/-! The arguments of an annotation on an item. -/
namespace Courier.Annotate
open Code Emit

/-- Why an annotated item has no transfer type. -/
inductive AnnotationError where
  /-- The text is no stream of tokens. -/
  | noTokens
  /-- The tokens do not parse. -/
  | malformed (fault : Fault)
  /-- The runtime is given by something else than a path. -/
  | noPath
  /-- The item has generic parameters. -/
  | generic
  | extract (error : ExtractError)
  | generate (error : GenerateError)
  deriving Repr

def AnnotationError.message : AnnotationError → String
  | .noTokens => "no tokens"
  | .malformed fault => fault.message
  | .noPath => "crate expects a path"
  | .generic => "generate_dto does not support generic types"
  | .extract error => error.message
  | .generate error => error.message

/-- The arguments of an annotation, and the path of the runtime, if one is given. -/
structure Arguments where
  arguments : List Argument
  runtime : Option Code.Tree
  deriving Repr

/-- The path of an expression. For a path into a type it is that of the trait and what follows. -/
def pathOf : Code.Tree → Option Code.Tree
  | .node .path ps => some (.node .path ps)
  | .node .qualified (_ :: _ :: mark :: ps) =>
    match mark == Code.Tree.word "as", ps with
    | true, trait :: _ :: others => some (.node .path (trait.parts ++ others))
    | _, ps => some (.node .path ps)
  | _ => none

/-- The path in a string literal, which may not have a suffix. -/
def pathIn (value suffix : List Char) : Except AnnotationError Code.Tree :=
  match suffix, lexChars value with
  | [], some ts => (parsePath ts).mapError .malformed
  | _, _ => .error (.malformed .unexpected)

/-- The runtime that a value gives: a path, or the text of one. -/
def runtimeOf (value : Code.Tree) : Except AnnotationError Code.Tree :=
  match withoutAttributes value with
  | .node .pathExpr [p] =>
    match pathOf p with
    | some path => .ok path
    | none => .error .noPath
  | .node .literalExpr [.token (.literal s)] =>
    match stringParts? s with
    | some (value, suffix) => pathIn value suffix
    | none => .error .noPath
  | _ => .error .noPath

/-- Is the path the single word for the runtime? -/
def isRuntimeKey (path : Code.Tree) : Bool :=
  path == .node .path [.node .segment [Code.Tree.word "crate"]]

def addArgument (as : Arguments) : Code.Tree → Except AnnotationError Arguments
  | .node .metaValue [path, _, value] =>
    if isRuntimeKey path then do return { as with runtime := some (← runtimeOf value) }
    else
      .ok { as with arguments := as.arguments ++ [⟨some path.text, ArgumentValue.ofExpr value⟩] }
  | t => .ok { as with arguments := as.arguments ++ [⟨none, .code t.text⟩] }

/-- The arguments that tokens spell. The last path of the runtime counts. -/
def readArguments (ts : Tokens) : Except AnnotationError Arguments := do
  let contents ← (parseMetas ts).mapError .malformed
  (Code.Tree.elements contents).foldlM addArgument ⟨[], none⟩

end Courier.Annotate
