import Courier.Annotate.Arguments
import Courier.Annotate.Subject
import Courier.Emit.Pair
import Courier.Model.Extract

/-! The expansion of an annotated item: the item itself, and the code for it. -/
namespace Courier.Annotate
open Code Emit

/-! ## Fragments -/

/-- Token streams that stand for identifiers. -/
abbrev Fragments := List (String × Tokens)

mutual
/-- A token with fragments in place of identifiers, each in a hidden group. -/
def substituteToken (fragments : Fragments) : Token → Token
  | .ident name =>
    match fragments.lookup name with
    | some ts => .group .hidden ts
    | none => .ident name
  | .group d ts => .group d (substitute fragments ts)
  | t => t

/-- Tokens with fragments in place of identifiers. -/
def substitute (fragments : Fragments) : Tokens → Tokens
  | [] => []
  | t :: ts => substituteToken fragments t :: substitute fragments ts
end

def tokensOf (text : String) : Except AnnotationError Tokens :=
  match lex text with
  | some ts => .ok ts
  | none => .error .noTokens

/-! ## Expansion -/

/-- The tokens of an expansion, in two parts. -/
structure Expansion where
  /-- The annotated item. -/
  item : Code.Tree
  pair : Pair
  deriving Repr

def Expansion.tokens (e : Expansion) : Tokens := e.item.tokens ++ e.pair.tokens

/-- The options for an item: its visibility, and the runtime that its annotation gives. -/
def optionsFor (arguments : Arguments) (item : Code.Tree) : Options :=
  ⟨arguments.runtime.getD defaultRuntime, (structVisibility? item).getD publicVisibility⟩

def readItem (ts : Tokens) : Except AnnotationError Code.Tree := (parseItem ts).mapError .malformed

/-- The code for an item whose annotation was read. -/
def expandItem (arguments : Arguments) (item : Code.Tree) : Traced AnnotationError Expansion := do
  if hasParameters item then
    .ofExcept (.error .generic)
  else
    let x ← (extract (declarationOf item) arguments.arguments).mapError .extract
    let p ← (Emit.expand x (optionsFor arguments item)).mapError .generate
    return ⟨item, p⟩

/-- The expansion of an annotated item. -/
def expand (attached item : Tokens) : Traced AnnotationError Expansion := do
  let arguments ← .ofExcept (readArguments attached)
  let t ← .ofExcept (readItem item)
  expandItem arguments t

end Courier.Annotate
