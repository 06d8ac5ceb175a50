import Courier.Code.Tree

/-! The items that are emitted, and their tokens. -/
namespace Courier.Emit
open Code

/-- The traits that link a model to its transfer type. -/
inductive Trait where
  | dto
  | convertible
  deriving DecidableEq, Repr

def Trait.name : Trait → String
  | .dto => "Dto"
  | .convertible => "DtoConvertible"

/-- A trait under the path of the runtime that provides it. -/
structure TraitPath where
  runtime : Code.Tree
  trait : Trait
  deriving DecidableEq, Repr

/-- A function that emitted code names. -/
inductive FunctionName where
  /-- A trait's function; its argument decides whose. -/
  | ofTrait (trait : TraitPath) (name : String)
  /-- A trait's function for a type. -/
  | qualified (type : String) (trait : TraitPath) (name : String)
  /-- A function of a type itself. -/
  | inherent (type name : String)
  deriving DecidableEq, Repr

/-- An expression in emitted code. -/
inductive Expr where
  | variable (name : String)
  | field (e : Expr) (name : String)
  | borrow (e : Expr)
  | call (f : FunctionName) (argument : Expr)
  /-- A method without arguments. -/
  | method (e : Expr) (name : String)
  /-- A function mapped over elements. -/
  | map (e : Expr) (f : FunctionName)
  /-- An expression in a variable, mapped over elements. -/
  | mapEach (e : Expr) (x : String) (body : Expr)
  deriving DecidableEq, Repr

/-- A field of a struct literal. Without a value it takes that of the variable of its name. -/
structure Initializer where
  name : String
  value : Option Expr
  deriving DecidableEq, Repr

/-- The body of a function. -/
inductive Body where
  | expr (e : Expr)
  /-- A value of the type itself. -/
  | build (fields : List Initializer)
  deriving DecidableEq, Repr

/-- A type in a signature. -/
inductive SignatureType where
  | self
  | named (name : String)
  | borrowed (name : String)
  | written (type : Code.Tree)
  deriving DecidableEq, Repr

/-- An input of a function: the borrowed value itself, or a variable with its type. -/
inductive Input where
  | self
  | variable (name : String) (type : SignatureType)
  deriving DecidableEq, Repr

/-- An attribute of emitted code. -/
inductive Note where
  /-- Documentation, given by the text of a string literal. -/
  | doc (literal : String)
  | derive (traits : List String)
  /-- Warnings that do not matter, each by its path. -/
  | allow (warnings : List (List String))
  | mustUse
  deriving DecidableEq, Repr

structure Function where
  notes : List Note
  isPublic : Bool
  name : String
  inputs : List Input
  result : SignatureType
  body : Body
  deriving DecidableEq, Repr

inductive Item where
  | struct (notes : List Note) (visibility : Code.Tree) (name : String)
    (fields : List (String × Code.Tree))
  | impl (trait : Option TraitPath) (type : String) (related : Option (String × String))
      (functions : List Function)
  deriving DecidableEq, Repr

/-! ## Tokens -/

def comma : Tokens := Tokens.sign ","

/-- Elements with a comma behind each. -/
def listed (ts : List Tokens) : Tokens := ts.flatMap (· ++ comma)

/-- Elements with a comma between them. -/
def separated : List Tokens → Tokens
  | [] => []
  | [t] => t
  | t :: ts => t ++ comma ++ separated ts

def path (names : List String) : Tokens :=
  ((names.map Tokens.word).intersperse (Tokens.sign "::")).flatten

namespace TraitPath

def tokens (t : TraitPath) : Tokens :=
  t.runtime.tokens ++ Tokens.sign "::" ++ Tokens.word t.trait.name

end TraitPath

namespace FunctionName

def tokens : FunctionName → Tokens
  | .ofTrait t name => t.tokens ++ Tokens.sign "::" ++ Tokens.word name
  | .qualified type t name => Tokens.sign "<" ++ Tokens.word type ++ Tokens.word "as" ++ t.tokens ++
      Tokens.sign ">" ++ Tokens.sign "::" ++ Tokens.word name
  | .inherent type name => path [type, name]

end FunctionName

namespace Expr

def tokens : Expr → Tokens
  | .variable name => Tokens.word name
  | .field e name => e.tokens ++ Tokens.sign "." ++ Tokens.word name
  | .borrow e => Tokens.sign "&" ++ e.tokens
  | .call f e => f.tokens ++ [.group .paren e.tokens]
  | .method e name => e.tokens ++ Tokens.sign "." ++ Tokens.word name ++ [.group .paren []]
  | .map e f => e.tokens ++ Tokens.sign "." ++ Tokens.word "map" ++ [.group .paren f.tokens]
  | .mapEach e x body => e.tokens ++ Tokens.sign "." ++ Tokens.word "map" ++
      [.group .paren (Tokens.sign "|" ++ Tokens.word x ++ Tokens.sign "|" ++ body.tokens)]

end Expr

namespace Initializer

def tokens (i : Initializer) : Tokens :=
  match i.value with
  | some e => Tokens.word i.name ++ Tokens.sign ":" ++ e.tokens
  | none => Tokens.word i.name

end Initializer

namespace Body

def tokens : Body → Tokens
  | .expr e => e.tokens
  | .build fields =>
    Tokens.word "Self" ++ [.group .brace (listed (fields.map Initializer.tokens))]

end Body

namespace SignatureType

def tokens : SignatureType → Tokens
  | .self => Tokens.word "Self"
  | .named name => Tokens.word name
  | .borrowed name => Tokens.sign "&" ++ Tokens.word name
  | .written type => type.tokens

end SignatureType

namespace Input

def tokens : Input → Tokens
  | .self => Tokens.sign "&" ++ Tokens.word "self"
  | .variable name type => Tokens.word name ++ Tokens.sign ":" ++ type.tokens

end Input

namespace Note

def content : Note → Tokens
  | .doc literal => Tokens.word "doc" ++ Tokens.sign "=" ++ [.literal literal]
  | .derive traits => Tokens.word "derive" ++ [.group .paren (separated (traits.map Tokens.word))]
  | .allow warnings => Tokens.word "allow" ++ [.group .paren (separated (warnings.map path))]
  | .mustUse => Tokens.word "must_use"

def tokens (n : Note) : Tokens := Tokens.sign "#" ++ [.group .bracket n.content]

end Note

namespace Function

def tokens (f : Function) : Tokens :=
  f.notes.flatMap Note.tokens ++ (if f.isPublic then Tokens.word "pub" else []) ++
    Tokens.word "fn" ++ Tokens.word f.name ++
    [.group .paren (separated (f.inputs.map Input.tokens))] ++ Tokens.sign "->" ++
    f.result.tokens ++ [.group .brace f.body.tokens]

end Function

namespace Item

def tokens : Item → Tokens
  | .struct notes visibility name fields =>
    notes.flatMap Note.tokens ++ visibility.tokens ++ Tokens.word "struct" ++ Tokens.word name ++
      [.group .brace (listed (fields.map fun f =>
        Tokens.word "pub" ++ Tokens.word f.1 ++ Tokens.sign ":" ++ f.2.tokens))]
  | .impl trait type related functions =>
    let header := match trait with
      | some t => t.tokens ++ Tokens.word "for" ++ Tokens.word type
      | none => Tokens.word type
    let relation := match related with
      | some (name, target) => Tokens.word "type" ++ Tokens.word name ++ Tokens.sign "=" ++
          Tokens.word target ++ Tokens.sign ";"
      | none => []
    Tokens.word "impl" ++ header ++ [.group .brace (relation ++ functions.flatMap Function.tokens)]

end Item

def itemTokens (items : List Item) : Tokens := items.flatMap Item.tokens

end Courier.Emit
