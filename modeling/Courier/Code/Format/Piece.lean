import Courier.Code.Format.Setting
import Courier.Code.Layout

/-!
Parts of a syntax tree with their layouts. A rule of the format puts the layouts of the parts of a
tree together to that of the tree.
-/
namespace Courier.Code

/-- How a path is spelled. -/
inductive PathStyle where
  /-- It only names something, and its arguments are left out. -/
  | name
  | type
  /-- Its arguments need a separator. -/
  | value
  deriving DecidableEq, Repr

/-- Where a part stands, as far as its layout depends on it. -/
structure Place where
  style : PathStyle
  /-- In front of a dot, a call and the like, in the box of a chain. -/
  inChain : Bool
  /-- At the beginning of a line. -/
  leads : Bool
  setting : Setting
  deriving DecidableEq, Repr

namespace Place

/-- Between expressions. -/
def value : Place := ⟨.value, false, false, .free⟩

/-- Between types. -/
def type : Place := { value with style := .type }

/-- A path that only names something. -/
def name : Place := { value with style := .name }

/-- The condition of a branch or loop. -/
def condition : Place := { value with setting := .condition }

/-- A statement at the beginning of its line. -/
def statement : Place := { value with leads := true, setting := .statement }

/-- The body of an arm at the beginning of its line. -/
def arm : Place := { value with leads := true, setting := .arm }

/-- An operand in its surroundings. -/
def under (setting : Setting) : Place := { value with setting }

end Place

/-- A tree, its layout in each place, and its parts. -/
inductive Piece where
  | mk (tree : Tree) (layout : Place → Docs) (parts : List Piece)

namespace Piece

def tree : Piece → Tree
  | .mk t _ _ => t

def layout : Piece → Place → Docs
  | .mk _ l _ => l

def parts : Piece → List Piece
  | .mk _ _ ps => ps

/-- The layout between expressions. -/
def docs (p : Piece) : Docs := p.layout .value

/-- The layout between types. -/
def typeDocs (p : Piece) : Docs := p.layout .type

def isAbsent (p : Piece) : Bool := p.tree == Tree.none

def isSign (s : String) (p : Piece) : Bool := p.tree == .sign s

def isKind (k : Kind) (p : Piece) : Bool := p.tree.isKind k

/-- An optional part with a blank behind it. -/
def spaced (p : Piece) : Docs := if p.isAbsent then [] else p.docs ++ Docs.word " "

/-- The elements of a list separated by commas. -/
def elements (ps : List Piece) : List Piece := ps.filter fun p => !p.tree.isComma

/-- The layouts of the elements of a list. -/
def eachDocs (ps : List Piece) : List Docs := (elements ps).map docs

/-- The layouts of parts in a row. -/
def rowDocs (ps : List Piece) : Docs := ps.flatMap docs

/-- The tokens of a tree that was not looked into. -/
def tokens (p : Piece) : Tokens := p.tree.tokens

/-- An expression in its place, in parentheses if it is bound too loosely for it or would end too
early there. -/
def operand (place : Place) (loose : Bool) (e : Piece) : Docs :=
  if loose || place.setting.endsEarly e.tree then
    Docs.word "(" ++ e.layout { place with setting := .free } ++ Docs.word ")"
  else e.layout place

end Piece

/-- How the parts of a node are put together. Nothing is given for a form that is printed as its
text. -/
abbrev FormatRule := Kind → List Piece → Place → Option Docs

end Courier.Code
