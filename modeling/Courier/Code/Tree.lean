import Courier.Code.Token

/-!
Syntax trees: tokens bound together by what they are. A tree spells out its tokens in order, so
the text of a parsed piece is the text of its tree.
-/
namespace Courier.Code

/-- What a node of a syntax tree is. -/
inductive Kind where
  /-- An optional part that is not there. -/
  | absent
  /-- Tokens that were not looked into. -/
  | raw
  | attributes | attributeMark | metaPath | metaList | metaValue
  | visibility
  | path | qualified | segment | arguments | callArguments | result
  | bindingArgument | constraintArgument | constArgument
  | binder | parameter | parameters | whereClause | predicate | bound | captured | lifetime
  | pathType | tupleType | parenType | arrayType | sliceType | pointerType | referenceType
  | neverType | inferType | objectType | implType | functionType | macroType | groupType
  | functionArgument | variadic
  | attributedExpr
  | literalExpr | pathExpr | macroExpr | structExpr | fieldValue | tupleExpr | parenExpr
  | arrayExpr | repeatExpr | callExpr | methodExpr | fieldExpr | indexExpr | tryExpr | awaitExpr
  | unaryExpr | referenceExpr | binaryExpr | assignExpr | rangeExpr | castExpr
  | closureExpr | blockExpr | unsafeExpr | constExpr | asyncExpr | tryBlockExpr
  | ifExpr | whileExpr | loopExpr | forExpr | matchExpr | arm | letExpr
  | breakExpr | continueExpr | returnExpr | yieldExpr | becomeExpr | inferExpr | groupExpr
  | wildPattern | literalPattern | pathPattern | macroPattern | structPattern | tuplePattern
  | parenPattern | slicePattern | namePattern | referencePattern | rangePattern | restPattern
  | orPattern | constPattern | boxPattern | typedPattern | fieldPattern
  | block | letStmt | exprStmt | macroStmt | emptyStmt
  | structItem | unionItem | enumItem | variant | fields | field
  | functionItem | signature | receiver | input
  | constItem | staticItem | typeItem | moduleItem | externCrateItem | foreignItem | useItem
  | importPath | importAlias | importGroup
  | implItem | traitItem | aliasItem | macroItem | verbatimItem
  | file
  deriving DecidableEq, Repr

/-- A syntax tree. -/
inductive Tree where
  | token (t : Token)
  | sign (text : String)
  | lifetime (name : String)
  | group (delimiter : Delimiter) (parts : List Tree)
  | node (kind : Kind) (parts : List Tree)
  deriving Repr, Inhabited

namespace Tree

mutual
/-- Are two trees the same, with all that is in them? -/
def same : Tree → Tree → Bool
  | .token a, .token b => a == b
  | .sign a, .sign b => a == b
  | .lifetime a, .lifetime b => a == b
  | .group d ps, .group e qs => d == e && sameList ps qs
  | .node k ps, .node l qs => k == l && sameList ps qs
  | _, _ => false

def sameList : List Tree → List Tree → Bool
  | [], [] => true
  | s :: ss, t :: ts => s.same t && sameList ss ts
  | _, _ => false
end

mutual
theorem same_iff (s t : Tree) : s.same t = true ↔ s = t := by
  cases s with
  | group _ ps => cases t <;> simp [same, sameList_iff ps]
  | node _ ps => cases t <;> simp [same, sameList_iff ps]
  | _ => cases t <;> simp [same]

theorem sameList_iff (ss ts : List Tree) : sameList ss ts = true ↔ ss = ts := by
  cases ss with
  | nil => cases ts <;> simp [sameList]
  | cons s ss => cases ts <;> simp [sameList, same_iff s, sameList_iff ss]
end

instance : DecidableEq Tree := fun s t => decidable_of_iff _ (same_iff s t)

/-- A token as it is printed. The minus sign of a number is a token of its own. -/
def printed : Token → Tokens
  | .literal text =>
    match text.toList with
    | '-' :: digits => [.punct '-' false, .literal (String.ofList digits)]
    | _ => [.literal text]
  | t => [t]

@[simp] theorem printed_ident (name : String) : printed (.ident name) = [.ident name] := rfl

mutual
def tokens : Tree → Tokens
  | .token t => printed t
  | .sign text => Tokens.sign text
  | .lifetime name => Tokens.lifetime name
  | .group d parts => [.group d (tokensList parts)]
  | .node _ parts => tokensList parts

def tokensList : List Tree → Tokens
  | [] => []
  | t :: ts => t.tokens ++ tokensList ts
end

/-- An identifier or keyword. -/
def word (name : String) : Tree := .token (.ident name)

/-- Tokens that were not looked into. -/
def raw (ts : Tokens) : Tree := .node .raw (ts.map .token)

/-- A part that is not there. -/
def none : Tree := .node .absent []

def ofOption : Option Tree → Tree
  | some t => t
  | .none => Tree.none

def isComma : Tree → Bool
  | .sign "," => true
  | _ => false

def kind? : Tree → Option Kind
  | .node k _ => some k
  | _ => .none

def isKind (k : Kind) (t : Tree) : Bool := t.kind? == some k

def parts : Tree → List Tree
  | .node _ ps => ps
  | .group _ ps => ps
  | _ => []

/-- The elements of a list separated by commas. -/
def elements (ts : List Tree) : List Tree := ts.filter fun t => !t.isComma

def trailingComma (ts : List Tree) : Bool := ts.getLast?.any isComma

end Tree

def Tree.text (t : Tree) : String := t.tokens.text

end Courier.Code
