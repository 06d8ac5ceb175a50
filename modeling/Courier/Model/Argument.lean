import Courier.Code.Grammar
import Courier.Code.Literal

/-! Arguments of a directive. -/
namespace Courier
open Code

/-- The value of an argument. Only arrays and strings mean something. -/
inductive ArgumentValue where
  | list (elements : List ArgumentValue)
  | text (value : String)
  /-- Any other expression, by its source text. -/
  | code (source : String)
  deriving Repr, Inhabited

namespace ArgumentValue

mutual
/-- Are two values the same, with all that is in them? -/
def same : ArgumentValue → ArgumentValue → Bool
  | .list as, .list bs => sameList as bs
  | .text a, .text b => a == b
  | .code a, .code b => a == b
  | _, _ => false

def sameList : List ArgumentValue → List ArgumentValue → Bool
  | [], [] => true
  | a :: as, b :: bs => a.same b && sameList as bs
  | _, _ => false
end

mutual
theorem same_iff (a b : ArgumentValue) : a.same b = true ↔ a = b := by
  cases a with
  | list as => cases b <;> simp [same, sameList_iff as]
  | _ => cases b <;> simp [same]

theorem sameList_iff (as bs : List ArgumentValue) : sameList as bs = true ↔ as = bs := by
  cases as with
  | nil => cases bs <;> simp [sameList]
  | cons a as => cases bs <;> simp [sameList, same_iff a, sameList_iff as]
end

instance : DecidableEq ArgumentValue := fun a b => decidable_of_iff _ (same_iff a b)

end ArgumentValue

/-- An argument with its label. -/
structure Argument where
  label : Option String
  value : ArgumentValue
  deriving DecidableEq, Repr

namespace ArgumentValue

mutual
/-- A value as it is shown: strings quoted, arrays in brackets. -/
def display : ArgumentValue → String
  | .list elements => "[" ++ displayList elements ++ "]"
  | .text value => String.ofList (Text.quote value.toList)
  | .code source => source

def displayList : List ArgumentValue → String
  | [] => ""
  | [e] => e.display
  | e :: es => e.display ++ ", " ++ displayList es
end

/-- The value of a literal, when it is a string. -/
def ofLiteral (literal : String) : Option ArgumentValue := (stringValue? literal).map .text

mutual
/-- The value of an expression. Attributes on arrays and strings, and hidden groups around
them, do not count. -/
def ofExpr : Code.Tree → ArgumentValue
  | .node .arrayExpr [.group .bracket ps] => .list (ofElements ps)
  | .node .attributedExpr [_, .node .arrayExpr [.group .bracket ps]] => .list (ofElements ps)
  | .node .groupExpr [.group .hidden [e]] => ofExpr e
  | .node .attributedExpr [_, .node .groupExpr [.group .hidden [e]]] => ofExpr e
  | .node .literalExpr [.token (.literal s)] =>
    (ofLiteral s).getD (.code (Code.Tree.token (.literal s)).text)
  | .node .attributedExpr [as, .node .literalExpr [.token (.literal s)]] =>
    (ofLiteral s).getD
      (.code (Code.Tree.node .attributedExpr [as, .node .literalExpr [.token (.literal s)]]).text)
  | t => .code t.text

def ofElements : List Code.Tree → List ArgumentValue
  | [] => []
  | t :: ts => if t.isComma then ofElements ts else ofExpr t :: ofElements ts
end

/-- The expression that a text spells. -/
def expression? (text : String) : Option Code.Tree := do
  let tokens ← lex text
  (parseExpr tokens).toOption

/-- The value that a text spells. Text that is no array or string is kept as it is written,
without the white space around it. -/
def parse (text : String) : ArgumentValue :=
  let trimmed := String.ofList (Text.trim text.toList)
  match (expression? trimmed).map ofExpr with
  | some (.list elements) => .list elements
  | some (.text value) => .text value
  | _ => .code trimmed

end ArgumentValue

end Courier
