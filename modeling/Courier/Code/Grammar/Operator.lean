import Courier.Code.Grammar.Pattern
import Courier.Text.Quoted

/-!
Operators of expressions. They bind by level; calls, fields and the like bind tightest.
-/
namespace Courier.Code

/-! ## Levels of operators -/

namespace Level

def lowest : Nat := 0
def assignment : Nat := 1
def range : Nat := 2
def comparison : Nat := 6
def cast : Nat := 13

end Level

/-- The binary operators with their levels. Of two that begin alike the longer comes first. -/
def binaryOperators : List (String × Nat) :=
  [("+=", 1), ("-=", 1), ("*=", 1), ("/=", 1), ("%=", 1), ("^=", 1), ("&=", 1), ("|=", 1),
   ("<<=", 1), (">>=", 1), ("&&", 4), ("||", 3), ("<<", 10), (">>", 10), ("==", 6), ("<=", 6),
   ("!=", 6), (">=", 6), ("+", 11), ("-", 11), ("*", 12), ("/", 12), ("%", 12), ("^", 8), ("&", 9),
   ("|", 7), ("<", 6), (">", 6)]

def binaryOperator? (ts : Tokens) : Option (String × Nat) :=
  binaryOperators.find? fun op => Tokens.startsSign op.1 ts

/-- An equals sign that is no arrow. -/
def startsAssignment (ts : Tokens) : Bool := Tokens.startsSign "=" ts && !Tokens.startsSign "=>" ts

/-- The level of the operator that the tokens begin with. -/
def nextLevel (ts : Tokens) : Nat :=
  match binaryOperator? ts with
  | some (_, level) => level
  | none =>
    if startsAssignment ts then Level.assignment
    else if Tokens.startsSign ".." ts then Level.range
    else if Tokens.startsWord "as" ts then Level.cast
    else Level.lowest

/-! ## Beginnings -/

/-- A dot that is not the beginning of a range. -/
def startsDot (ts : Tokens) : Bool := Tokens.startsSign "." ts && !Tokens.startsSign ".." ts

/-- Lifetimes bound for a closure. -/
def startsBinder (ts : Tokens) : Bool :=
  let second := Tokens.skip ts
  let third := Tokens.skip second
  Tokens.startsWord "for" ts && Tokens.startsSign "<" second &&
    (Tokens.startsLifetime third || Tokens.startsSign ">" third)

def startsClosure (ts : Tokens) : Bool :=
  let second := Tokens.skip ts
  Tokens.startsSign "|" ts || Tokens.startsWord "move" ts || startsBinder ts ||
    (Tokens.startsWord "const" ts && !Tokens.startsGroup .brace second) ||
    Tokens.startsWord "static" ts ||
    (Tokens.startsWord "async" ts &&
      (Tokens.startsSign "|" second || Tokens.startsWord "move" second))

def startsAsyncBlock (ts : Tokens) : Bool :=
  let second := Tokens.skip ts
  Tokens.startsWord "async" ts && (Tokens.startsGroup .brace second ||
    (Tokens.startsWord "move" second && Tokens.startsGroup .brace (Tokens.skip second)))

/-- A path, which may begin with `try` where that cannot be a block. -/
def startsExprPath (ts : Tokens) : Bool :=
  let second := Tokens.skip ts
  Grammar.startsPath ts || (Tokens.startsWord "try" ts &&
    (Tokens.startsSign "!" second || Tokens.startsSign "::" second))

def startsExpr (ts : Tokens) : Bool :=
  let begins (s : String) (but : List String) :=
    Tokens.startsSign s ts && !but.any fun b => Tokens.startsSign b ts
  Tokens.startsAnyIdent ts || Tokens.startsGroup .paren ts || Tokens.startsGroup .bracket ts ||
    Tokens.startsGroup .brace ts || Tokens.startsLiteral ts || begins "!" ["!="] ||
    begins "-" ["-=", "->"] || begins "*" ["*="] || begins "|" ["|="] || begins "&" ["&="] ||
    begins ".." [] || begins "<" ["<=", "<<="] || begins "::" [] || Tokens.startsLifetime ts ||
    begins "#" []

/-- Does a range without an upper bound end here? -/
def endsOpenRange (braces : Bool) (ts : Tokens) : Bool :=
  ts.isEmpty || startsDot ts || (!braces && Tokens.startsGroup .brace ts) ||
    Tokens.startsWord "as" ts ||
    [",", ";", "?", "=>", "=", "+", "/", "%", "^", ">", "<=", "!=", "-=", "*=", "&=", "|=",
     "<<="].any fun s => Tokens.startsSign s ts

/-! ## Kinds of expressions -/

/-- An expression with its attributes and the hidden groups around it taken off. -/
def Tree.bare : Tree → Tree
  | .node .attributedExpr [_, e] => e.bare
  | .node .groupExpr [.group .hidden [e]] => e.bare
  | t => t

def withAttributes (attributes : List Tree) (e : Tree) : Tree :=
  match attributes, e with
  | [], e => e
  | as, .node .attributedExpr [.node .attributes bs, e] =>
    .node .attributedExpr [.node .attributes (as ++ bs), e]
  | as, e => .node .attributedExpr [.node .attributes as, e]

/-- An expression with attributes in front of it, which belong to its leftmost operand. -/
def attributed (attributes : List Tree) : Tree → Tree
  | .node .assignExpr (l :: ps) => .node .assignExpr (attributed attributes l :: ps)
  | .node .binaryExpr (l :: ps) => .node .binaryExpr (attributed attributes l :: ps)
  | .node .castExpr (l :: ps) => .node .castExpr (attributed attributes l :: ps)
  | e => withAttributes attributes e

def withoutAttributes : Tree → Tree
  | .node .attributedExpr [_, e] => e
  | t => t

def isRange (t : Tree) : Bool := (withoutAttributes t).isKind .rangeExpr

/-- Kinds that need neither a semicolon as statements nor a comma as arms. -/
def isBlockLike (t : Tree) : Bool :=
  match (withoutAttributes t).kind? with
  | some k => [.ifExpr, .whileExpr, .forExpr, .loopExpr, .matchExpr, .tryBlockExpr, .unsafeExpr,
      .constExpr, .blockExpr].contains k
  | none => false

def isBracedMacro (t : Tree) : Bool :=
  match withoutAttributes t with
  | .node .macroExpr ps => ps.getLast?.any fun
    | .token (.group .brace _) => true
    | _ => false
  | _ => false

/-- Do the operators after the expression still belong to it, when it begins a statement? -/
def goesOn (t : Tree) : Bool := !isBlockLike t.bare

/-- A comparison, which no other comparison may follow. -/
def isComparison : Tree → Bool
  | .node .binaryExpr [_, .sign s, _] => binaryOperators.any fun op => op.1 == s && op.2 == 6
  | _ => false

/-! ## Numbers after a dot -/

def digitIn (base : Nat) (c : Char) : Option Nat :=
  match Text.hexValue? c with
  | some v => if v < base then some v else none
  | none => none

/-- The number that digits in a base spell; underscores do not count. -/
def digitsIn (base : Nat) (cs : List Char) : Option Nat :=
  let ds := cs.filter (· != '_')
  if ds.isEmpty then none
  else ds.foldlM (fun n c => (digitIn base c).map (n * base + ·)) 0

/-- The position that a literal names, as it is written in the output. It has to fit into 32 bits. -/
def position? (text : String) : Option String :=
  let n := match text.toList with
    | '0' :: 'x' :: cs => digitsIn 16 cs
    | '0' :: 'o' :: cs => digitsIn 8 cs
    | '0' :: 'b' :: cs => digitsIn 2 cs
    | c :: cs => if c.isDigit then digitsIn 10 (c :: cs) else none
    | [] => none
  n.bind fun n => if n < 4294967296 then some (toString n) else none

/-- Is a number written with a point or an exponent? -/
def isFloat (text : String) : Bool :=
  let isBased := ["0x", "0o", "0b"].any (text.startsWith ·)
  Tokens.isNumber text && !isBased &&
    (text.contains '.' || hasExponent (text.toList.dropWhile fun c => c.isDigit || c == '_'))
where
  hasExponent : List Char → Bool
    | c :: '+' :: _ => c == 'e' || c == 'E'
    | c :: '-' :: _ => c == 'e' || c == 'E'
    | c :: cs => (c == 'e' || c == 'E') && (cs.dropWhile (· == '_')).head?.any Char.isDigit
    | [] => false

namespace Grammar
open Code.Parser

variable (g : Grammar)

/-! ## Operators -/

/-- The operand behind an operator of a level, extended by all that binds tighter. -/
def operandRule (right : Tree) (braces : Bool) (level : Nat) : Parser Tree := do
  let before ← rest
  let next := nextLevel before
  if next > level || (next == level && level == Level.assignment) then
    let extended ← g.operators right braces next
    -- an extension that read nothing, such as one of a range, would be tried for ever
    if Token.weightList (← rest) == Token.weightList before then return extended
    g.operand extended braces level
  else return right

/-- The operand behind an operator of a level. -/
def operandAt (braces : Bool) (level : Nat) : Parser Tree := do
  g.operand (← g.unary braces) braces level

/-- The mark of a range in an expression. -/
def rangeLimit : Parser Tree := do
  match ← sign? "..=" with
  | some s => return s
  | none => if ← seesSign "..." then fail .unexpected else sign ".."

/-- The upper bound of a range, if it has one. -/
def rangeEnd (mark : Tree) (braces : Bool) : Parser Tree := do
  if mark == .sign ".." && (← sees (endsOpenRange braces)) then return Tree.none
  g.operandAt braces Level.range

/-- Nothing that belongs to an operand may follow a cast. -/
def afterCast : Parser Unit := do
  let ts ← rest
  let second := Tokens.skip ts
  let third := Tokens.skip second
  let what :=
    if startsDot ts then
      if Tokens.startsWord "await" second then some "`.await`"
      else if Tokens.startsIdent second &&
          (Tokens.startsGroup .paren third || Tokens.startsSign "::" third) then
        some "a method call"
      else some "a field access"
    else if Tokens.startsSign "?" ts then some "`?`"
    else if Tokens.startsGroup .bracket ts then some "indexing"
    else if Tokens.startsGroup .paren ts then some "a function call"
    else none
  match what with
  | some w => fail (.rule ("casts cannot be followed by " ++ w))
  | none => return ()

/-- The operators after an expression that bind at least as tight as a level. -/
def operatorsRule (left : Tree) (braces : Bool) (level : Nat) : Parser Tree := do
  if isRange left then return left
  let ts ← rest
  match binaryOperator? ts with
  | some (op, l) =>
    if l < level then return left
    if l == Level.comparison && isComparison left then fail .chainedComparison
    let mark ← sign op
    let right ← g.operandAt braces l
    g.operators (.node .binaryExpr [left, mark, right]) braces level
  | none =>
    if Level.assignment ≥ level && startsAssignment ts then
      let mark ← sign "="
      let right ← g.operandAt braces Level.assignment
      g.operators (.node .assignExpr [left, mark, right]) braces level
    else if Level.range ≥ level && Tokens.startsSign ".." ts then
      let mark ← rangeLimit
      let stop ← g.rangeEnd mark braces
      g.operators (.node .rangeExpr [left, mark, stop]) braces level
    else if Level.cast ≥ level && Tokens.startsWord "as" ts then
      let as ← word "as"
      let type ← g.type false false
      afterCast
      g.operators (.node .castExpr [left, as, type]) braces level
    else return left

def exprRule (braces : Bool) : Parser Tree := do
  g.operators (← g.unary braces) braces Level.lowest

/-! ## Trailers -/

/-- A field, by name or position. -/
def member : Parser Tree := do
  let ts ← rest
  if Tokens.startsIdent ts then return ← ident
  match Tokens.literal? ts with
  | some (.literal text, r) =>
    match position? text with
    | some n => set r; return .token (.literal n)
    | none => missing "identifier or integer"
  | _ => missing "identifier or integer"

def isNamed : Tree → Bool
  | .token (.ident _) => true
  | _ => false

def callList : Parser Tree := grouped .paren (separated "," g.fullExpr)

/-- Fields by position that were read as one number with points. -/
def positions (e : Tree) : List String → Parser Tree
  | [] => return e
  | p :: ps =>
    match position? p with
    | some n => positions (.node .fieldExpr [e, .sign ".", .token (.literal n)]) ps
    | none => fail (.rule "expected unsuffixed integer")

def afterDot (e : Tree) : Parser Tree := do
  match ← word? "await" with
  | some w => return .node .awaitExpr [e, .sign ".", w]
  | none =>
    let name ← member
    let fish ← if isNamed name && (← seesSign "::") then g.angleArguments else pure Tree.none
    if isNamed name && (!isAbsent fish || (← sees (Tokens.startsGroup .paren))) then
      return .node .methodExpr [e, .sign ".", name, fish, ← g.callList]
    return .node .fieldExpr [e, .sign ".", name]

def dotted (e : Tree) : Parser Tree := do
  let _ ← sign "."
  match Tokens.literal? (← get) with
  | some (.literal text, r) =>
    -- `a.0.1` is one number for the lexer, two positions here
    if isFloat text then
      set r
      if text.endsWith "." then
        g.afterDot (← positions e ((text.dropEnd 1).toString.splitOn "."))
      else positions e (text.splitOn ".")
    else g.afterDot e
  | _ => g.afterDot e

/-- Calls, fields, positions and question marks after an expression. -/
def trailersRule (e : Tree) : Parser Tree := do
  let ts ← rest
  if Tokens.startsGroup .paren ts then g.trailers (.node .callExpr [e, ← g.callList])
  else if startsDot ts && !isRange e then g.trailers (← g.dotted e)
  else if Tokens.startsGroup .bracket ts then
    g.trailers (.node .indexExpr [e, ← grouped .bracket do return [← g.fullExpr]])
  else if Tokens.startsSign "?" ts && !isRange e then
    g.trailers (.node .tryExpr [e, ← sign "?"])
  else return e

end Grammar

end Courier.Code
