import Courier.Code.Grammar.Operator

/-! Expressions without binary operators. -/
namespace Courier.Code

namespace Grammar
open Code.Parser

variable (g : Grammar)

/-- A field of a struct literal. -/
def fieldValue : Parser Tree := do
  let attributes ← g.outerAttributes
  let name ← member
  let value ← if (← seesSign ":") || !isNamed name then
      pure [← sign ":", ← g.fullExpr]
    else pure []
  return .node .fieldValue (.node .attributes attributes :: name :: value)

/-- The fields of a struct literal, and the value that gives the others. -/
def fieldValues : Parser (List Tree) :=
  iterate do
    if ← finished then return ([], false)
    match ← sign? ".." with
    | some s =>
      if ← finished then return ([s], false)
      return ([s, ← g.fullExpr], false)
    | none =>
      let f ← g.fieldValue
      if ← finished then return ([f], false)
      return ([f, ← sign ","], true)

/-- A path as expression, or the macro call or struct literal that it begins. -/
def afterPath (path : Tree) (braces : Bool) : Parser Tree := do
  let ts ← rest
  if startsBang ts && isPlainPath path then
    return .node .macroExpr [path, ← sign "!", ← delimited]
  if braces && Tokens.startsGroup .brace ts then
    return .node .structExpr [path, ← grouped .brace g.fieldValues]
  return .node .pathExpr [path]

/-- An expression bound together by a hidden group. A path in it may go on behind it. -/
def groupExpr (braces : Bool) : Parser Tree := do
  let inner ← hidden g.fullExpr
  match inner with
  | .node .pathExpr [.node k ps] =>
    let more ← g.pathRest true
    let e ← g.afterPath (.node k (ps ++ more)) braces
    if more.isEmpty && e == inner then return .node .groupExpr [.group .hidden [inner]]
    return e
  | _ => return .node .groupExpr [.group .hidden [inner]]

def closureParameter : Parser Tree := do
  let attributes ← g.outerAttributes
  let p ← g.pattern
  if ← seesSign ":" then
    return .node .typedPattern [.node .attributes attributes, p, ← sign ":", ← g.fullType]
  if attributes.isEmpty then return p
  return .node .typedPattern [.node .attributes attributes, p]

def closure (braces : Bool) : Parser Tree := do
  let lifetimes ← when (← seesWord "for") g.binder
  let const := Tree.ofOption (← word? "const")
  let static := Tree.ofOption (← word? "static")
  let async := Tree.ofOption (← word? "async")
  let move := Tree.ofOption (← word? "move")
  let opening ← sign "|"
  let inputs ← untilSign "|" "," g.closureParameter
  let closing ← sign "|"
  let signature :=
    [lifetimes, const, static, async, move, .node .parameters (opening :: inputs ++ [closing])]
  match ← sign? "->" with
  | some s =>
    let type ← g.fullType
    return .node .closureExpr
      (signature ++ [.node .result [s, type], .node .blockExpr [Tree.none, ← g.plainBlock]])
  | none => return .node .closureExpr (signature ++ [Tree.none, ← g.expr braces])

/-- An expression in parentheses, or a tuple. -/
def parenthesizedExpr : Parser Tree := do
  let content ← grouped .paren (separated "," g.fullExpr)
  match content.parts with
  | [_] => return .node .parenExpr [content]
  | _ => return .node .tupleExpr [content]

/-- An array by its elements, or by one element and a length. -/
def array : Parser Tree := do
  match Tokens.next? (← get) with
  | some (.group .bracket body, r) =>
    set r
    if body.isEmpty then return .node .arrayExpr [.group .bracket []]
    let (first, content) ← liftM (g.fullExpr.run body)
    if content.isEmpty then return .node .arrayExpr [.group .bracket [first]]
    if Tokens.startsSign "," content then
      let others ← liftM (all (do
        let comma ← sign ","
        return comma :: (← separated "," g.fullExpr)) content)
      return .node .arrayExpr [.group .bracket (first :: others)]
    if Tokens.startsSign ";" content then
      let others ← liftM (all (do return [← sign ";", ← g.fullExpr]) content)
      return .node .repeatExpr [.group .bracket (first :: others)]
    fail (.expectedHere "`,` or `;`" (Tokens.atEnd content))
  | _ => missing (bracketName .bracket)

/-- A condition that binds names. -/
def letExpr (braces : Bool) : Parser Tree := do
  let let' ← word "let"
  let pattern ← g.alternatives
  let mark ← sign "="
  -- `&&` and `||` behind the value join conditions, so the value ends in front of them
  let value ← g.operators (← g.unary braces) braces Level.comparison
  return .node .letExpr [let', pattern, mark, value]

/-- The branches of a conditional, from its keyword on. -/
def branchesRule : Parser Tree := do
  let if' ← word "if"
  let condition ← g.expr false
  let block ← g.plainBlock
  match ← word? "else" with
  | none => return .node .ifExpr [if', condition, block]
  | some e =>
    let ts ← rest
    if Tokens.startsWord "if" ts then
      return .node .ifExpr [if', condition, block, e, ← g.branches]
    if Tokens.startsGroup .brace ts then
      return .node .ifExpr [if', condition, block, e, .node .blockExpr [Tree.none, ← g.plainBlock]]
    fail (.expectedHere "`if` or curly braces" (Tokens.atEnd ts))

/-! ## Blocks -/

def label : Parser Tree := do
  return .node .raw [← lifetime, ← sign ":"]

def arm (body : Parser Tree) : Parser Tree := do
  let attributes ← g.outerAttributes
  let pattern ← g.alternatives
  let guard ← if ← seesWord "if" then pure [← word "if", ← g.fullExpr] else pure []
  let arrow ← sign "=>"
  let body ← body
  let comma ←
    if !isBlockLike body && !(← finished) then pure (some (← sign ","))
    else sign? ","
  return .node .arm
    ([.node .attributes attributes, pattern, .node .raw guard, arrow, body] ++ comma.toList)

/-- A loop or block behind its label. -/
def labelled (label : Tree) : Parser Tree := do
  let ts ← rest
  if Tokens.startsWord "while" ts then
    return .node .whileExpr [label, ← word "while", ← g.expr false, ← g.fullBlock]
  if Tokens.startsWord "for" ts then
    let for' ← word "for"
    let pattern ← g.alternatives
    let in' ← word "in"
    return .node .forExpr [label, for', pattern, in', ← g.expr false, ← g.fullBlock]
  if Tokens.startsWord "loop" ts then
    return .node .loopExpr [label, ← word "loop", ← g.fullBlock]
  if Tokens.startsGroup .brace ts then return .node .blockExpr [label, ← g.fullBlock]
  fail (.expectedHere "loop or block expression" (Tokens.atEnd ts))

/-- A choice by patterns. -/
def choice : Parser Tree := do
  let match' ← word "match"
  let value ← g.expr false
  let arms ← grouped .brace do return (← g.innerAttributes) ++ (← many (g.arm g.leading))
  return .node .matchExpr [match', value, arms]

/-- An expression that ends in a block of its own. -/
def blockLike : Parser Tree := do
  let ts ← rest
  if Tokens.startsLifetime ts then g.labelled (← label)
  else if Tokens.startsWord "if" ts then g.branches
  else if Tokens.startsWord "match" ts then g.choice
  else if Tokens.startsWord "unsafe" ts then
    return .node .unsafeExpr [← word "unsafe", ← g.fullBlock]
  else if Tokens.startsWord "const" ts then
    return .node .constExpr [← word "const", ← g.fullBlock]
  else if Tokens.startsWord "try" ts then
    return .node .tryBlockExpr [← word "try", ← g.plainBlock]
  else g.labelled Tree.none

/-- Does an expression with a block of its own begin here? -/
def startsBlockLike (ts : Tokens) : Bool :=
  let second := Tokens.skip ts
  (["if", "while", "loop", "match", "unsafe"].any fun w => Tokens.startsWord w ts) ||
    (Tokens.startsWord "for" ts && !startsBinder ts) ||
    (Tokens.startsWord "try" ts && Tokens.startsGroup .brace second) ||
    (Tokens.startsWord "const" ts && Tokens.startsGroup .brace second) ||
    Tokens.startsGroup .brace ts || Tokens.startsLifetime ts

/-! ## Expressions without binary operators -/

/-- The value behind a jump, if one follows. -/
def jumpValue (go : Bool) : Parser (List Tree) := do
  if go && (← sees startsExpr) then return [← g.fullExpr] else return []

def breakExpr (braces : Bool) : Parser Tree := do
  let break' ← word "break"
  let label := Tree.ofOption (← lifetime?)
  if !isAbsent label && (← seesSign ":") then fail (.rule "parentheses required")
  -- in a condition the brace begins the body, not the value
  let value ← g.jumpValue (braces || !(← sees (Tokens.startsGroup .brace)))
  return .node .breakExpr (break' :: label :: value)

/-- A compiler's own construct, not looked into. -/
def builtin : Parser Tree := do
  let name ← word "builtin"
  let mark ← sign "#"
  let which ← ident
  match Tokens.next? (← get) with
  | some (.group .paren body, r) =>
    set r
    return .node .raw [name, mark, which, .token (.group .paren body)]
  | _ => missing (bracketName .paren)

/-- An expression that no operator and no trailer is part of. -/
def atom (braces : Bool) : Parser Tree := do
  let ts ← rest
  let second := Tokens.skip ts
  if Tokens.startsHidden ts then g.groupExpr braces
  else if Tokens.startsLiteral ts then return .node .literalExpr [← literal]
  else if startsAsyncBlock ts then
    let async ← word "async"
    let move := Tree.ofOption (← word? "move")
    return .node .asyncExpr [async, move, ← g.plainBlock]
  else if Tokens.startsWord "try" ts && Tokens.startsGroup .brace second then g.blockLike
  else if startsClosure ts then g.closure braces
  else if Tokens.startsWord "builtin" ts && Tokens.startsSign "#" second then builtin
  else if startsExprPath ts then g.afterPath (← g.qualifiedPath true) braces
  else if Tokens.startsGroup .paren ts then g.parenthesizedExpr
  else if Tokens.startsWord "break" ts then g.breakExpr braces
  else if Tokens.startsWord "continue" ts then
    return .node .continueExpr [← word "continue", Tree.ofOption (← lifetime?)]
  else if Tokens.startsWord "return" ts then
    return .node .returnExpr ((← word "return") :: (← g.jumpValue true))
  else if Tokens.startsWord "become" ts then
    return .node .becomeExpr [← word "become", ← g.fullExpr]
  else if Tokens.startsGroup .bracket ts then g.array
  else if Tokens.startsWord "let" ts then g.letExpr braces
  else if Tokens.startsWord "yield" ts then
    return .node .yieldExpr ((← word "yield") :: (← g.jumpValue true))
  else if startsBlockLike ts then g.blockLike
  else if Tokens.startsSign ".." ts then
    let mark ← rangeLimit
    return .node .rangeExpr [Tree.none, mark, ← g.rangeEnd mark braces]
  else if Tokens.startsWord "_" ts then return .node .inferExpr [← word "_"]
  else missing "an expression"

def exprAttributes : Parser (List Tree) :=
  manyWhile (fun ts => !Tokens.startsHidden ts && Tokens.startsSign "#" ts) g.outerAttribute

/-- An expression whose outermost operator, if any, is unary. -/
def unaryRule (braces : Bool) : Parser Tree := do
  let attributes ← g.exprAttributes
  let ts ← rest
  if Tokens.startsHidden ts then
    return withAttributes attributes (← g.trailers (← g.atom braces))
  if Tokens.startsSign "&" ts then
    let mark ← sign "&"
    let ts ← rest
    let second := Tokens.skip ts
    if Tokens.startsWord "raw" ts && (Tokens.startsWord "mut" second ||
        Tokens.startsWord "const" second) then
      let raw ← word "raw"
      let kind ← anyIdent
      return withAttributes attributes
        (.node .referenceExpr [mark, .node .raw [raw, kind], ← g.unary braces])
    let mut' := Tree.ofOption (← word? "mut")
    return withAttributes attributes (.node .referenceExpr [mark, mut', ← g.unary braces])
  match ["*", "!", "-"].find? fun s => Tokens.startsSign s ts with
  | some s => return withAttributes attributes (.node .unaryExpr [← sign s, ← g.unary braces])
  | none =>
    let e ← g.trailers (← g.atom braces)
    if !attributes.isEmpty && isRange e then
      fail (.rule "attributes are not allowed on range expressions starting with `..`")
    return withAttributes attributes e

/-- An expression that begins a statement or the body of an arm. It ends with its block unless a
trailer follows. -/
def leadingRule : Parser Tree := do
  let attributes ← g.exprAttributes
  let ts ← rest
  let e ←
    if Tokens.startsHidden ts then
      let e ← g.groupExpr true
      if goesOn e then g.trailers e else pure e
    else if startsBlockLike ts then g.blockLike
    else g.unary true
  let ts ← rest
  if goesOn e then g.operators (withAttributes attributes e) true Level.lowest
  else if startsDot ts || Tokens.startsSign "?" ts then
    g.operators (withAttributes attributes (← g.trailers e)) true Level.lowest
  else return withAttributes attributes e

end Grammar

end Courier.Code
