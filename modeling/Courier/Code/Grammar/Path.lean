import Courier.Code.Parser

/-!
Paths, attributes and visibilities. The rules that need types, expressions and the other
recursive parts of the grammar take them from a record of parsers.
-/
namespace Courier.Code

/-- The recursive parts of the grammar. -/
structure Grammar where
  /-- A type. `plus` admits a sum of bounds; `close` lets generic arguments follow a hidden group. -/
  type : (plus close : Bool) → Parser Tree
  /-- One bound of a sum. `capture` and `const` admit two special forms. -/
  bound : (capture const : Bool) → Parser Tree
  /-- An expression. `braces` admits a struct literal at the end of a path. -/
  expr : (braces : Bool) → Parser Tree
  /-- An expression whose outermost operator is unary. -/
  unary : (braces : Bool) → Parser Tree
  /-- The operators after an expression, down to a precedence. -/
  operators : (left : Tree) → (braces : Bool) → (level : Nat) → Parser Tree
  /-- The right operand of an operator that was extended so far. -/
  operand : (right : Tree) → (braces : Bool) → (level : Nat) → Parser Tree
  /-- Calls, fields and the like after an expression. -/
  trailers : (left : Tree) → Parser Tree
  /-- An expression that begins a statement or the body of an arm. -/
  leading : Parser Tree
  /-- A pattern without alternatives. -/
  pattern : Parser Tree
  /-- The branches of a conditional, from its keyword on. -/
  branches : Parser Tree
  /-- The statements of a block. -/
  statements : Parser (List Tree)
  /-- An item. -/
  item : Parser Tree
  /-- A tree of imported names; `root` admits a leading path separator. -/
  imports : (root : Bool) → Parser (Tree × Bool)

namespace Grammar
open Code.Parser

variable (g : Grammar)

/-- A type in a place that bounds. -/
def fullType : Parser Tree := g.type true true

/-- A type that no plus sign may extend. -/
def tightType : Parser Tree := g.type false true

/-- An expression without restriction. -/
def fullExpr : Parser Tree := g.expr true

/-- A braced block with its inner attributes. -/
def block (inner : Parser (List Tree)) : Parser Tree := do
  return .node .block [← grouped .brace do return (← inner) ++ (← g.statements)]

/-- A block that admits no inner attributes. -/
def plainBlock : Parser Tree := g.block (return [])

/-- A literal or block as generic argument. -/
def constArgument : Parser Tree := do
  if ← sees Tokens.startsLiteral then return .node .literalExpr [← literal]
  if ← sees (Tokens.startsGroup .brace) then return .node .blockExpr [Tree.none, ← g.plainBlock]
  missing "literal"

/-- Is the tree a path of one segment without a leading separator? -/
def isSingleName : Tree → Bool
  | .node .pathType [.node .path [.node .segment _]] => true
  | _ => false

def segmentOf : Tree → List Tree
  | .node .pathType [.node .path [.node .segment ps]] => ps
  | _ => []

/-- The arguments of a list, each with whether a comma follows it. -/
def pairs : List Tree → List (Tree × Bool)
  | [] => []
  | [t] => [(t, false)]
  | t :: .sign "," :: ts => (t, true) :: pairs ts
  | t :: ts => (t, false) :: pairs ts

def unpair (ts : List (Tree × Bool)) : List Tree :=
  ts.flatMap fun p => if p.2 then [p.1, .sign ","] else [p.1]

/-- The list with its lifetimes first, whatever the order it was written in. -/
def lifetimesFirst (isLifetime : Tree → Bool) (ts : List Tree) : List Tree :=
  let ps := pairs ts
  let first := ps.filter fun p => isLifetime p.1
  let others := ps.filter fun p => !isLifetime p.1
  let gap := match first.getLast?, others with
    | some (_, false), _ :: _ => [.sign ","]
    | _, _ => []
  unpair first ++ gap ++ unpair others

def isLifetimeArgument : Tree → Bool
  | .lifetime _ => true
  | _ => false

/-- A path of plain names, keywords that name modules included. -/
def modulePath : Parser Tree := do
  let lead ← sign? "::"
  let names ← segments
  if names.isEmpty then
    -- no segment at all: reading an identifier words the fault
    let _ ← ident
    return .none
  if names.getLast?.any (· matches .sign _) then
    fail (.rule "expected path segment after `::`")
  return .node .path (lead.toList ++ names)
where
  starts (ts : Tokens) : Bool :=
    Tokens.startsIdent ts || ["super", "self", "Self", "crate"].any fun w => Tokens.startsWord w ts
  segments : Parser (List Tree) :=
    iterate do
      if !(← sees starts) then return ([], false)
      let name := Tree.node .segment [← anyIdent]
      match ← sign? "::" with
      | some s => return ([name, s], true)
      | none => return ([name], false)

/-- A group of any brackets with its content not looked into. -/
def delimited : Parser Tree := do
  match Tokens.next? (← get) with
  | some (.group d body, r) => set r; return .token (.group d body)
  | _ => missing "delimiter"

/-- The value behind a name in an attribute: a literal that ends it, or an expression. -/
def attributeValue : Parser Tree := do
  match Tokens.literal? (← get) with
  | some (t, []) => set ([] : Tokens); return .node .literalExpr [.token t]
  | _ =>
    let ts ← rest
    -- an expression could begin with attributes, but not here
    if Tokens.startsSign "#" ts && Tokens.startsGroup .bracket (Tokens.skip ts) then
      fail (.rule "unexpected attribute inside of attribute")
    g.fullExpr

/-- The content of an attribute behind its path. -/
def metaAfter (path : Tree) : Parser Tree := do
  let ts ← rest
  if [.paren, .bracket, .brace].any fun d => Tokens.startsGroup d ts then
    return .node .metaList [path, ← delimited]
  match ← sign? "=" with
  | some s => return .node .metaValue [path, s, ← g.attributeValue]
  | none => return .node .metaPath [path]

def attributeContent : Parser Tree := do
  match ← word? "unsafe" with
  | some w => g.metaAfter (.node .path [.node .segment [w]])
  | none => g.metaAfter (← modulePath)

/-- An attribute of what follows. -/
def outerAttribute : Parser Tree := do
  return .node .attributeMark
    [← sign "#", ← grouped .bracket do return [← g.attributeContent]]

def outerAttributes : Parser (List Tree) :=
  manyWhile (Tokens.startsSign "#") g.outerAttribute

/-- An attribute of what it stands in. -/
def innerAttribute : Parser Tree := do
  return .node .attributeMark
    [← sign "#", ← sign "!", ← grouped .bracket do return [← g.attributeContent]]

def innerAttributes : Parser (List Tree) :=
  manyWhile (fun ts => Tokens.startsSign "#" ts && Tokens.startsSign "!" (Tokens.skip ts))
    g.innerAttribute

/-- A block that may begin with attributes of its own. -/
def fullBlock : Parser Tree := g.block g.innerAttributes

/-- An argument between angle brackets: a lifetime, a constant, a type, or what is said of an
associated item. -/
def genericArgument : Parser Tree := do
  let ts ← rest
  -- a lifetime with a plus sign behind it begins a sum of bounds, which is a type
  if Tokens.startsLifetime ts && !Tokens.startsSign "+" (Tokens.skip ts) then return ← lifetime
  if Tokens.startsLiteral ts || Tokens.startsGroup .brace ts then
    return .node .constArgument [← g.constArgument]
  let t ← g.fullType
  -- the type read so far may turn out to be the name of an associated item
  if isSingleName t then
    match ← sign? "=" with
    | some s =>
      let ts ← rest
      let value ←
        if Tokens.startsLiteral ts || Tokens.startsGroup .brace ts then
          pure (.node .constArgument [← g.constArgument])
        else g.fullType
      return .node .bindingArgument [.node .segment (segmentOf t), s, value]
    | none =>
      match ← sign? ":" with
      | some s =>
        let bounds ← iterate do
          if ← sees ends then return ([], false)
          let b ← g.bound false true
          if ← sees ends then return ([b], false)
          return ([b, ← sign "+"], true)
        return .node .constraintArgument (.node .segment (segmentOf t) :: s :: bounds)
      | none => return t
  else return t
where
  ends (ts : Tokens) : Bool := Tokens.startsSign "," ts || Tokens.startsSign ">" ts

/-- Arguments between angle brackets, behind an optional separator. -/
def angleArguments : Parser Tree := do
  let lead ← sign? "::"
  let opening ← sign "<"
  let arguments ← untilSign ">" "," g.genericArgument
  let closing ← sign ">"
  return .node .arguments
    (lead.toList ++ opening :: lifetimesFirst isLifetimeArgument arguments ++ [closing])

/-- A segment of a path. In an expression its arguments need the separator. -/
def segment (inExpr : Bool) : Parser Tree := do
  let ts ← rest
  if ["super", "self", "crate", "try"].any fun w => Tokens.startsWord w ts then
    return .node .segment [← anyIdent]
  let name ← if Tokens.startsWord "Self" ts then anyIdent else ident
  let ts ← rest
  let bare := Tokens.startsSign "<" ts && !Tokens.startsSign "<=" ts
  let marked := Tokens.startsSign "::" ts && Tokens.startsSign "<" (Tokens.skip (Tokens.skip ts))
  if (!inExpr && bare) || marked then
    return .node .segment [name, ← g.angleArguments]
  return .node .segment [name]

/-- Does another segment of a path follow? -/
def pathGoesOn (ts : Tokens) : Bool :=
  Tokens.startsSign "::" ts && !Tokens.startsGroup .paren (Tokens.skip (Tokens.skip ts))

def pathRest (inExpr : Bool) : Parser (List Tree) :=
  iterate do
    if !(← sees pathGoesOn) then return ([], false)
    return ([← sign "::", ← g.segment inExpr], true)

def path (inExpr : Bool) : Parser Tree := do
  let lead ← sign? "::"
  let first ← g.segment inExpr
  return .node .path (lead.toList ++ first :: (← g.pathRest inExpr))

/-- A path, possibly into a type given between angle brackets. -/
def qualifiedPath (inExpr : Bool) : Parser Tree := do
  match ← sign? "<" with
  | none => g.path inExpr
  | some opening =>
    let self ← g.fullType
    let trait ← match ← word? "as" with
      | some w => pure [w, ← g.path false]
      | none => pure []
    let closing ← sign ">"
    let separator ← sign "::"
    let first ← g.segment inExpr
    let others ← iterate do
      match ← sign? "::" with
      | none => return ([], false)
      | some s => return ([s, ← g.segment inExpr], true)
    return .node .qualified
      ([opening, self] ++ trait ++ [closing, separator, first] ++ others)

/-- Has no segment of the path arguments? -/
def isPlainPath : Tree → Bool
  | .node .path ps => ps.all fun
    | .node .segment [_] => true
    | .sign _ => true
    | _ => false
  | _ => false

/-- Does a macro's exclamation mark follow? -/
def startsBang (ts : Tokens) : Bool := Tokens.startsSign "!" ts && !Tokens.startsSign "!=" ts

/-- A visibility; nothing stands for the private one. -/
def visibility : Parser Tree := do
  match ← get with
  | .group .hidden [] :: r => set r; return .node .visibility []
  | _ =>
    match ← word? "pub" with
    | none => return .node .visibility []
    | some w =>
      match Tokens.next? (← get) with
      | some (.group .paren body, r) =>
        match Tokens.next? body with
        | some (.ident name, inner) =>
          if ["crate", "self", "super"].contains name then
            if inner.isEmpty then
              set r
              return .node .visibility [w, .group .paren [Tree.word name]]
            -- `pub (crate::T)` in a field by position: the parentheses are its type
            else return .node .visibility [w]
          else if name == "in" then
            let path ← all modulePath inner
            set r
            return .node .visibility [w, .group .paren [Tree.word name, path]]
          else return .node .visibility [w]
        | _ => return .node .visibility [w]
      | _ => return .node .visibility [w]

end Grammar

end Courier.Code
