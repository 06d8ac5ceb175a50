import Courier.Code.Grammar.Type

/-! Patterns. -/
namespace Courier.Code.Grammar
open Code.Parser

variable (g : Grammar)

/-- Does an alternative of a pattern follow? -/
def startsAlternative (ts : Tokens) : Bool :=
  Tokens.startsSign "|" ts && !Tokens.startsSign "||" ts && !Tokens.startsSign "|=" ts

/-- A pattern with alternatives, the first of which may have a bar of its own. -/
def alternatives : Parser Tree := do
  let lead ← sign? "|"
  let first ← g.pattern
  let others ← iterate do
    if !(← sees startsAlternative) then return ([], false)
    return ([← sign "|", ← g.pattern], true)
  if lead.isNone && others.isEmpty then return first
  return .node .orPattern (lead.toList ++ first :: others)

/-- The mark of a range in a pattern. -/
def rangeMark : Parser Tree := do
  match ← sign? "..=" with
  | some s => return s
  | none =>
    match ← sign? "..." with
    | some s => return s
    | none => sign ".."

/-- Does a pattern's range end without a bound? -/
def endsRange (ts : Tokens) : Bool :=
  ts.isEmpty || (["|", "=", ",", ";"].any fun s => Tokens.startsSign s ts) ||
    (Tokens.startsSign ":" ts && !Tokens.startsSign "::" ts) || Tokens.startsWord "if" ts

def startsPath (ts : Tokens) : Bool :=
  Tokens.startsIdent ts || Tokens.startsSign "::" ts || Tokens.startsSign "<" ts ||
    ["self", "Self", "super", "crate"].any fun w => Tokens.startsWord w ts

/-- The bound of a range in a pattern, if there is one. -/
def rangeBound : Parser Tree := do
  let ts ← rest
  if endsRange ts then return Tree.none
  if Tokens.startsLiteral ts then return .node .literalPattern [← literal]
  if startsPath ts then return .node .pathPattern [← g.qualifiedPath true]
  if Tokens.startsWord "const" ts then return .node .constPattern [← word "const", ← g.fullBlock]
  missing "literal"

/-- The rest of a range behind its lower bound. -/
def rangeFrom (start : Tree) : Parser Tree := do
  let mark ← rangeMark
  let stop ← g.rangeBound
  if isAbsent stop && !(mark == .sign "..") then fail (.rule "expected range upper bound")
  return .node .rangePattern [start, mark, stop]

/-- A field in a struct pattern, or the rest of the fields. -/
def fieldPattern : Parser (List Tree × Bool) := do
  if ← finished then return ([], false)
  let attributes ← g.outerAttributes
  match ← sign? ".." with
  | some s => return ([.node .restPattern [.node .attributes attributes, s]], false)
  | none =>
    -- a field by position has no marks, and always a pattern
    let marks ← manyWord ["box", "ref", "mut"]
    let member ← if marks.isEmpty then
        (match Tokens.literal? (← get) with
          | some (.literal text, r) =>
            if Tokens.isNumber text then do set r; return .token (.literal text)
            else missing "identifier or integer"
          | _ => ident)
      else ident
    let numbered := match member with
      | .token (.literal _) => true
      | _ => false
    let field ←
      if (marks.isEmpty && (← seesSign ":")) || numbered then
        pure [member, ← sign ":", ← g.alternatives]
      else pure (marks ++ [member])
    let t := Tree.node .fieldPattern (.node .attributes attributes :: field)
    if ← finished then return ([t], false)
    return ([t, ← sign ","], true)
where
  manyWord : List String → Parser (List Tree)
    | [] => return []
    | w :: ws => do
      match ← word? w with
      | some t => return t :: (← manyWord ws)
      | none => manyWord ws

def pathPattern : Parser Tree := do
  let path ← g.qualifiedPath true
  let ts ← rest
  if startsBang ts && isPlainPath path then
    return .node .macroPattern [path, ← sign "!", ← delimited]
  if Tokens.startsGroup .brace ts then
    return .node .structPattern [path, ← grouped .brace (iterate g.fieldPattern)]
  if Tokens.startsGroup .paren ts then
    return .node .tuplePattern [path, ← grouped .paren (separated "," g.alternatives)]
  if Tokens.startsSign ".." ts then g.rangeFrom (.node .pathPattern [path])
  else return .node .pathPattern [path]

/-- A name that is bound, and the pattern behind an at sign. -/
def namePattern : Parser Tree := do
  let ref := Tree.ofOption (← word? "ref")
  let mut' := Tree.ofOption (← word? "mut")
  let name ← if ← seesWord "self" then anyIdent else ident
  let sub ← match ← sign? "@" with
    | some s => pure [s, ← g.pattern]
    | none => pure []
  return .node .namePattern ([ref, mut', name] ++ sub)

/-- A pattern in parentheses, or a tuple of patterns. -/
def parenthesizedPattern : Parser Tree := do
  let content ← grouped .paren (separated "," g.alternatives)
  match content.parts with
  -- `(..)` leaves out the elements of a tuple, all others are only put in parentheses
  | [p] => return .node (if p.isKind .restPattern then .tuplePattern else .parenPattern) [content]
  | _ => return .node .tuplePattern [content]

/-- Elements of a slice pattern; a range among them has both bounds. -/
def sliceElement : Parser Tree := do
  let p ← g.alternatives
  match p with
  | .node .rangePattern [a, _, b] =>
    if isAbsent a || isAbsent b then
      fail (.rule "range pattern is not allowed unparenthesized inside slice pattern")
    else return p
  | _ => return p

/-- A pattern without alternatives. -/
def patternRule : Parser Tree := do
  let ts ← rest
  let after := Tokens.skip ts
  let extended := Tokens.startsSign "::" after || Tokens.startsSign "!" after ||
    Tokens.startsGroup .brace after || Tokens.startsGroup .paren after ||
    Tokens.startsSign ".." after
  if (Tokens.startsIdent ts && extended) ||
      (Tokens.startsWord "self" ts && Tokens.startsSign "::" after) ||
      Tokens.startsSign "::" ts || Tokens.startsSign "<" ts ||
      (["Self", "super", "crate"].any fun w => Tokens.startsWord w ts) then
    g.pathPattern
  else if Tokens.startsWord "_" ts then return .node .wildPattern [← word "_"]
  else if Tokens.startsWord "box" ts then
    return .node .boxPattern [← word "box", ← g.pattern]
  else if Tokens.startsSign "-" ts || Tokens.startsLiteral ts || Tokens.startsWord "const" ts then
    let start ← g.rangeBound
    if ← seesSign ".." then g.rangeFrom start else return start
  else if Tokens.startsIdent ts || (["ref", "mut", "self"].any fun w => Tokens.startsWord w ts) then
    g.namePattern
  else if Tokens.startsSign "&" ts then
    let mark ← sign "&"
    let mut' := Tree.ofOption (← word? "mut")
    return .node .referencePattern [mark, mut', ← g.pattern]
  else if Tokens.startsGroup .paren ts then g.parenthesizedPattern
  else if Tokens.startsGroup .bracket ts then
    return .node .slicePattern [← grouped .bracket (separated "," g.sliceElement)]
  else if Tokens.startsSign ".." ts && !Tokens.startsSign "..." ts then
    let mark ← rangeMark
    let stop ← g.rangeBound
    if isAbsent stop then
      if mark == .sign ".." then return .node .restPattern [Tree.none, mark]
      else fail (.rule "expected range upper bound")
    return .node .rangePattern [Tree.none, mark, stop]
  else missing "identifier"

end Courier.Code.Grammar
