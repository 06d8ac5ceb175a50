import Courier.Code.Grammar.Path

/-! Types, bounds and generic parameters. -/
namespace Courier.Code.Grammar
open Code.Parser

variable (g : Grammar)

/-- Elements separated by plus signs, as long as none of some marks follows. -/
def plusList (stop : Tokens → Bool) (p : Parser Tree) : Parser (List Tree) :=
  iterate do
    if ← sees stop then return ([], false)
    let t ← p
    match ← sign? "+" with
    | some s => return ([t, s], true)
    | none => return ([t], false)

/-- Bounds behind a colon, which is dropped with them when there are none. -/
def colonBounds (stop : Tokens → Bool) (p : Parser Tree) : Parser (List Tree) := do
  match ← sign? ":" with
  | none => return []
  | some s =>
    let bounds ← plusList stop p
    return if bounds.isEmpty then [] else s :: bounds

/-- Does a generic parameter end here? -/
def endsParameter (ts : Tokens) : Bool :=
  ts.isEmpty || [",", ">", "="].any fun s => Tokens.startsSign s ts

def parameter : Parser Tree := do
  let attributes ← g.outerAttributes
  let ts ← rest
  if Tokens.startsLifetime ts then
    let name ← lifetime
    return .node .parameter
      (.node .attributes attributes :: name :: (← colonBounds endsParameter lifetime))
  if Tokens.startsIdent ts || Tokens.startsWord "_" ts then
    let name ← anyIdent
    let bounds ← colonBounds endsParameter (g.bound false true)
    let default ← match ← sign? "=" with
      | some s => pure [s, ← g.fullType]
      | none => pure []
    return .node .parameter (.node .attributes attributes :: name :: bounds ++ default)
  if Tokens.startsWord "const" ts then
    let const ← word "const"
    let name ← ident
    let colon ← sign ":"
    let type ← g.fullType
    let default ← match ← sign? "=" with
      | some s => pure [s, ← g.constArgument]
      | none => pure []
    return .node .parameter ([.node .attributes attributes, const, name, colon, type] ++ default)
  missing "identifier"

def isLifetimeParameter : Tree → Bool
  | .node .parameter (_ :: .lifetime _ :: _) => true
  | _ => false

/-- The generic parameters of an item. An empty list is no list. -/
def parameters : Parser Tree := do
  match ← sign? "<" with
  | none => return Tree.none
  | some opening =>
    let ps ← untilSign ">" "," g.parameter
    let closing ← sign ">"
    if ps.isEmpty then return .node .parameters []
    return .node .parameters (opening :: lifetimesFirst isLifetimeParameter ps ++ [closing])

/-- Lifetimes bound in front of a type. -/
def binder : Parser Tree := do
  let for' ← word "for"
  let opening ← sign "<"
  let ps ← untilSign ">" "," g.parameter
  return .node .binder (for' :: opening :: ps ++ [← sign ">"])

def resultType (type : Parser Tree) : Parser Tree := do
  match ← sign? "->" with
  | some s => return .node .result [s, ← type]
  | none => return Tree.none

/-- The arguments and result of a callable bound. -/
def callArguments : Parser Tree := do
  let inputs ← grouped .paren (separated "," g.fullType)
  return .node .callArguments [inputs, ← resultType g.tightType]

/-- Has the last segment of the path no arguments? -/
def endsBare : Tree → Bool
  | .node .path ps => ps.getLast?.any fun
    | .node .segment [_] => true
    | _ => false
  | _ => false

def isAbsent : Tree → Bool
  | .node .absent [] => true
  | _ => false

/-- A trait as a bound, with the lifetimes bound for it and its modifiers. -/
def traitBound (const : Bool) : Parser Tree := do
  let lifetimes ← when (← seesWord "for") g.binder
  let mark ←
    if ← sees (Tokens.startsGroup .bracket) then
      let t ← grouped .bracket do return [← word "const"]
      if !const then fail (.rule "`[const]` is not allowed here")
      pure t
    else match ← word? "const" with
      | some w =>
        if !const then fail (.rule "`const` is not allowed here")
        pure w
      | none => pure Tree.none
  let question ← sign? "?"
  -- a binder behind a question mark is read only to be refused below
  let inner ← when (isAbsent lifetimes && question.isSome && (← seesWord "for")) g.binder
  let path ← g.path false
  let ts ← rest
  let call := Tokens.startsGroup .paren ts ||
    (Tokens.startsSign "::" ts && Tokens.startsGroup .paren (Tokens.skip (Tokens.skip ts)))
  let arguments ←
    if endsBare path && call then
      let _ ← sign? "::"
      g.callArguments
    else pure Tree.none
  if question.isSome && !(isAbsent lifetimes && isAbsent inner) then
    fail (.rule "`for<...>` binder not allowed with `?` trait polarity modifier")
  return .node .bound [lifetimes, mark, Tree.ofOption question, inner, path, arguments]

/-- A bound: a lifetime, a set of captured names, or a trait, possibly in parentheses. -/
def boundRule (capture const : Bool) : Parser Tree := do
  let ts ← rest
  if Tokens.startsLifetime ts then return ← lifetime
  if Tokens.startsWord "use" ts then
    let use ← word "use"
    let opening ← sign "<"
    let names ← untilSign ">" "," do
      if ← sees Tokens.startsLifetime then lifetime
      else if ← seesWord "Self" then anyIdent
      else ident
    let closing ← sign ">"
    if !capture then fail (.rule "`use<...>` precise capturing syntax is not allowed here")
    return .node .captured (use :: opening :: names ++ [closing])
  if Tokens.startsGroup .paren ts then
    return .node .bound [← grouped .paren do return [← g.traitBound const]]
  g.traitBound const

def startsBound (const : Bool) (ts : Tokens) : Bool :=
  Tokens.startsAnyIdent ts || Tokens.startsSign "::" ts || Tokens.startsSign "?" ts ||
    Tokens.startsLifetime ts || Tokens.startsGroup .paren ts ||
    (const && (Tokens.startsGroup .bracket ts || Tokens.startsWord "const" ts))

/-- The bounds of an object or opaque type. A plus sign may stand at their end. -/
def bounds (plus capture const : Bool) : Parser (List Tree) :=
  iterate do
    let b ← g.bound capture const
    if !plus then return ([b], false)
    match ← sign? "+" with
    | none => return ([b], false)
    | some s => return ([b, s], ← sees (startsBound const))

def hasTrait (bs : List Tree) : Bool := bs.any (Tree.isKind .bound)

def traitBounds (plus capture const : Bool) (complaint : String) : Parser (List Tree) := do
  let bs ← g.bounds plus capture const
  if hasTrait bs then return bs else fail (.rule complaint)

def objectBounds (plus : Bool) : Parser (List Tree) :=
  g.traitBounds plus false false "at least one trait is required for an object type"

/-- The bounds after a first one. -/
def moreBounds : Parser (List Tree) :=
  iterate do
    match ← sign? "+" with
    | none => return ([], false)
    | some s => return ([s, ← g.bound false false], true)

def argumentName (self : Bool) : Parser (List Tree) := do
  let ts ← rest
  let named := Tokens.startsIdent ts || Tokens.startsWord "_" ts ||
    (self && Tokens.startsWord "self" ts)
  let after := Tokens.skip ts
  if named && Tokens.startsSign ":" after && !Tokens.startsSign "::" after then
    return [← anyIdent, ← sign ":"]
  return []

/-- An argument of a function type. Only the first may be a receiver. -/
def functionArgument (self : Bool) : Parser Tree := do
  let ts ← rest
  let mutSelf (ts : Tokens) := self && Tokens.startsWord "mut" ts &&
    Tokens.startsWord "self" (Tokens.skip ts)
  -- a receiver that may change is no argument, and is kept as it is written
  if mutSelf ts then
    let mut' ← word "mut"
    let name ← argumentName self
    if name.isEmpty then return .node .raw [mut', ← word "self"]
    return .node .raw (mut' :: name ++ [← g.fullType])
  let name ← argumentName self
  let hasSelf := name.head? == some (Tree.word "self")
  if mutSelf (← rest) && !hasSelf then
    return .node .raw (name ++ [← word "mut", ← word "self"])
  return .node .functionArgument (name ++ [← g.fullType])

/-- An argument of a function type with its attributes, or the variadic one, which is the last. -/
def functionArgumentOrDots (self : Bool) : Parser (List Tree × Bool) := do
  if ← finished then return ([], false)
  let attributes ← g.outerAttributes
  let ts ← rest
  let after := Tokens.skip ts
  let named := Tokens.startsIdent ts || Tokens.startsWord "_" ts
  if Tokens.startsSign "..." ts ||
      (named && Tokens.startsSign ":" after && Tokens.startsSign "..." (Tokens.skip after)) then
    let name ← if named then pure [← anyIdent, ← sign ":"] else pure []
    let dots ← sign "..."
    let comma ← sign? ","
    return ([.node .variadic (.node .attributes attributes :: name ++ dots :: comma.toList)], false)
  let argument ← g.functionArgument self
  let argument := if attributes.isEmpty then argument
    else .node .functionArgument (.node .attributes attributes :: argument.parts)
  if ← finished then return ([argument], false)
  return ([argument, ← sign ","], true)

def functionArguments : Parser (List Tree) := do
  let (first, more) ← g.functionArgumentOrDots true
  if more then return first ++ (← iterate (g.functionArgumentOrDots false)) else return first

def convention : Parser (List Tree) := do
  match ← word? "extern" with
  | none => return []
  | some w =>
    match Tokens.next? (← get) with
    | some (.literal text, r) =>
      if Tokens.isString text then
        set r
        return [w, .token (.literal text)]
      else return [w]
    | _ => return [w]

/-- A function type, behind the lifetimes bound for it. -/
def functionType (lifetimes : Tree) : Parser Tree := do
  let lifetimes ← if isAbsent lifetimes && (← seesWord "for") then g.binder else pure lifetimes
  let unsafe' := Tree.ofOption (← word? "unsafe")
  let convention ← convention
  let fn ← word "fn"
  let inputs ← grouped .paren g.functionArguments
  return .node .functionType
    [lifetimes, unsafe', .node .raw convention, fn, inputs, ← resultType g.tightType]

/-- The segments of a path that arguments were added to. -/
def addArguments (arguments : Tree) : List Tree → List Tree
  | [] => []
  | [.node .segment ps] => [.node .segment (ps ++ [arguments])]
  | t :: ts => t :: addArguments arguments ts

/-- A type bound together by a hidden group, and what follows it. -/
def groupType (close : Bool) : Parser Tree := do
  let inner ← hidden g.fullType
  let ts ← rest
  let third := Tokens.skip (Tokens.skip ts)
  -- the path in the group goes on behind it; any other type becomes the start of a path
  if Tokens.startsSign "::" ts && Tokens.startsAnyIdent third then
    match inner with
    | .node .pathType [.node k ps] =>
      return .node .pathType [.node k (ps ++ (← g.pathRest false))]
    | _ =>
      let path ← g.path false
      return .node .pathType
        [.node .qualified (.sign "<" :: inner :: .sign ">" :: path.parts)]
  if (Tokens.startsSign "<" ts && close) ||
      (Tokens.startsSign "::" ts && Tokens.startsSign "<" third) then
    match inner with
    | .node .pathType [.node k ps] =>
      match ps.getLast? with
      | some (.node .segment [_]) =>
        let arguments ← g.angleArguments
        return .node .pathType
          [.node k (addArguments arguments ps ++ (← g.pathRest false))]
      | _ => fail .unexpected
    | _ => pure ()
  return .node .groupType [.group .hidden [inner]]

/-- What the first type in parentheses gives as a bound of a sum. -/
def parenthesizedBound : Tree → Option Tree
  | .node .pathType [.node .path ps] =>
    some (.node .bound [.group .paren [.node .path ps]])
  | .node .objectType [.node .absent [], b] =>
    some (if b.isKind .bound then .node .bound [.group .paren [b]] else b)
  | _ => none

/-- A type that begins with a parenthesis. -/
def parenthesizedType (plus : Bool) : Parser Tree := do
  match Tokens.next? (← get) with
  | some (.group .paren body, r) =>
    set r
    if body.isEmpty then return .node .tupleType [.group .paren []]
    if Tokens.startsLifetime body then
      let bs ← liftM (all (g.objectBounds true) body)
      return .node .parenType [.group .paren [.node .objectType (Tree.none :: bs)]]
    if Tokens.startsSign "?" body then
      let b ← liftM (all (g.traitBound false) body)
      return .node .objectType
        (Tree.none :: .node .bound [.group .paren [b]] :: (← g.moreBounds))
    -- what follows the first type tells a tuple from parentheses, and these may begin a sum
    let (first, content) ← liftM (g.fullType.run body)
    if Tokens.startsSign "," content then
      let others ← liftM (all (do
        let comma ← sign ","
        return comma :: (← separated "," g.fullType)) content)
      return .node .tupleType [.group .paren (first :: others)]
    if !content.isEmpty then fail .unexpected
    if plus && (← seesSign "+") then
      match parenthesizedBound first with
      | some b => return .node .objectType (Tree.none :: b :: (← g.moreBounds))
      | none => pure ()
    return .node .parenType [.group .paren [first]]
  | _ => missing (bracketName .paren)

/-- What a type may begin with. -/
def typeBeginnings : List String :=
  ["`for`", "parentheses", "`fn`", "`unsafe`", "`extern`", "identifier", "`::`", "`<`", "`dyn`",
   "square brackets", "`*`", "`&`", "`!`", "`impl`", "`_`", "lifetime"]

/-- A type that begins with a path. -/
def namedType (plus : Bool) (lifetimes : Tree) : Parser Tree := do
  let path ← g.qualifiedPath false
  if path.isKind .qualified then return .node .pathType [path]
  if (← sees startsBang) && isPlainPath path then
    return .node .macroType [path, ← sign "!", ← delimited]
  if !isAbsent lifetimes || (plus && (← seesSign "+")) then
    let first := Tree.node .bound [lifetimes, Tree.none, Tree.none, Tree.none, path, Tree.none]
    let others ← iterate do
      if !plus then return ([], false)
      match ← sign? "+" with
      | none => return ([], false)
      | some s =>
        if ← sees (startsBound false) then return ([s, ← g.bound false false], true)
        else return ([s], false)
    return .node .objectType (Tree.none :: first :: others)
  return .node .pathType [path]

def typeRule (plus close : Bool) : Parser Tree := do
  if ← sees Tokens.startsHidden then return ← g.groupType close
  let lifetimes ← when (← seesWord "for") g.binder
  let ts ← rest
  let named := Tokens.startsIdent ts ||
    (["super", "self", "Self", "crate"].any fun w => Tokens.startsWord w ts)
  let callable := ["fn", "unsafe", "extern"].any fun w => Tokens.startsWord w ts
  if !isAbsent lifetimes && !named && !callable then missing "identifier"
  if Tokens.startsGroup .paren ts then g.parenthesizedType plus
  else if callable then g.functionType lifetimes
  else if named || Tokens.startsSign "::" ts || Tokens.startsSign "<" ts then
    g.namedType plus lifetimes
  else if Tokens.startsWord "dyn" ts then
    let dyn ← word "dyn"
    match ← sign? "*" with
    | some star => return .node .raw (dyn :: star :: (← g.objectBounds plus))
    | none => return .node .objectType (dyn :: (← g.objectBounds plus))
  else if Tokens.startsGroup .bracket ts then
    let content ← grouped .bracket do
      let element ← g.fullType
      match ← sign? ";" with
      | some s => return [element, s, ← g.fullExpr]
      | none => return [element]
    return .node (if content.parts.length = 1 then .sliceType else .arrayType) [content]
  else if Tokens.startsSign "*" ts then
    let star ← sign "*"
    let kind ← match ← word? "const" with
      | some w => pure w
      | none =>
        match ← word? "mut" with
        | some w => pure w
        | none => missing "`const` or `mut`"
    return .node .pointerType [star, kind, ← g.tightType]
  else if Tokens.startsSign "&" ts then
    let mark ← sign "&"
    let life := Tree.ofOption (← lifetime?)
    let mut' := Tree.ofOption (← word? "mut")
    return .node .referenceType [mark, life, mut', ← g.tightType]
  else if Tokens.startsSign "!" ts && !Tokens.startsSign "=" ts then
    return .node .neverType [← sign "!"]
  else if Tokens.startsWord "impl" ts then
    let impl ← word "impl"
    return .node .implType
      (impl :: (← g.traitBounds plus true true "at least one trait must be specified"))
  else if Tokens.startsWord "_" ts then return .node .inferType [← word "_"]
  else if Tokens.startsLifetime ts then
    return .node .objectType (Tree.none :: (← g.objectBounds true))
  else fail (.expectedOneOf typeBeginnings (Tokens.atEnd ts))

def endsWhere (ts : Tokens) : Bool :=
  ts.isEmpty || Tokens.startsGroup .brace ts ||
    ([",", ";", "="].any fun s => Tokens.startsSign s ts) ||
    (Tokens.startsSign ":" ts && !Tokens.startsSign "::" ts)

/-- A requirement on a type or lifetime. -/
def predicate : Parser Tree := do
  let ts ← rest
  if Tokens.startsLifetime ts && Tokens.startsSign ":" (Tokens.skip ts) then
    let name ← lifetime
    let colon ← sign ":"
    return .node .predicate (Tree.none :: name :: colon :: (← plusList endsWhere lifetime))
  let lifetimes ← when (← seesWord "for") g.binder
  let type ← g.fullType
  let colon ← sign ":"
  return .node .predicate
    (lifetimes :: type :: colon :: (← plusList endsWhere (g.bound false true)))

/-- The requirements of an item. The keyword alone is dropped. -/
def whereClause : Parser Tree := do
  match ← word? "where" with
  | none => return Tree.none
  | some w =>
    let ps ← iterate do
      if ← sees endsWhere then return ([], false)
      let p ← g.predicate
      match ← sign? "," with
      | some s => return ([p, s], true)
      | none => return ([p], false)
    if ps.isEmpty then return Tree.none
    return .node .whereClause (w :: ps)

end Courier.Code.Grammar
