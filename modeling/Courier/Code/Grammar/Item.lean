import Courier.Code.Grammar.Expr

/-! Items. Those of a form that the grammar does not describe further are kept as they are written. -/
namespace Courier.Code

namespace Tokens

mutual
/-- A token with the hidden groups around it taken off. -/
def flatToken : Token → Tokens
  | .group .hidden body => flat body
  | t => [t]

/-- A stream without hidden groups at its top. -/
def flat : Tokens → Tokens
  | [] => []
  | t :: ts => flatToken t ++ flat ts
end

/-- What stands in front of the tokens that are left. -/
def upTo (left all : Tokens) : Tokens := (flat all).take ((flat all).length - (flat left).length)

end Tokens

namespace Grammar
open Code.Parser

variable (g : Grammar)

/-- An item read from a place on, kept as it is written. -/
def verbatim (start : Tokens) : Parser Tree := do
  return .node .verbatimItem [Tree.raw (Tokens.upTo (← rest) start)]

/-- Can a path of plain names begin here? -/
def startsModulePath (ts : Tokens) : Bool :=
  Tokens.startsIdent ts || Tokens.startsSign "::" ts ||
    ["self", "super", "crate"].any fun w => Tokens.startsWord w ts

/-- A name, or an underscore in its place. -/
def nameOrBlank : Parser Tree := do
  if ← seesWord "_" then anyIdent else ident

/-- A name that may also be `try`. -/
def nameOrTry : Parser Tree := do
  if ← seesWord "try" then anyIdent else ident

/-! ## Functions -/

def startsSignature (safe : Bool) (ts : Tokens) : Bool :=
  let drop (w : String) (ts : Tokens) := if Tokens.startsWord w ts then Tokens.skip ts else ts
  let ts := drop "async" (drop "const" ts)
  let ts := if safe && Tokens.startsWord "safe" ts then Tokens.skip ts else drop "unsafe" ts
  let ts := if Tokens.startsWord "extern" ts then
      let r := Tokens.skip ts
      match Tokens.next? r with
      | some (.literal text, r') => if Tokens.isString text then r' else r
      | _ => r
    else ts
  Tokens.startsWord "fn" ts

def receiver : Parser Tree := do
  let reference ← sign? "&"
  let life ← if reference.isSome then lifetime? else pure none
  let mut' ← word? "mut"
  let self ← word "self"
  let type ← if reference.isNone && (← seesSign ":") then pure [← sign ":", ← g.fullType]
    else pure []
  return .node .receiver
    ([Tree.ofOption reference, Tree.ofOption life, Tree.ofOption mut', self] ++ type)

/-- An input of a function. Says with it whether others may follow. -/
def input (first : Bool) : Parser (List Tree × Bool) := do
  if ← finished then return ([], false)
  let attributes := Tree.node .attributes (← g.outerAttributes)
  let endsHere (t : Tree) : Parser (List Tree × Bool) := do
    if ← finished then return ([t], false) else return ([t, ← sign ","], false)
  match ← sign? "..." with
  | some dots => endsHere (.node .variadic [attributes, dots])
  | none =>
    let next (t : Tree) : Parser (List Tree × Bool) := do
      if ← finished then return ([t], false) else return ([t, ← sign ","], true)
    -- a receiver can only be told from a pattern by reading it
    match ← attempt g.receiver with
    | some r =>
      if first then next (.node .input [attributes, r])
      else fail (.rule "unexpected method receiver")
    | none =>
      let ts ← rest
      if Tokens.startsIdent ts && Tokens.startsSign "<" (Tokens.skip ts) then
        -- an input that is a type alone, as older traits have it, gets a blank name
        next (.node .input [attributes, Tree.word "_", .sign ":", ← g.fullType])
      else
        let pattern ← g.pattern
        let colon ← sign ":"
        match ← sign? "..." with
        | some dots => endsHere (.node .variadic [attributes, pattern, colon, dots])
        | none => next (.node .input [attributes, pattern, colon, ← g.fullType])

def inputs : Parser (List Tree) := do
  let (first, more) ← g.input true
  if more then return first ++ (← iterate (g.input false)) else return first

def signature (safe : Bool) : Parser Tree := do
  let const := Tree.ofOption (← word? "const")
  let async := Tree.ofOption (← word? "async")
  let unsafe' ← if safe && (← seesWord "safe") then anyIdent
    else Tree.ofOption <$> word? "unsafe"
  let convention ← convention
  let fn ← word "fn"
  let name ← ident
  let parameters ← g.parameters
  let inputs ← grouped .paren g.inputs
  let result ← resultType g.fullType
  return .node .signature [const, async, unsafe', .node .raw convention, fn, name, parameters,
    inputs, result, ← g.whereClause]

/-- A function behind its attributes and visibility: a body, or nothing but a semicolon. -/
def functionRest (attributes visibility : Tree) (modifier : Tree) (safe : Bool) : Parser Tree := do
  let signature ← g.signature safe
  let body ← match ← sign? ";" with
    | some s => pure s
    | none => g.fullBlock
  return .node .functionItem [attributes, visibility, modifier, signature, body]

def hasBody : Tree → Bool
  | .node .functionItem ps => ps.getLast?.any (Tree.isKind .block)
  | _ => false

/-! ## Constants and type aliases -/

/-- A constant behind its visibility. The value may be left out. -/
def constRest (attributes visibility modifier : Tree) : Parser Tree := do
  let const ← word "const"
  let name ← nameOrBlank
  let parameters ← g.parameters
  let colon ← sign ":"
  let type ← g.fullType
  let value ← match ← sign? "=" with
    | some s => pure [s, ← g.fullExpr]
    | none => pure []
  let requirements ← g.whereClause
  let semi ← sign ";"
  return .node .constItem
    ([attributes, visibility, modifier, const, name, parameters, colon, type] ++ value ++
      [requirements, semi])

/-- A type with bounds, a definition and requirements, each of which may be left out. -/
def typeRest (attributes visibility modifier : Tree) (before after : Bool) : Parser Tree := do
  let type ← word "type"
  let name ← ident
  let parameters ← g.parameters
  let ends (ts : Tokens) := Tokens.startsWord "where" ts || Tokens.startsSign "=" ts ||
    Tokens.startsSign ";" ts
  let bounds ← match ← sign? ":" with
    | none => pure Tree.none
    | some colon =>
      let bs ← boundList ends
      pure (.node .raw (colon :: bs))
  let requirements ← when before g.whereClause
  let definition ← match ← sign? "=" with
    | some s => pure [s, ← g.fullType]
    | none => pure []
  let later ← when (after && isAbsent requirements) g.whereClause
  let semi ← sign ";"
  return .node .typeItem
    ([attributes, visibility, modifier, type, name, parameters, bounds, requirements] ++ definition ++
      [later, semi])
where
  boundList (ends : Tokens → Bool) : Parser (List Tree) :=
    iterate do
      if ← sees ends then return ([], false)
      let b ← g.bound false true
      if ← sees ends then return ([b], false)
      return ([b, ← sign "+"], true)

/-- A type alias of a module is a definition without bounds. -/
def isPlainAlias : Tree → Bool
  | .node .typeItem [_, _, _, _, _, _, bounds, _, .sign "=", _, _, _] => isAbsent bounds
  | _ => false

/-! ## Macros -/

/-- A macro call as an item. A semicolon follows unless it is in braces. -/
def macroItem (attributes : Tree) (named : Bool) : Parser Tree := do
  let path ← modulePath
  let mark ← sign "!"
  let ts ← rest
  let name ← if named && (Tokens.startsIdent ts || Tokens.startsWord "try" ts) then anyIdent
    else pure Tree.none
  let body ← delimited
  let braced := match body with
    | .token (.group .brace _) => true
    | _ => false
  let semi ← if braced then pure [] else pure [← sign ";"]
  return .node .macroItem ([attributes, path, mark, name, body] ++ semi)

/-! ## Structs, enums and unions -/

def namedField : Parser Tree := do
  let attributes := Tree.node .attributes (← g.outerAttributes)
  let visibility ← visibility
  let blank ← seesWord "_"
  let name ← nameOrBlank
  let colon ← sign ":"
  let ts ← rest
  let type ←
    if blank && (Tokens.startsWord "struct" ts ||
        (Tokens.startsWord "union" ts && Tokens.startsGroup .brace (Tokens.skip ts))) then
      let word ← anyIdent
      pure (.node .raw [word, ← delimited])
    else g.fullType
  return .node .field [attributes, visibility, name, colon, type]

/-- A field by position. -/
def plainField : Parser Tree := do
  let attributes := Tree.node .attributes (← g.outerAttributes)
  return .node .field [attributes, ← visibility, ← g.fullType]

def namedFields : Parser Tree := do
  return .node .fields [← grouped .brace (separated "," g.namedField)]

def plainFields : Parser Tree := do
  return .node .fields [← grouped .paren (separated "," g.plainField)]

/-- A struct behind its visibility. -/
def structRest (attributes visibility : Tree) : Parser Tree := do
  let struct ← word "struct"
  let name ← ident
  let parameters ← g.parameters
  let written ← seesWord "where"
  let requirements ← g.whereClause
  let ts ← rest
  let head := [attributes, visibility, struct, name, parameters, requirements]
  -- requirements stand in front of named fields, but behind fields by position
  if !written && Tokens.startsGroup .paren ts then
    let fields ← g.plainFields
    let later ← g.whereClause
    return .node .structItem (head ++ [fields, later, ← sign ";"])
  if Tokens.startsGroup .brace ts then
    return .node .structItem (head ++ [← g.namedFields, Tree.none, Tree.none])
  return .node .structItem (head ++ [Tree.none, Tree.none, ← sign ";"])

/-- A variant of an enum. Its visibility is dropped. -/
def variant : Parser Tree := do
  let attributes := Tree.node .attributes (← g.outerAttributes)
  let _ ← visibility
  let name ← ident
  let ts ← rest
  let fields ←
    if Tokens.startsGroup .brace ts then g.namedFields
    else if Tokens.startsGroup .paren ts then g.plainFields
    else pure Tree.none
  let value ← match ← sign? "=" with
    | some s => pure [s, ← g.fullExpr]
    | none => pure []
  return .node .variant ([attributes, name, fields] ++ value)

def enumRest (attributes visibility : Tree) : Parser Tree := do
  let enum ← word "enum"
  let name ← ident
  let parameters ← g.parameters
  let requirements ← g.whereClause
  return .node .enumItem [attributes, visibility, enum, name, parameters, requirements,
    ← grouped .brace (separated "," g.variant)]

def unionRest (attributes visibility : Tree) : Parser Tree := do
  let union ← word "union"
  let name ← ident
  let parameters ← g.parameters
  let requirements ← g.whereClause
  return .node .unionItem
    [attributes, visibility, union, name, parameters, requirements, ← g.namedFields]

/-! ## Traits -/

def traitMember : Parser Tree := do
  let attributes := Tree.node .attributes (← g.outerAttributes)
  let visibility ← visibility
  let modifier := Tree.ofOption (← word? "default")
  let ts ← rest
  if startsSignature false ts then g.functionRest attributes visibility modifier false
  else if Tokens.startsWord "const" ts then g.constRest attributes visibility modifier
  else if Tokens.startsWord "type" ts then g.typeRest attributes visibility modifier false true
  else if visibility.parts.isEmpty && isAbsent modifier && startsModulePath ts then
    macroItem attributes false
  else missing "trait item"

/-- The items between a trait's braces, behind its attributes. -/
def members (p : Parser Tree) : Parser Tree :=
  grouped .brace do return (← g.innerAttributes) ++ (← many p)

/-- The bounds of a trait or alias up to a mark. -/
def superBounds (ends : Tokens → Bool) : Parser (List Tree) :=
  iterate do
    if ← sees ends then return ([], false)
    let b ← g.bound false true
    if ← sees ends then return ([b], false)
    return ([b, ← sign "+"], true)

/-- A trait, or an alias for bounds, behind its visibility. -/
def traitRest (attributes visibility : Tree) : Parser Tree := do
  let unsafe' := Tree.ofOption (← word? "unsafe")
  let auto := Tree.ofOption (← word? "auto")
  let trait ← word "trait"
  let name ← ident
  let parameters ← g.parameters
  if isAbsent unsafe' && isAbsent auto && (← seesSign "=") then
    let mark ← sign "="
    let bounds ← g.superBounds fun ts => Tokens.startsWord "where" ts || Tokens.startsSign ";" ts
    let requirements ← g.whereClause
    return .node .aliasItem ([attributes, visibility, trait, name, parameters, mark] ++ bounds ++
      [requirements, ← sign ";"])
  let supers ← match ← sign? ":" with
    | none => pure []
    | some colon => pure (colon :: (← g.superBounds fun ts =>
        Tokens.startsWord "where" ts || Tokens.startsGroup .brace ts))
  let requirements ← g.whereClause
  return .node .traitItem ([attributes, visibility, unsafe', auto, trait, name, parameters,
    .node .raw supers, requirements, ← g.members g.traitMember])

/-! ## Implementations -/

/-- Do the parameters of an implementation begin here, and not a path into a type? -/
def startsParameters (ts : Tokens) : Bool :=
  let second := Tokens.skip ts
  let third := Tokens.skip second
  Tokens.startsSign "<" ts &&
    (Tokens.startsSign ">" second || Tokens.startsSign "#" second ||
      Tokens.startsWord "const" second ||
      ((Tokens.startsLifetime second || Tokens.startsIdent second) &&
        [":", ",", ">", "="].any fun s => Tokens.startsSign s third))

def implMember : Parser Tree := do
  let attributes := Tree.node .attributes (← g.outerAttributes)
  let visibility ← visibility
  let ts ← rest
  let modifier ←
    if Tokens.startsWord "default" ts && !Tokens.startsSign "!" (Tokens.skip ts) then anyIdent
    else pure Tree.none
  let ts ← rest
  if startsSignature false ts then g.functionRest attributes visibility modifier false
  else if Tokens.startsWord "const" ts then g.constRest attributes visibility modifier
  else if Tokens.startsWord "type" ts then g.typeRest attributes visibility modifier false true
  else if visibility.parts.isEmpty && isAbsent modifier && startsModulePath ts then
    macroItem attributes false
  else missing "item of an implementation"

def traitPath? : Tree → Option Tree
  | .node .pathType [.node .path ps] => some (.node .path ps)
  | .node .groupType [.group .hidden [t]] => traitPath? t
  | _ => none

/-- An implementation behind its attributes. Nothing is given for a form that has no tree. -/
def implRest (attributes : Tree) : Parser (Option Tree) := do
  let visibility ← visibility
  let modifier := Tree.ofOption (← word? "default")
  let unsafe' := Tree.ofOption (← word? "unsafe")
  let impl ← word "impl"
  let parameters ← when (← sees startsParameters) g.parameters
  let ts ← rest
  let isConst := Tokens.startsWord "const" ts ||
    (Tokens.startsSign "?" ts && Tokens.startsWord "const" (Tokens.skip ts))
  if isConst then
    let _ ← sign? "?"
    let _ ← word "const"
  let ts ← rest
  let negative ←
    if Tokens.startsSign "!" ts && !Tokens.startsGroup .brace (Tokens.skip ts) then
      some <$> sign "!"
    else pure none
  let first ← g.fullType
  let (header, described) ← match ← word? "for" with
    | some w =>
      let trait := traitPath? first
      let path := trait.getD first
      pure ([Tree.ofOption negative, path, w, ← g.fullType], trait.isSome)
    | none =>
      let self := match negative with
        | some mark => .node .raw [mark, first]
        | none => first
      pure ([Tree.none, Tree.none, Tree.none, self], true)
  let requirements ← g.whereClause
  let body ← g.members g.implMember
  if !visibility.parts.isEmpty || isConst || !described then return none
  return some (.node .implItem
    ([attributes, modifier, unsafe', impl, parameters] ++ header ++ [requirements, body]))

/-! ## Modules, imports and foreign items -/

def moduleRest (attributes visibility : Tree) : Parser Tree := do
  let unsafe' := Tree.ofOption (← word? "unsafe")
  let mod ← word "mod"
  let name ← nameOrTry
  let body ← match ← sign? ";" with
    | some s => pure s
    | none => g.members g.item
  return .node .moduleItem [attributes, visibility, unsafe', mod, name, body]

def externCrateRest (attributes visibility : Tree) : Parser Tree := do
  let extern' ← word "extern"
  let crate ← word "crate"
  let name ← if ← seesWord "self" then anyIdent else ident
  let renamed ← match ← word? "as" with
    | some w => pure [w, ← nameOrBlank]
    | none => pure []
  return .node .externCrateItem
    ([attributes, visibility, extern', crate, name] ++ renamed ++ [← sign ";"])

def foreignMember : Parser Tree := do
  let attributes := Tree.node .attributes (← g.outerAttributes)
  let visibility ← visibility
  let ts ← rest
  let second := Tokens.skip ts
  if startsSignature true ts then g.functionRest attributes visibility Tree.none true
  else if Tokens.startsWord "static" ts ||
      ((Tokens.startsWord "unsafe" ts || Tokens.startsWord "safe" ts) &&
        Tokens.startsWord "static" second) then
    let modifier ← if Tokens.startsWord "static" ts then pure Tree.none else anyIdent
    let static ← word "static"
    let mut' := Tree.ofOption (← word? "mut")
    let name ← ident
    let colon ← sign ":"
    let type ← g.fullType
    let value ← match ← sign? "=" with
      | some s => pure [s, ← g.fullExpr]
      | none => pure []
    return .node .staticItem
      ([attributes, visibility, modifier, static, mut', name, colon, type] ++ value ++
        [← sign ";"])
  else if Tokens.startsWord "type" ts then
    g.typeRest attributes visibility Tree.none true true
  else if visibility.parts.isEmpty && startsModulePath ts then macroItem attributes false
  else missing "foreign item"

/-- A foreign module behind its attributes. -/
def foreignRest (attributes : Tree) : Parser Tree := do
  let unsafe' := Tree.ofOption (← word? "unsafe")
  if !(← seesWord "extern") then missing "`extern`"
  return .node .foreignItem [attributes, unsafe', .node .raw (← convention),
    ← g.members g.foreignMember]

/-- A tree of imported names. Says with it whether a path in it begins at the root of all crates. -/
def importsRule (root : Bool) : Parser (Tree × Bool) := do
  let ts ← rest
  if Tokens.startsIdent ts ||
      (["self", "super", "crate", "try"].any fun w => Tokens.startsWord w ts) then
    let name ← anyIdent
    match ← sign? "::" with
    | some s =>
      let (t, _) ← g.imports false
      return (.node .importPath [name, s, t], false)
    | none =>
      match ← word? "as" with
      | some w => return (.node .importAlias [name, w, ← nameOrBlank], false)
      | none => return (name, false)
  else if Tokens.startsSign "*" ts then return (← sign "*", false)
  else
    let parts ← group .brace do
      let ps ← iterate do
        if ← finished then return ([], false)
        let lead ← if root then sign? "::" else pure none
        let (t, deep) ← g.imports (root && lead.isNone)
        -- a tree with a path from the root is marked by a part in front of it
        let part := if lead.isSome || deep then [.sign "::", t] else [t]
        if ← finished then return (part, false)
        return (part ++ [← sign ","], true)
      return ps
    return (.node .importGroup [.group .brace parts], parts.any (· == .sign "::"))

def useRest (attributes visibility : Tree) : Parser (Option Tree) := do
  let use ← word "use"
  let lead ← sign? "::"
  let (names, deep) ← g.imports lead.isNone
  let semi ← sign ";"
  if deep then return none
  return some (.node .useItem [attributes, visibility, use, Tree.ofOption lead, names, semi])

/-! ## Items -/

def macroDeclaration (start : Tokens) : Parser Tree := do
  let _ ← word "macro"
  let _ ← ident
  if ← sees (Tokens.startsGroup .paren) then
    let _ ← delimited
  if ← sees (Tokens.startsGroup .brace) then
    let _ ← delimited
    verbatim start
  else missing "curly braces"

/-- A static behind its visibility; the form decides whether it has a tree. -/
def staticRest (start : Tokens) (attributes visibility : Tree) : Parser Tree := do
  let static ← word "static"
  let mut' := Tree.ofOption (← word? "mut")
  let name ← ident
  match ← sign? "=" with
  | some _ =>
    let _ ← g.fullExpr
    let _ ← sign ";"
    verbatim start
  | none =>
    let colon ← sign ":"
    let type ← g.fullType
    match ← sign? ";" with
    | some _ => verbatim start
    | none =>
      let mark ← sign "="
      let value ← g.fullExpr
      return .node .staticItem
        [attributes, visibility, Tree.none, static, mut', name, colon, type, mark, value,
          ← sign ";"]

/-- A constant of a module has a value and no parameters. -/
def isPlainConst : Tree → Bool
  | .node .constItem [_, _, _, _, _, parameters, _, _, .sign "=", _, requirements, _] =>
    isAbsent requirements && parameters.tokens.isEmpty
  | _ => false

/-- An item behind its attributes, which begin at `start`. -/
def itemRest (start : Tokens) (attributes : Tree) : Parser Tree := do
  let front ← rest
  let visibility ← visibility
  let ts ← rest
  let second := Tokens.skip ts
  let word (w : String) := Tokens.startsWord w ts
  if startsSignature false ts then
    let f ← g.functionRest attributes visibility Tree.none false
    if hasBody f then return f else verbatim start
  else if word "extern" then
    if Tokens.startsWord "crate" second then externCrateRest attributes visibility
    else
      set front
      g.foreignRest attributes
  else if word "use" then
    match ← g.useRest attributes visibility with
    | some t => return t
    | none => verbatim start
  else if word "static" then g.staticRest start attributes visibility
  else if word "const" then
    let c ← g.constRest attributes visibility Tree.none
    if isPlainConst c then return c else verbatim start
  else if word "unsafe" then
    if Tokens.startsWord "trait" second || (Tokens.startsWord "auto" second &&
        Tokens.startsWord "trait" (Tokens.skip second)) then
      g.traitRest attributes visibility
    else if Tokens.startsWord "impl" second then
      set front
      match ← g.implRest attributes with
      | some t => return t
      | none => verbatim start
    else if Tokens.startsWord "extern" second then
      set front
      g.foreignRest attributes
    else if Tokens.startsWord "mod" second then g.moduleRest attributes visibility
    else missing "`trait`, `impl`, `extern` or `mod`"
  else if word "mod" then g.moduleRest attributes visibility
  else if word "type" then
    let t ← g.typeRest attributes visibility Tree.none true false
    if isPlainAlias t then return t else verbatim start
  else if word "struct" then g.structRest attributes visibility
  else if word "enum" then g.enumRest attributes visibility
  else if word "union" && Tokens.startsIdent second then g.unionRest attributes visibility
  else if word "trait" || (word "auto" && Tokens.startsWord "trait" second) then
    g.traitRest attributes visibility
  else if word "impl" || (word "default" && !Tokens.startsSign "!" second) then
    set front
    match ← g.implRest attributes with
    | some t => return t
    | none => verbatim start
  else if word "macro" then macroDeclaration start
  else if visibility.parts.isEmpty && startsModulePath ts then macroItem attributes true
  else missing "an item"

def itemRule : Parser Tree := do
  let start ← rest
  let attributes := Tree.node .attributes (← g.outerAttributes)
  g.itemRest start attributes

end Grammar

end Courier.Code
