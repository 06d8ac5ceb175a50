import Courier.Code.Format.Block

/-! The layout of expressions. -/
namespace Courier.Code.Format
open Docs

/-! ## Calls -/

/-- Is the expression laid out in a box of its own, so that nothing is put around it? -/
def isCompact : Tree → Bool
  | .node .groupExpr [.group .hidden [e]] => isCompact e
  | .node k _ => [.arrayExpr, .asyncExpr, .blockExpr, .closureExpr, .constExpr, .structExpr,
      .tryBlockExpr, .tupleExpr, .unsafeExpr].contains k
  | _ => false

/-- The arguments of a call with their parentheses. -/
def callArguments (group : Piece) : Docs :=
  match Piece.elements group.parts with
  | [a] => if isCompact a.tree then word "(" ++ a.docs ++ word ")" else parenthesized [a.docs]
  | as => parenthesized (as.map Piece.docs)

/-! ## Chains -/

/-- A chain of fields and methods; its box begins with it. -/
def inChain (place : Place) (links : Docs) : Docs :=
  if place.inChain then links else tall Gap.step links

/-- An expression that is no chain is moved back from the indentation of the chain around it. -/
def outOfChain (place : Place) (ds : Docs) : Docs :=
  if place.inChain then tall (-Gap.step) ds else ds

/-- A name that is no longer than the indentation, so that a dot may follow it on its line. -/
def isShortName : Tree → Bool
  | .node .pathExpr [.node .path [.node .segment [.token (.ident name)]]] => name.utf8ByteSize ≤ 4
  | _ => false

/-- Does the first link of a chain stay on the line of the short name that begins it? -/
def staysOn (place : Place) (e : Piece) : Bool := place.leads && isShortName e.tree

/-- What stands in front of a dot, and the gap between them. -/
def beforeDot (place : Place) (e : Piece) : Docs :=
  let setting := place.setting.link
  let ds := Piece.operand { place with inChain := true, setting }
    (setting.levelOf e.tree < Level.closed) e
  if staysOn place e then ds
  else ds ++ gap { Gap.soft with inside := if Docs.endsWith '.' ds then " " else "" }

/-- What is called. A field has to be told from a method. -/
def callee (place : Place) (f : Piece) : Docs :=
  let setting := place.setting.left true false
  let loose := match f.tree with
    | .node .fieldExpr [_, _, .token (.ident _)] => true
    | t => setting.levelOf t < Level.closed
  Piece.operand { place with leads := place.leads && !place.inChain, setting } loose f

/-- Expressions that a dot, a call, an index or a question mark goes on with. -/
def chainRule : FormatRule
  | .methodExpr, [e, _, name, fish, arguments], place =>
    -- a link on the line of its name is not indented, and neither are its arguments
    let indent := if !place.inChain && staysOn place e then -Gap.step else 0
    some (inChain place (beforeDot place e ++ word "." ++ name.docs ++
      (if fish.isAbsent then [] else fish.docs) ++ tall indent (callArguments arguments)))
  | .fieldExpr, [e, _, name], place =>
    some (inChain place (beforeDot place e ++ word "." ++ name.docs))
  | .awaitExpr, [e, _, name], place =>
    some (inChain place (beforeDot place e ++ word "." ++ name.docs))
  | .callExpr, [f, arguments], place => some (callee place f ++ callArguments arguments)
  | .indexExpr, [e, group], place =>
    let setting := place.setting.left true false
    some (Piece.operand { place with setting } (setting.levelOf e.tree < Level.closed) e ++
      word "[" ++ Piece.rowDocs group.parts ++ word "]")
  | .tryExpr, [e, mark], place =>
    let setting := place.setting.link
    some (Piece.operand { place with setting } (setting.levelOf e.tree < Level.closed) e ++
      mark.docs)
  | .attributedExpr, [attributes, e], place => some (attributes.docs ++ e.layout place)
  | _, _, _ => none

/-! ## Operators -/

/-- Operators whose mark could begin an expression. -/
def mayBegin : List String := ["-", "*", "&&", "||", "&", "|", "<<", "<"]

/-- Two operands with an operator between them. -/
def binaryDocs (s : Setting) (l mark r : Piece) (op : String) (level : Nat) : Docs :=
  let before := s.left (mayBegin.contains op) (["<<", "<"].contains op)
  let bound := before.levelOf l.tree
  let loose :=
    if level = Level.assignment then bound ≤ Level.range
    -- comparisons do not chain, so an operand of their level is loose on either side
    else if level = Level.comparison then bound ≤ level
    else bound < level
  let behind := s.right
  -- operators of one level lean to the left, except those that assign
  let looseRight := level ≠ Level.assignment && behind.levelOf r.tree ≤ level
  wide Gap.step (wide (-Gap.step) (Piece.operand (.under before) loose l) ++ gap .space ++
    mark.docs ++ word " " ++ Piece.operand (.under behind) looseRight r)

/-- An operand behind a prefix operator. -/
def prefixed (s : Setting) (e : Piece) : Docs :=
  let behind := s.right
  Piece.operand (.under behind) (behind.levelOf e.tree < Level.prefixed) e

/-- The marks of two ranges are set apart. -/
def setOff (ds : Docs) : Docs := if Docs.beginsWith '.' ds then word " " ++ ds else ds

/-- A range; nothing stands for a bound that is left out. -/
def rangeDocs (s : Setting) (l mark r : Piece) : Docs :=
  let before := s.left true false
  let behind := s.bound
  let start := if l.isAbsent then []
    else Piece.operand (.under before) (before.levelOf l.tree ≤ Level.range) l
  let stop := if r.isAbsent then []
    else Piece.operand (.under behind) (behind.levelOf r.tree ≤ Level.range) r
  start ++ mark.docs ++ if mark.isSign ".." then setOff stop else stop

/-- Expressions with operators, and jumps. -/
def operatorRule : FormatRule
  | .unaryExpr, [mark, e], place => some (mark.docs ++ prefixed place.setting e)
  | .referenceExpr, [mark, kind, e], place =>
    some (mark.docs ++ (if kind.isKind .raw then kind.parts.flatMap Piece.spaced
      else kind.spaced) ++ prefixed place.setting e)
  | .binaryExpr, [l, mark, r], place =>
    match mark.tree with
    | .sign op =>
      (binaryOperators.find? fun o => o.1 == op).map fun o =>
        binaryDocs place.setting l mark r op o.2
    | _ => none
  | .assignExpr, [l, _, r], place =>
    let before := place.setting.left false false
    some (wide 0 (Piece.operand (.under before) (before.levelOf l.tree ≤ Level.range) l ++
      word " = " ++ gap .glue ++
      Piece.operand (.under place.setting.right) false r))
  | .rangeExpr, [l, mark, r], place => some (rangeDocs place.setting l mark r)
  | .castExpr, [e, _, type], place =>
    let before := place.setting.left false false
    some (wide Gap.step
      (wide (-Gap.step) (Piece.operand (.under before) (before.levelOf e.tree < Level.cast) e) ++
        gap .space ++ word "as " ++ type.typeDocs))
  | .letExpr, [_, p, _, e], place =>
    let behind := place.setting.right
    some (word "let " ++ wide 0 p.docs ++ word " = " ++ gap .glue ++
      Piece.operand (.under behind) (behind.levelOf e.tree < Level.binding) e)
  | .breakExpr, _ :: label :: value, place =>
    some (word "break" ++ (if label.isAbsent then [] else word " " ++ label.docs) ++
      value.flatMap fun e => word " " ++ Piece.operand (.under place.setting.result)
        (label.isAbsent && Tokens.startsLifetime e.tokens) e)
  | .continueExpr, [_, label], _ =>
    some (word "continue" ++ if label.isAbsent then [] else word " " ++ label.docs)
  | .returnExpr, _ :: value, place => some (word "return" ++ jumpValue place value)
  | .yieldExpr, _ :: value, place => some (word "yield" ++ jumpValue place value)
  | .groupExpr, [group], place =>
    some (group.parts.flatMap (Piece.operand (.under place.setting) false))
  | _, _, _ => none
where
  jumpValue (place : Place) (value : List Piece) : Docs :=
    value.flatMap fun e => word " " ++ Piece.operand (.under place.setting.value) false e

/-! ## Closures -/

/-- The body of a closure: between brackets unless it fits on the line. -/
def closureBody (s : Setting) (body : Piece) : Docs :=
  let value := Piece.operand (.under s.right) false body
  if isCompact body.tree || body.isKind .matchExpr || body.isKind .callExpr then value
  else
    let braces := body.tree.standsAlone
    tall Gap.step
      (gap { Gap.soft with before := if braces then "\x7b" else "(" } ++ value ++
        gap { Gap.soft.closing with
          before := if braces && body.tree.takesSemicolon then ";" else ""
          after := if braces then "\x7d" else ")" })

/-- A closure from its parameters on. -/
def closureEnd (s : Setting) (inputs result body : Piece) : Docs :=
  let ps := ((Piece.elements inputs.parts).filter fun p => !p.isSign "|").map Piece.docs
  let start := word "|" ++ (if ps.isEmpty then [] else gap .soft) ++ filled ps
  if result.isAbsent then
    tall Gap.step (start ++ word "|" ++ gap Gap.space.closing) ++ gap .glue ++ closureBody s body
  else
    tall Gap.step (start ++ (if ps.isEmpty then [] else gap Gap.soft.withComma.closing) ++
      word "|") ++ result.docs ++ word " " ++ gap .glue ++
        Piece.operand (.under s.right) false body

def closureRule : FormatRule
  | .closureExpr, [lifetimes, const, static, async, move, inputs, result, body], place =>
    some (wide 0 ((if lifetimes.isAbsent then [] else lifetimes.docs) ++ const.spaced ++
      static.spaced ++ async.spaced ++ move.spaced ++
      closureEnd place.setting inputs result body))
  | _, _, _ => none

/-! ## Other expressions -/

/-- Are all elements of an array plain numbers, characters or truth values? -/
def isPlainArray (es : List Piece) : Bool :=
  es.all fun e =>
    match withoutAttributes e.tree with
    | .node .literalExpr [.token (.ident _)] => true
    | .node .literalExpr [.token (.literal s)] =>
      s.startsWith "'" || s.startsWith "b'" || (Tokens.isNumber s && !isFloat s)
    | _ => false

def arrayDocs (es : List Piece) : Docs :=
  if es.isEmpty then word "[]"
  else if isPlainArray es then
    tall Gap.step (word "[" ++ gap .soft ++ wide 0 (filled (es.map Piece.docs)) ++
      gap Gap.soft.withComma.closing ++ word "]")
  else word "[" ++ list Gap.step (es.map Piece.docs) ++ word "]"

/-- How wide a struct literal gets on one line. -/
def literalWidth : Nat := 34

/-- A struct literal: its path, and its fields up to what the others are taken from. -/
def structBody (path : Piece) (group : Piece) : Docs :=
  let start := wide (-Gap.step) path.docs ++ word " \x7b"
  let fields := Piece.elements group.parts
  let given := fields.takeWhile fun p => !p.isSign ".."
  let body := match fields.drop given.length, given with
    | [_, base], given =>
      gap .space ++ (given.flatMap fun p => p.docs ++ word "," ++ gap .space) ++ word ".." ++
        setOff base.docs ++ gap Gap.space.closing
    | _, [] => gap (if Doc.widthList start < literalWidth then .glue else Gap.space.closing)
    | _, given => gap .space ++ commas Gap.space.withComma.closing (given.map Piece.docs)
  limited literalWidth Gap.step (start ++ body) ++ word "\x7d"

/-- Values of all kinds. -/
def valueRule : Kind → List Piece → Option Docs
  | .literalExpr, [t] => some t.docs
  | .pathExpr, [p] => some p.docs
  | .inferExpr, [t] => some t.docs
  | .macroExpr, [path, _, body] =>
    some (path.layout .name ++ word "!" ++ callDocs body.tokens)
  | .structExpr, [path, group] => some (structBody path group)
  | .fieldValue, [attributes, name] => some (attributes.docs ++ name.docs)
  | .fieldValue, [attributes, name, _, value] =>
    some (attributes.docs ++ name.docs ++ word ": " ++ wide 0 value.docs)
  | .tupleExpr, [group] => some (word "(" ++ tuple (Piece.eachDocs group.parts) ++ word ")")
  | .parenExpr, [group] => some (word "(" ++ Piece.rowDocs (Piece.elements group.parts) ++ word ")")
  | .arrayExpr, [group] => some (arrayDocs (Piece.elements group.parts))
  | .repeatExpr, [group] =>
    match group.parts with
    | [e, _, n] => some (word "[" ++ e.docs ++ word "; " ++ n.docs ++ word "]")
    | _ => none
  | _, _ => none

def blockRule : Kind → List Piece → Option Docs
  | .blockExpr, [label, block] => some (labelDocs label ++ boxedBlock block)
  | .unsafeExpr, [w, block] => some (w.docs ++ word " " ++ boxedBlock block)
  | .constExpr, [w, block] => some (w.docs ++ word " " ++ boxedBlock block)
  | .constPattern, [w, block] => some (w.docs ++ word " " ++ boxedBlock block)
  | .tryBlockExpr, [w, block] => some (w.docs ++ word " " ++ boxedBlock block)
  | .asyncExpr, [w, move, block] => some (w.docs ++ word " " ++ move.spaced ++ boxedBlock block)
  | .ifExpr, [_, condition, block] => some (tall Gap.step (loneBranch condition block))
  | .ifExpr, [_, condition, block, _, other] =>
    some (tall Gap.step (branch condition block ++ word " else " ++ otherwise other))
  | .whileExpr, [label, _, condition, block] =>
    some (labelDocs label ++ word "while " ++ conditionDocs condition ++
      tallBlock (contentOf block))
  | .forExpr, [label, _, p, _, e, block] =>
    some (wide 0 (labelDocs label ++ word "for " ++ p.docs ++ word " in " ++ gap .glue ++
      conditionDocs e ++ tallBlock (contentOf block)))
  | .loopExpr, [label, _, block] =>
    some (labelDocs label ++ word "loop \x7b" ++ indented (lines (contentOf block)))
  | .matchExpr, [_, e, arms] =>
    some (wide 0 (word "match " ++ conditionDocs e ++ tallBlock arms.parts))
  | .arm, attributes :: p :: guard :: _ :: body :: _ => some (armDocs attributes p guard body)
  | _, _ => none

def exprRule : FormatRule := fun k ps place =>
  match chainRule k ps place with
  | some ds => some ds
  | none =>
    let own := ((operatorRule k ps place).or (closureRule k ps place)).or
      ((valueRule k ps).or (blockRule k ps))
    own.map (outOfChain place)

end Courier.Code.Format
