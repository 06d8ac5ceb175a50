import Courier.Code.Format.Pattern

/-! The layout of blocks. -/
namespace Courier.Code.Format
open Docs

/-! ## Parts of blocks -/

/-- The attributes and statements of a block. -/
def contentOf (block : Piece) : List Piece :=
  match block.parts with
  | [group] => group.parts
  | _ => []

/-- The lines of statements and attributes. A lone semicolon has none. -/
def lines (ps : List Piece) : Docs :=
  ps.flatMap fun p =>
    if p.isKind .emptyStmt then []
    else if p.isKind .attributeMark then p.docs
    else p.docs ++ gap .hard

def labelDocs (label : Piece) : Docs :=
  match label.parts with
  | [name, _] => name.docs ++ word ": "
  | _ => []

/-! ## Blocks -/

/-- A block with its braces, in one line if it has a single value. -/
def smallBlock (block : Piece) : Docs :=
  let content := contentOf block
  let attributes := content.takeWhile fun p => p.isKind .attributeMark
  let statements := content.drop attributes.length
  if content.isEmpty then word "\x7b\x7d"
  else
    let body := match statements with
      | [s] =>
        match s.isKind .exprStmt, s.parts with
        | true, [e] => wide 0 (Piece.operand .statement false e) ++ gap .space
        | _, _ => lines statements
      | _ => lines statements
    word "\x7b" ++ Docs.closed (gap .space ++ Piece.rowDocs attributes ++ body) ++ word "\x7d"

/-- A short block in a box. -/
def boxedBlock (block : Piece) : Docs := tall Gap.step (smallBlock block)

/-- A block with each statement on a line of its own. -/
def tallBlock (content : List Piece) : Docs :=
  word "\x7b" ++ gap .glue ++ indented (lines content)

/-- An expression as the value of a block. -/
def asBlock (indent : Int) (e : Piece) : Docs :=
  word "\x7b" ++ gap .space ++ wide indent (Piece.operand .statement false e) ++
    gap Gap.space.closing ++ word "\x7d"

/-! ## Branches and loops -/

/-- What a branch or loop depends on, up to the brace behind it. -/
def conditionDocs (e : Piece) : Docs :=
  tall 0 (Piece.operand .condition false e ++ if e.tree.wrapsBrace then gap .space else word " ")

/-- A condition with the body of its branch. -/
def branch (condition block : Piece) : Docs :=
  word "if " ++ tall (-Gap.step) (conditionDocs condition) ++ smallBlock block

/-- The alternative of a branch. -/
def otherwise : Piece → Docs
  | .mk t l ps =>
    match t.kind?, ps with
    | some .ifExpr, [_, condition, block] => branch condition block
    | some .ifExpr, [_, condition, block, _, other] =>
      branch condition block ++ word " else " ++ otherwise other
    | some .blockExpr, [_, block] => smallBlock block
    | _, ps => asBlock Gap.step (.mk t l ps)

/-- A branch without an alternative, whose body has lines of its own. -/
def loneBranch (condition block : Piece) : Docs :=
  let content := contentOf block
  word "if " ++ tall (-Gap.step) (conditionDocs condition) ++ word "\x7b" ++
    (if content.isEmpty then [] else Docs.closed (gap .hard ++ lines content)) ++ word "\x7d"

/-! ## Arms -/

/-- The body of an arm without the braces around a single value. -/
def bareBody : Piece → Piece
  | .mk t l [label, block] =>
    match t.isKind .blockExpr && label.isAbsent, block with
    | true, .mk _ _ [.mk _ _ [.mk s _ [e]]] =>
      if s.isKind .exprStmt then bareBody e else .mk t l [label, block]
    | _, _ => .mk t l [label, block]
  | p => p

/-- The block that an arm consists of: its label and its content. -/
def armBlock? (body : Piece) : Option (Docs × List Piece) :=
  let content := match body.tree.kind?, body.parts with
    | some .attributedExpr, [_, e] => e
    | _, _ => body
  match content.tree, content.parts with
  | .node .blockExpr _, [label, block] => some (labelDocs label, contentOf block)
  | .node .tupleExpr [.group .paren []], _ => if body.isKind .tupleExpr then some ([], []) else none
  | _, _ => none

/-- The body of an arm: a block, or a value that is put between brackets if it has lines of its
own. -/
def armBody (body : Piece) : Docs :=
  let body := bareBody body
  match armBlock? body with
  | some (label, content) => label ++ tallBlock content
  | none =>
    let braces := body.tree.standsAlone
    let start := { Gap.soft with before := if braces then "\x7b" else "(" }
    let stop := { Gap.soft.closing with
      before := if braces && body.tree.takesSemicolon then ";" else ""
      after := if braces then "\x7d" else "),"
      inside := if body.tree.needsComma then "," else "" }
    gap .glue ++ tall Gap.step (gap start ++ Piece.operand .arm false body ++ gap stop)

def armDocs (attributes pattern guard body : Piece) : Docs :=
  let condition := match guard.parts with
    | [_, e] => word " if " ++ e.docs
    | _ => []
  attributes.docs ++ wide 0 (pattern.docs ++ condition ++ word " => " ++ armBody body)

end Courier.Code.Format
