import Courier.Code.Format.Expr

/-! The layout of statements. -/
namespace Courier.Code.Format
open Docs

/-- An expression that is a macro call, with its attributes. -/
def macroOf (e : Piece) : Option (Docs × Piece) :=
  match e.tree.kind?, e.parts with
  | some .macroExpr, _ => some ([], e)
  | some .attributedExpr, [attributes, m] =>
    if m.isKind .macroExpr then some (attributes.docs, m) else none
  | _, _ => none

/-- An expression at the end of its line, with the semicolon that stands there. -/
def exprLine (e : Piece) (semi : Bool) : Docs :=
  wide 0 (Piece.operand .statement false e ++ if semi then word ";" else [])

/-- The alternative of a binding, behind its value. -/
def alternative (block : Piece) : Docs := gap .glue ++ boxedBlock block

/-- A binding from its value on. -/
def bindingEnd : List Piece → Docs × Docs
  | [_, e, _, block] =>
    (word " = " ++ gap .glue ++ e.docs ++ gap .space ++ word "else ", alternative block)
  | [_, e] => (word " = " ++ gap .glue ++ e.docs, [])
  | _ => ([], [])

def stmtRule : FormatRule
  | .exprStmt, [e], _ => some (exprLine e e.tree.takesSemicolon)
  | .exprStmt, [e, semi], _ =>
    match macroOf e with
    | some (attributes, m) => some (attributes ++ m.docs ++ semi.docs)
    | none => some (exprLine e (!e.tree.dropsSemicolon))
  | .macroStmt, [attributes, path, _, body, semi], _ =>
    some (attributes.docs ++ path.layout .name ++ word "!" ++ callDocs body.tokens ++
      if semi.isAbsent then [] else word ";")
  | .letStmt, attributes :: _ :: p :: ps, _ =>
    let ps := ps.dropLast
    let typed := ps.head?.any (·.isSign ":")
    let type := if typed then (ps.drop 1).take 1 |>.flatMap fun t => word ": " ++ t.typeDocs else []
    let (value, other) := bindingEnd (if typed then ps.drop 2 else ps)
    some (attributes.docs ++ wide 0 (word "let " ++ p.docs ++ type ++ value) ++ other ++ word ";")
  | _, _, _ => none

end Courier.Code.Format
