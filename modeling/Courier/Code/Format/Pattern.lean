import Courier.Code.Format.Path

/-! The layout of patterns. -/
namespace Courier.Code.Format
open Docs

/-- Elements between parentheses in a box of their own. -/
def parenthesized (ds : List Docs) : Docs :=
  word "(" ++ list Gap.step ds ++ word ")"

/-- Alternatives. Those that are all plain values fill their lines. -/
def alternativeDocs (ps : List Piece) : Docs :=
  let cases := ps.filter fun p => !p.isSign "|"
  let content := match cases with
    | [] => []
    | p :: ps => p.docs ++ ps.flatMap fun p => gap .space ++ word "| " ++ p.docs
  if cases.all fun p => p.isKind .literalPattern || p.isKind .wildPattern then wide 0 content
  else tall 0 content

/-- A tuple of patterns. The comma behind a single one is kept if it is written. -/
def tuplePatternDocs (ps : List Piece) : Docs :=
  match Piece.eachDocs ps with
  | [d] =>
    word "(" ++ tall Gap.step (gap .soft ++ d ++
      (if Tree.trailingComma (ps.map Piece.tree) then word "," else []) ++
      gap Gap.soft.closing) ++ word ")"
  | ds => parenthesized ds

/-- The fields of a struct pattern behind its path. -/
def fieldPatternDocs (ps : List Piece) : Docs :=
  let fields := ps.filter fun p => p.isKind .fieldPattern
  match ps.find? fun p => p.isKind .restPattern with
  | some others =>
    gap .space ++ (fields.flatMap fun p => p.docs ++ word "," ++ gap .space) ++ others.docs ++
      gap Gap.space.closing
  | none =>
    if fields.isEmpty then gap .glue
    else gap .space ++ commas Gap.space.withComma.closing (fields.map Piece.docs)

/-- A part of a range; nothing stands for a bound that is left out. -/
def boundOf (p : Piece) : Docs := if p.isAbsent then [] else p.docs

def patternRule : FormatRule
  | .wildPattern, [t], _ => some t.docs
  | .literalPattern, [t], _ => some t.docs
  | .pathPattern, [p], _ => some p.docs
  | .macroPattern, [path, _, body], _ =>
    some (path.layout .name ++ word "!" ++ callDocs body.tokens)
  | .namePattern, ref :: mut' :: name :: sub, _ =>
    some (ref.spaced ++ mut'.spaced ++ name.docs ++ match sub with
      | [_, p] => word " @ " ++ p.docs
      | _ => [])
  | .referencePattern, [mark, mut', p], _ => some (mark.docs ++ mut'.spaced ++ p.docs)
  | .restPattern, [attributes, mark], _ => some (boundOf attributes ++ mark.docs)
  | .rangePattern, [start, mark, stop], _ => some (boundOf start ++ mark.docs ++ boundOf stop)
  | .orPattern, ps, _ => some (alternativeDocs ps)
  | .parenPattern, [group], _ => some (word "(" ++ Piece.rowDocs group.parts ++ word ")")
  | .tuplePattern, [group], _ => some (tuplePatternDocs group.parts)
  | .tuplePattern, [path, group], _ =>
    some (path.docs ++ parenthesized (Piece.eachDocs group.parts))
  | .slicePattern, [group], _ =>
    some (word "[" ++ commas Gap.soft.withComma (Piece.eachDocs group.parts) ++ word "]")
  | .structPattern, [path, group], _ =>
    some (tall Gap.step (path.docs ++ word " \x7b" ++ fieldPatternDocs group.parts) ++ word "\x7d")
  | .fieldPattern, attributes :: ps, _ => some (attributes.docs ++ fieldDocs ps)
  | .typedPattern, [attributes, p], _ => some (attributes.docs ++ p.docs)
  | .typedPattern, [attributes, p, _, type], _ =>
    some (attributes.docs ++ p.docs ++ word ": " ++ type.typeDocs)
  | _, _, _ => none
where
  fieldDocs : List Piece → Docs
    | [] => []
    | [p] => p.docs
    | [member, mark, p] => if mark.isSign ":" then member.docs ++ word ": " ++ p.docs
      else member.spaced ++ mark.spaced ++ p.docs
    | p :: ps => p.spaced ++ fieldDocs ps

end Courier.Code.Format
