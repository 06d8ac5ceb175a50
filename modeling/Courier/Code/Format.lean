import Courier.Code.Format.Item

/-! The format of the target language: syntax trees as text with line ends and indentation. -/
namespace Courier.Code

namespace Format

/-- The rules in the order in which they are asked. -/
def rules : List FormatRule :=
  [pathRule, typeRule, attributeRule, exprRule, patternRule, stmtRule, functionRule, dataRule,
   aliasRule, traitRule, moduleRule]

/-- The layout of a node from those of its parts. -/
def nodeLayout (k : Kind) (ps : List Piece) (place : Place) : Docs :=
  match rules.findSome? fun rule => rule k ps place with
  | some ds => ds
  | none => Docs.word (Tree.node k (ps.map Piece.tree)).text

mutual
/-- A tree with its layout. -/
def piece : Tree → Piece
  | .node k ts => let ps := pieces ts; .mk (.node k ts) (fun place => nodeLayout k ps place) ps
  | .group d ts => .mk (.group d ts) (fun _ => Docs.word (Tree.group d ts).text) (pieces ts)
  | .token t => .mk (.token t) (fun _ => Docs.word t.text) []
  | t => .mk t (fun _ => Docs.word t.text) []

def pieces : List Tree → List Piece
  | [] => []
  | t :: ts => piece t :: pieces ts
end

end Format

/-- The texts of the items of a file, each item on lines of its own. -/
def fileTexts (items : List Tree) : List String :=
  Docs.texts (Docs.tall 0 (items.flatMap fun t => (Format.piece t).docs ++ Docs.gap .hard))

/-- The items of a file as text. -/
def formatFile (items : List Tree) : String := String.join (fileTexts items)

end Courier.Code
