/-!
Text in boxes. A box that fits on the rest of its line stays on it. In a box that does not, the line
ends at every gap if the box is consistent, else at those gaps whose following piece does not fit.
-/
namespace Courier.Code

/-- A place where a line may end. -/
structure Gap where
  /-- The blanks that are printed when the line goes on. -/
  blank : Nat
  /-- Moves the next line against the indentation of the box. -/
  offset : Int
  /-- Printed at the end of the line. -/
  before : String
  /-- Printed at the beginning of the next line. -/
  after : String
  /-- Printed when the line goes on, behind the blanks. -/
  inside : String
  /-- The line never ends here. -/
  fixed : Bool
  deriving DecidableEq, Repr

/-- A piece of text with its possible line ends. -/
inductive Doc where
  | text (s : String)
  /-- Nothing, but wider than any line. -/
  | strut
  | gap (g : Gap)
  | box (consistent : Bool) (indent : Int) (body : List Doc)
  deriving Repr, Inhabited

abbrev Docs := List Doc

/-! ## Widths -/

namespace Doc

def lineWidth : Int := 89

/-- What every line has room for, however deep it is indented. -/
def leastRoom : Int := 60

/-- Wider than any line. -/
def endless : Nat := 0xffff

mutual
/-- The width of a piece on one line, in bytes. -/
def width : Doc → Nat
  | .text s => s.utf8ByteSize
  | .strut => endless
  | .gap g => g.blank
  | .box _ _ body => widthList body

def widthList : Docs → Nat
  | [] => 0
  | d :: ds => d.width + widthList ds
end

/-- The width up to the next gap; what follows the row counts when there is none. -/
def reach (tail : Nat) : Docs → Nat
  | [] => tail
  | .gap _ :: _ => 0
  | d :: ds => d.width + reach tail ds

end Doc

/-! ## Printing -/

/-- What was printed so far. Blanks are held back until something follows them on their line. -/
structure Sheet where
  /-- The texts that were printed, the last one first. -/
  out : List String
  pending : Nat
  room : Int
  deriving Repr

namespace Sheet

def empty : Sheet := ⟨[], 0, Doc.lineWidth⟩

/-- Text on the current line. -/
def write (sheet : Sheet) (s : String) : Sheet :=
  ⟨s :: "".pushn ' ' sheet.pending :: sheet.out, 0, sheet.room - s.utf8ByteSize⟩

/-- Blanks on the current line. -/
def skip (sheet : Sheet) (blanks : Nat) : Sheet :=
  ⟨sheet.out, sheet.pending + blanks, sheet.room - blanks⟩

/-- A gap inside of a line. -/
def stay (sheet : Sheet) (g : Gap) : Sheet :=
  let next := sheet.skip g.blank
  if g.inside.isEmpty then next else next.write g.inside

/-- The end of the line at a gap. -/
def newLine (sheet : Sheet) (g : Gap) (indent : Int) : Sheet :=
  let out := if g.before.isEmpty then sheet.out
    else g.before :: "".pushn ' ' sheet.pending :: sheet.out
  let indent := indent + g.offset
  let next : Sheet :=
    ⟨"\n" :: out, indent.toNat, max (Doc.lineWidth - indent) Doc.leastRoom⟩
  if g.after.isEmpty then next else next.write g.after

end Sheet

/-- How a box is printed. -/
inductive Spread where
  | flat
  | consistent
  | inconsistent
  deriving DecidableEq, Repr

namespace Doc

mutual
/-- Prints a piece. `tail` is the width of what follows it up to the next gap. -/
def print (spread : Spread) (indent : Int) (tail : Nat) : Doc → Sheet → Sheet
  | .text s, sheet => sheet.write s
  -- empty text, so that blanks held back are printed
  | .strut, sheet => sheet.write ""
  | .gap g, sheet =>
    let stays := g.fixed || match spread with
      | .flat => true
      | .consistent => false
      | .inconsistent => (g.blank + tail : Nat) ≤ sheet.room
    if stays then sheet.stay g else sheet.newLine g indent
  | .box consistent offset body, sheet =>
    if (widthList body + tail : Nat) ≤ sheet.room then printList .flat indent tail body sheet
    else printList (if consistent then .consistent else .inconsistent) (indent + offset) tail
      body sheet

def printList (spread : Spread) (indent : Int) (tail : Nat) : Docs → Sheet → Sheet
  | [], sheet => sheet
  | d :: ds, sheet =>
    -- the piece is followed by the rest of the row, and that by the tail
    printList spread indent tail ds (print spread indent (reach tail ds) d sheet)
end

end Doc

namespace Docs

/-- The texts of a row as they are printed one after the other. -/
def texts (ds : Docs) : List String := (Doc.printList .inconsistent 0 0 ds .empty).out.reverse

end Docs

/-! ## Pieces -/

namespace Gap

/-- A gap without blank. -/
def soft : Gap := ⟨0, 0, "", "", "", false⟩

/-- A gap of one blank. -/
def space : Gap := { soft with blank := 1 }

/-- A gap at which the line always ends. -/
def hard : Gap := { soft with blank := Doc.endless }

/-- No gap at all. -/
def glue : Gap := { soft with fixed := true }

/-- How far the content of a list or block is indented. -/
def step : Int := 4

/-- The same gap at the end of an indented part. -/
def closing (g : Gap) : Gap := { g with offset := g.offset - step }

/-- The same gap with a comma in front of the line's end. -/
def withComma (g : Gap) : Gap := { g with before := "," }

end Gap

namespace Docs

def word (s : String) : Docs := [.text s]

def gap (g : Gap) : Docs := [.gap g]

/-- A consistent box. -/
def tall (indent : Int) (body : Docs) : Docs := [.box true indent body]

/-- An inconsistent box. -/
def wide (indent : Int) (body : Docs) : Docs := [.box false indent body]

/-- The same row; a gap at its end closes the indented part. -/
def closed : Docs → Docs
  | [] => []
  | [.gap g] => [.gap g.closing]
  | d :: ds => d :: closed ds

/-- Rows with a text between them. -/
def joined (sep : String) : List Docs → Docs
  | [] => []
  | [d] => d
  | d :: ds => d ++ word sep ++ joined sep ds

/-- Elements with commas between them; the last one is followed by a gap. -/
def commas (last : Gap) : List Docs → Docs
  | [] => []
  | [d] => d ++ gap last
  | d :: ds => d ++ word "," ++ gap .space ++ commas last ds

/-- Elements that fill their lines. -/
def filled : List Docs → Docs
  | [] => []
  | [d] => d
  | d :: ds => d ++ word "," ++ gap .space ++ filled ds

/-- A list of elements: in one line, or each in a line of its own with a comma behind it. -/
def list (indent : Int) : List Docs → Docs
  | [] => []
  | ds => tall indent (gap .soft ++ commas Gap.soft.withComma.closing ds)

/-- The same for a tuple, where a single element has a comma in any case. -/
def tuple : List Docs → Docs
  | [d] => tall Gap.step (gap .soft ++ d ++ word "," ++ gap Gap.soft.closing)
  | ds => list Gap.step ds

/-- Lines up to a closing brace, each with the gap at its end. -/
def toBrace (lines : Docs) : Docs :=
  (if lines.isEmpty then gap .glue else gap .hard ++ closed lines) ++ word "\x7d"

/-- Lines in a box of their own, with a closing brace behind it. -/
def indented (lines : Docs) : Docs :=
  (if lines.isEmpty then [] else tall Gap.step (gap .hard ++ closed lines)) ++ word "\x7d"

/-- A box that is also broken when it is wider than a limit. -/
def limited (limit : Nat) (indent : Int) (body : Docs) : Docs :=
  tall indent (if Doc.widthList body > limit then body ++ [.strut] else body)

/-! ## Ends -/

mutual
/-- Has a piece text, and does the last one of it end in a character? -/
def endOf (c : Char) : Doc → Option Bool
  | .text s => if s.isEmpty then none else some (s.endsWith c)
  | .box _ _ body => endOfList c body
  | _ => none

def endOfList (c : Char) : Docs → Option Bool
  | [] => none
  | d :: ds => (endOfList c ds).or (endOf c d)
end

/-- Ends the text of a row in a character? -/
def endsWith (c : Char) (ds : Docs) : Bool := endOfList c ds == some true

mutual
/-- Has a piece text, and does the first one of it begin with a character? -/
def beginOf (c : Char) : Doc → Option Bool
  | .text s => if s.isEmpty then none else some (s.startsWith c)
  | .box _ _ body => beginOfList c body
  | _ => none

def beginOfList (c : Char) : Docs → Option Bool
  | [] => none
  | d :: ds => (beginOf c d).or (beginOfList c ds)
end

/-- Begins the text of a row with a character? -/
def beginsWith (c : Char) (ds : Docs) : Bool := beginOfList c ds == some true

end Docs

end Courier.Code
