/-! Paths of files as they are written. -/
namespace Courier.Files

/-- A path by the names between its slashes. Empty names do not count. -/
structure Path where
  absolute : Bool
  names : List String
  /-- A slash ends the path. -/
  trailing : Bool
  deriving DecidableEq, Repr

/-- The parts of a text between the places where a character stands. -/
def partsAt (c : Char) (text : String) : List String := (text.toList.splitOn c).map String.ofList

def endsInSlash (text : String) : Bool := text.toList.getLast? == some '/'

namespace Path

/-- The path that a text spells. -/
def ofText (text : String) : Path :=
  ⟨text.toList.head? == some '/', (partsAt '/' text).filter (!·.isEmpty), endsInSlash text⟩

def isEmpty (p : Path) : Bool := !p.absolute && p.names.isEmpty

/-- The names without those that stay where they are; one at the beginning is kept. -/
def steps (p : Path) : List String :=
  match p.absolute, p.names with
  | false, "." :: ns => "." :: ns.filter (· != ".")
  | _, ns => ns.filter (· != ".")

/-- The path to what contains the last step. A root and the empty path have none. -/
def parent? (p : Path) : Option Path :=
  if p.steps.isEmpty then none else some ⟨p.absolute, p.steps.dropLast, false⟩

/-- The last step, when it is a name. -/
def fileName? (p : Path) : Option String :=
  match p.steps.getLast? with
  | some n => if n == "." || n == ".." then none else some n
  | none => none

end Path

/-- A name up to its last dot. A dot at the beginning does not count. -/
def nameStem (name : String) : String :=
  match ".".intercalate (partsAt '.' name).dropLast with
  | "" => name
  | stem => stem

def fileStem? (text : String) : Option String := (Path.ofText text).fileName?.map nameStem

/-- The text of a path extended by a name. -/
def join (text name : String) : String :=
  if text.isEmpty || endsInSlash text then text ++ name else text ++ "/" ++ name

end Courier.Files
