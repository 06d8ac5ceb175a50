import Courier.Files.Path
import Courier.Model.Error

/-! Files and directories by their place. -/
namespace Courier.Files

/-- What is at a place. -/
inductive Entry where
  | file (bytes : ByteArray)
  | directory

/-- A place: the names on the way to it from the root. -/
abbrev Place := List String

/-- Files and directories, and the place from which paths start. -/
structure Store where
  current : Place
  entries : List (Place × Entry)

namespace Store

/-- A store with nothing but the place where paths start. -/
def empty (current : Place) : Store := ⟨current, []⟩

/-- What is at a place. The root and the place where paths start are directories. -/
def entry? (s : Store) (p : Place) : Option Entry :=
  if p.isPrefixOf s.current then some .directory
  else (s.entries.find? (·.1 == p)).map (·.2)

/-- The store with an entry at a place. -/
def put (s : Store) (p : Place) (e : Entry) : Store :=
  { s with entries := (p, e) :: s.entries.filter (·.1 != p) }

def isDirectory (s : Store) (p : Place) : Bool :=
  match s.entry? p with
  | some .directory => true
  | _ => false

/-- A directory, or the reason why the place is none. -/
def checkDirectory (s : Store) (p : Place) : Except FileFault Unit :=
  match s.entry? p with
  | none => .error .notFound
  | some (.file _) => .error .notDirectory
  | some .directory => .ok ()

/-- The place that names lead to from another one. All on the way has to be a directory. -/
def follow (s : Store) (p : Place) : List String → Except FileFault Place
  | [] => .ok p
  | n :: ns => do
    s.checkDirectory p
    if n == "." then s.follow p ns
    else if n == ".." then s.follow p.dropLast ns
    else s.follow (p ++ [n]) ns

/-- The place of a path. -/
def place (s : Store) (path : Path) : Except FileFault Place :=
  if path.isEmpty then .error .notFound
  else s.follow (if path.absolute then [] else s.current) path.names

def read (s : Store) (path : Path) : Except FileFault ByteArray := do
  let p ← s.place path
  match s.entry? p with
  | none => .error .notFound
  | some .directory => .error .isDirectory
  | some (.file bytes) => if path.trailing then .error .notDirectory else .ok bytes

def readText (s : Store) (path : Path) : Except FileFault String := do
  let bytes ← s.read path
  match String.fromUTF8? bytes with
  | some text => .ok text
  | none => .error .notText

/-- Does a path end in a name, and not where it came from? -/
def endsInName (names : List String) : Bool :=
  match names.getLast? with
  | some n => n != "." && n != ".."
  | none => false

def makeDirectory (s : Store) (path : Path) : Except FileFault Store := do
  let p ← s.place path
  if endsInName path.names && (s.entry? p).isNone then .ok (s.put p .directory)
  else .error .exists

/-- Is there a directory at the end of a path? -/
def leadsToDirectory (s : Store) (path : Path) : Bool :=
  match s.place path with
  | .ok p => s.isDirectory p
  | .error _ => false

/-- The store with all directories on a path, whose steps are given from the last to the first.
What was made before a step fails is kept. -/
def makeAll (s : Store) (absolute : Bool) : List String → Except FileFault Unit × Store
  | [] => (.ok (), s)
  | step :: before =>
    let path : Path := ⟨absolute, (step :: before).reverse, false⟩
    match s.makeDirectory path with
    | .ok s' => (.ok (), s')
    | .error .notFound =>
      match s.makeAll absolute before with
      | (.error f, s') => (.error f, s')
      | (.ok (), s') =>
        match s'.makeDirectory path with
        | .ok s'' => (.ok (), s'')
        -- a step such as `..` names a directory that is there already
        | .error f => (if s'.leadsToDirectory path then .ok () else .error f, s')
    | .error f => (if s.leadsToDirectory path then .ok () else .error f, s)

/-- The store with all directories on a path. -/
def makeDirectories (s : Store) (path : Path) : Except FileFault Unit × Store :=
  s.makeAll path.absolute path.steps.reverse

/-- The store with the bytes in a file. -/
def write (s : Store) (path : Path) (bytes : ByteArray) : Except FileFault Store := do
  let p ← s.place path
  if path.trailing && endsInName path.names then throw .isDirectory
  match s.entry? p with
  | some .directory => .error .isDirectory
  | _ => .ok (s.put p (.file bytes))

/-- Writes a file, and makes the directory it is in before. -/
def save (s : Store) (path : Path) (bytes : ByteArray) : Except FileFault Unit × Store :=
  let (made, s) := match path.parent? with
    | some parent => s.makeDirectories parent
    | none => (.ok (), s)
  match made with
  | .error f => (.error f, s)
  | .ok () =>
    match s.write path bytes with
    | .ok s' => (.ok (), s')
    | .error f => (.error f, s)

/-- The files below the place where paths start, by their path from there. -/
def files (s : Store) : List (String × ByteArray) :=
  s.entries.filterMap fun (p, e) =>
    match e with
    | .file bytes =>
      if s.current.isPrefixOf p then
        some ("/".intercalate (p.drop s.current.length), bytes)
      else none
    | .directory => none

/-- The files that another store does not hold with the same content. -/
def newFiles (s old : Store) : List (String × ByteArray) :=
  s.files.filter fun f => !old.files.any fun g => g.1 == f.1 && g.2 == f.2

end Store

end Courier.Files
