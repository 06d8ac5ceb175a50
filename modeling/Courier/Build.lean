import Courier.Files.Store
import Courier.Generate

/-! Generation from a schema file into a source file. -/
namespace Courier
open Files

structure Build where
  /-- The path of the schema file. -/
  schema : String
  /-- The path of the file to write, unless it is derived from that of the schema. -/
  output : Option String
  config : Config
  /-- Is the schema file announced as what the output depends on? -/
  announces : Bool
  deriving DecidableEq, Repr

/-- What a build leads to. -/
structure Built where
  /-- The path of the file that was written. -/
  result : Except GenerateError String
  events : List Event
  printed : String
  store : Store

namespace Build

/-- A build with the usual settings. -/
def ofSchema (path : String) : Build := ⟨path, none, .default, true⟩

/-- The path of the file to write: the one that was set, or one in the output directory. -/
def outputPath (b : Build) (directory : Option String) : Except GenerateError String :=
  match b.output, directory with
  | some path, _ => .ok path
  | none, none => .error (.generation "OUT_DIR is not set and no output file was given")
  | none, some directory =>
    match fileStem? b.schema with
    | some stem => .ok (join directory (stem ++ "_dto.rs"))
    | none => .error (.generation ("invalid schema path '" ++ b.schema ++ "'"))

/-- The path of the file to write, and its content. -/
def plan (b : Build) (directory : Option String) (s : Store) :
    Traced GenerateError (String × String) := do
  let out ← .ofExcept (b.outputPath directory)
  let document ← .ofExcept ((s.readText (Path.ofText b.schema)).mapError .file)
  let code ← generateFrom document b.config
  return (out, code)

/-- The line that announces the schema file. -/
def announcement (b : Build) : String :=
  if b.announces then "cargo:rerun-if-changed=" ++ b.schema ++ "\n" else ""

/-- Runs a build. Nothing is written before the code is there. -/
def run (b : Build) (directory : Option String) (s : Store) : Built :=
  let planned := b.plan directory s
  match planned.result with
  | .error e => ⟨.error e, planned.events, "", s⟩
  | .ok (out, code) =>
    match s.save (Path.ofText out) code.toUTF8 with
    | (.error f, s') => ⟨.error (.file f), planned.events, "", s'⟩
    | (.ok (), s') => ⟨.ok out, planned.events ++ [.wrote b.schema out], b.announcement, s'⟩

end Build

/-- The code for a schema file. -/
def generateFromFile (path : String) (s : Store) : Traced GenerateError String := do
  let document ← .ofExcept ((s.readText (Path.ofText path)).mapError .file)
  generateFrom document .default

end Courier
