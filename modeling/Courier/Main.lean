import Courier.Demo

/-! The command line: a demonstration, or the code for a schema on standard input. -/
namespace Courier

/-- All lines of a stream behind a text. -/
partial def readLines (input : IO.FS.Stream) (text : String) : IO String := do
  let line ← input.getLine
  if line.isEmpty then return text else readLines input (text ++ line)

/-- The settings that the words of a command line ask for. -/
def configOf (words : List String) : Config :=
  words.foldl (fun c w =>
    if w = "--strict" then { c with strict := true } else { c with runtime := w }) .default

/-- Prints the code for a schema, or what is wrong with it. -/
def generateInput (c : Config) : IO UInt32 := do
  let document ← readLines (← IO.getStdin) ""
  match (generateFrom document c).result with
  | .ok code => IO.print code; return 0
  | .error e => IO.eprintln e.message; return 1

end Courier

/-- Without a word, the demonstration. Behind the word `generate`, the path of the runtime and
`--strict` may follow. -/
def main (words : List String) : IO UInt32 := do
  match words with
  | [] => IO.print Courier.Demo.text; return 0
  | "generate" :: options => Courier.generateInput (Courier.configOf options)
  | _ => IO.eprintln "usage: courier [generate [RUNTIME] [--strict]]"; return 2
