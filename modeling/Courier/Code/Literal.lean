import Courier.Code.Lexer

/-! The values of string literals. -/
namespace Courier.Code
open Courier.Text

/-- The value of a string literal behind its `r` and hashes, and its suffix. -/
def rawValue (hashes : Nat) : List Char → Option (List Char × List Char)
  | '#' :: cs => rawValue (hashes + 1) cs
  | '"' :: cs => readRaw .value hashes cs
  | _ => none

/-- The value and the suffix of a literal token that is a string. -/
def stringParts? (literal : String) : Option (List Char × List Char) :=
  match literal.toList with
  | 'r' :: cs => rawValue 0 cs
  | '"' :: cs => readQuoted .value cs
  | _ => none

/-- The value of a literal token that is a string. Its suffix does not count. -/
def stringValue? (literal : String) : Option String :=
  (stringParts? literal).map fun p => String.ofList p.1

end Courier.Code
