import Courier.Text.Quoted
import Courier.Xml.Fault

/-! References to characters and entities, and values with references in them. -/
namespace Courier.Xml

/-- The value of a digit in base ten or sixteen. -/
def digit? (base : Nat) (c : Char) : Option Nat :=
  match Text.hexValue? c with
  | some v => if v < base then some v else none
  | none => none

/-- The number that digits spell, which has to fit into 32 bits. -/
def number (base : Nat) (value : Nat) : List Char → Except CharacterFault Nat
  | [] => .ok value
  | c :: cs =>
    match digit? base c with
    | none => .error .invalidDigit
    | some d =>
      let next := value * base + d
      if next < 2 ^ 32 then number base next cs else .error .tooLarge

/-- A number without a sign. -/
def unsigned (base : Nat) : List Char → Except CharacterFault Nat
  | [] => .error .noDigits
  | c :: cs => if c == '+' || c == '-' then .error .unexpectedSign else number base 0 (c :: cs)

/-- The character that a number sign and digits stand for; the sign is not among `digits`. -/
def character (digits : List Char) : Except CharacterFault Char := do
  let code ← match digits with
    | 'x' :: cs => unsigned 16 cs
    | cs => unsigned 10 cs
  if code = 0 then throw .zero
  if h : code.isValidChar then return Char.ofNatAux code h else throw (.notCodepoint code)

/-- The entities that every document knows. -/
def predefined (name : List Char) : Option Char :=
  match String.ofList name with
  | "lt" => some '<'
  | "gt" => some '>'
  | "amp" => some '&'
  | "apos" => some '\''
  | "quot" => some '"'
  | _ => none

/-- The size of a text in bytes. -/
def byteSize : List Char → Nat
  | [] => 0
  | c :: cs => c.utf8Size + byteSize cs

/-- The first ampersand or semicolon ends the name of a reference. -/
def inName (c : Char) : Bool := c != '&' && c != ';'

theorem length_dropWhile_le {α : Type} (p : α → Bool) (l : List α) :
    (l.dropWhile p).length ≤ l.length := by
  induction l with
  | nil => simp
  | cons a l ih =>
    rw [List.dropWhile_cons]
    split
    · simp only [List.length_cons]; omega
    · exact Nat.le_refl _

/-- A value with its references resolved. `start` bytes stand in front of it, `size` is the size of
the whole. -/
def unescapeFrom (start size : Nat) : List Char → Except Fault (List Char)
  | [] => .ok []
  | '&' :: cs =>
    let name := cs.takeWhile inName
    match _h : cs.dropWhile inName with
    | ';' :: rest => do
      let c ← match name with
        | '#' :: digits => (character digits).mapError .character
        | _ =>
          match predefined name with
          | some c => .ok c
          | none =>
            .error (.unknownEntity (start + 1) (start + 1 + byteSize name) (String.ofList name))
      return c :: (← unescapeFrom (start + 2 + byteSize name) size rest)
    | _ => .error (.unterminatedEntity start size)
  | c :: cs => do return c :: (← unescapeFrom (start + c.utf8Size) size cs)
termination_by cs => cs.length
decreasing_by
  · have := length_dropWhile_le inName cs
    simp only [_h, List.length_cons] at this ⊢
    omega
  · simp

/-- The value of an attribute with its references resolved. -/
def unescape (cs : List Char) : Except Fault (List Char) := unescapeFrom 0 (byteSize cs) cs

end Courier.Xml
