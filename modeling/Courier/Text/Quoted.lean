import Courier.Text.Blank
import Courier.Text.Printable

/-!
Quoted text: writing a string between double quotes with escapes, and reading it back with the
rules of string literals.
-/
namespace Courier.Text

/-- The lower-case digit of a value below sixteen. -/
def hexDigit (n : Nat) : Char :=
  if n < 10 then Char.ofNat (48 + n) else Char.ofNat (87 + n)

/-- A number in base sixteen, without leading zeros. -/
def hexText (n : Nat) : List Char :=
  if n < 16 then [hexDigit n] else hexText (n / 16) ++ [hexDigit (n % 16)]
termination_by n

/-- The value of a digit of base sixteen, in either case. -/
def hexValue? (c : Char) : Option Nat :=
  let n := c.toNat
  if 48 ≤ n && n ≤ 57 then some (n - 48)
  else if 97 ≤ n && n ≤ 102 then some (n - 87)
  else if 65 ≤ n && n ≤ 70 then some (n - 55)
  else none

/-- A character by its code point. -/
def escapeCode (c : Char) : List Char :=
  '\\' :: 'u' :: '{' :: hexText c.toNat ++ ['}']

/-- One character inside quotes: the usual short escapes, a code point for what is not shown or
combines with its neighbour, and itself otherwise. -/
def escapeChar (c : Char) : List Char :=
  match c with
  | '\x00' => ['\\', '0']
  | '\t' => ['\\', 't']
  | '\n' => ['\\', 'n']
  | '\r' => ['\\', 'r']
  | '"' => ['\\', '"']
  | '\\' => ['\\', '\\']
  | c => if extendsGrapheme c || !isPrintable c then escapeCode c else [c]

/-- A string as it is shown: escaped and between quotes. -/
def quote (cs : List Char) : List Char := '"' :: cs.flatMap escapeChar ++ ['"']

/-- The escapes of a string literal: as when it is shown, but a zero in front of an octal digit
takes two digits. -/
def escapeLiteral : List Char → List Char
  | [] => []
  | '\x00' :: c :: r =>
    (if '0' ≤ c && c ≤ '7' then ['\\', 'x', '0', '0'] else ['\\', '0']) ++ escapeLiteral (c :: r)
  | c :: r => escapeChar c ++ escapeLiteral r

/-- A string literal of the target language. -/
def quoteLiteral (cs : List Char) : List Char := '"' :: escapeLiteral cs ++ ['"']

/-- What a kind of quoted literal admits. -/
structure QuoteForm where
  /-- Any two hexadecimal digits may follow `\x`, not only those of ASCII. -/
  wideHex : Bool
  unicodeEscape : Bool
  beyondAscii : Bool
  zero : Bool
  /-- What a line continuation skips. -/
  skipped : Char → Bool

/-- The white space that a line continuation skips between tokens. -/
def isPlainBlank (c : Char) : Bool := c == ' ' || c == '\t' || c == '\n'

/-- String literals. -/
def QuoteForm.text : QuoteForm := ⟨false, true, true, true, isPlainBlank⟩

/-- Byte string literals. -/
def QuoteForm.bytes : QuoteForm := ⟨true, false, false, true, isPlainBlank⟩

/-- Literals of zero-terminated strings. -/
def QuoteForm.terminated : QuoteForm := ⟨true, true, true, false, isPlainBlank⟩

/-- String literals that are known to be well formed. A line continuation skips all white space. -/
def QuoteForm.value : QuoteForm := ⟨false, true, true, true, isBlank⟩

/-- The digits of a code point, up to the closing brace: one to six, underscores between them. -/
def readCodePoint (value count : Nat) : List Char → Option (Char × List Char)
  | [] => none
  | c :: r =>
    match hexValue? c with
    | some d => if count = 6 then none else readCodePoint (16 * value + d) (count + 1) r
    | none =>
      if count = 0 then none
      else if c = '_' then readCodePoint value count r
      else if c = '}' then
        if value.isValidChar then some (Char.ofNat value, r) else none
      else none

/-- The character that an escape stands for; the backslash was read. -/
def readEscape (form : QuoteForm) : List Char → Option (Char × List Char)
  | 'n' :: r => some ('\n', r)
  | 'r' :: r => some ('\r', r)
  | 't' :: r => some ('\t', r)
  | '\\' :: r => some ('\\', r)
  | '\'' :: r => some ('\'', r)
  | '"' :: r => some ('"', r)
  | '0' :: r => if form.zero then some ('\x00', r) else none
  | 'x' :: a :: b :: r =>
    match hexValue? a, hexValue? b with
    | some h, some l =>
      if !form.wideHex && 8 ≤ h then none
      else if !form.zero && h = 0 && l = 0 then none
      else some (Char.ofNat (16 * h + l), r)
    | _, _ => none
  | 'u' :: '{' :: r =>
    if form.unicodeEscape then
      (readCodePoint 0 0 r).filter fun cr => form.zero || cr.1 != '\x00'
    else none
  | _ => none

/-- White space that a line continuation skips; a carriage return only before a line feed.
`none` when the text ends there. -/
def skipContinuation (skipped : Char → Bool) : List Char → Option (List Char)
  | [] => none
  | '\r' :: '\n' :: r => skipContinuation skipped r
  | '\r' :: _ => none
  | c :: r => if skipped c then skipContinuation skipped r else some (c :: r)

theorem readCodePoint_length {value count : Nat} {cs r : List Char} {c : Char}
    (h : readCodePoint value count cs = some (c, r)) : r.length < cs.length := by
  induction cs generalizing value count with
  | nil => simp [readCodePoint] at h
  | cons a t ih =>
    unfold readCodePoint at h
    simp only [List.length_cons]
    split at h
    · split at h
      · cases h
      · have := ih h; omega
    · split at h
      · cases h
      · split at h
        · have := ih h; omega
        · split at h
          · split at h
            · simp only [Option.some.injEq, Prod.mk.injEq] at h
              obtain ⟨_, rfl⟩ := h
              omega
            · cases h
          · cases h

theorem readEscape_length {form : QuoteForm} {cs r : List Char} {c : Char}
    (h : readEscape form cs = some (c, r)) : r.length < cs.length := by
  unfold readEscape at h
  split at h
  case h_9 =>
    split at h
    · obtain ⟨p, -⟩ := Option.filter_eq_some_iff.1 h
      have := readCodePoint_length p
      simp only [List.length_cons]
      omega
    · cases h
  case h_8 =>
    split at h
    · split at h
      · cases h
      · split at h
        · cases h
        · simp only [Option.some.injEq, Prod.mk.injEq] at h
          obtain ⟨_, rfl⟩ := h
          simp only [List.length_cons]
          omega
    · cases h
  case h_7 =>
    split at h
    · simp only [Option.some.injEq, Prod.mk.injEq] at h
      obtain ⟨_, rfl⟩ := h
      simp
    · cases h
  all_goals cases h <;> simp

theorem skipContinuation_length {skipped : Char → Bool} {cs r : List Char}
    (h : skipContinuation skipped cs = some r) : r.length ≤ cs.length := by
  fun_induction skipContinuation skipped cs with
  | case1 => cases h
  | case2 t ih => have := ih h; simp only [List.length_cons]; omega
  | case3 => cases h
  | case4 c t _ _ hc ih => have := ih h; simp only [List.length_cons]; omega
  | case5 c t => cases h; simp

/-- The content of a quoted literal and the text after it; the opening quote was read. -/
def readQuoted (form : QuoteForm) (cs : List Char) : Option (List Char × List Char) :=
  match cs with
  | [] => none
  | '"' :: r => some ([], r)
  | '\r' :: '\n' :: r => (readQuoted form r).map fun p => ('\n' :: p.1, p.2)
  | '\r' :: _ => none
  | '\\' :: r =>
    if r.head? = some '\n' || r.head? = some '\r' then
      match _h : skipContinuation form.skipped r with
      | some r' => readQuoted form r'
      | none => none
    else
      match _h : readEscape form r with
      | some (c, r') => (readQuoted form r').map fun p => (c :: p.1, p.2)
      | none => none
  | c :: r =>
    if (!form.beyondAscii && 128 ≤ c.toNat) || (!form.zero && c = '\x00') then none
    else (readQuoted form r).map fun p => (c :: p.1, p.2)
termination_by cs.length
decreasing_by
  all_goals simp only [List.length_cons]
  · omega
  · have := skipContinuation_length _h; omega
  · have := readEscape_length _h; omega
  · omega

/-- The content of a raw literal, closed by a quote and as many hashes as it was opened with. -/
def readRaw (form : QuoteForm) (hashes : Nat) : List Char → Option (List Char × List Char)
  | [] => none
  | '\r' :: '\n' :: r => (readRaw form hashes r).map fun p => ('\r' :: '\n' :: p.1, p.2)
  | '\r' :: _ => none
  | c :: r =>
    if c = '"' && (List.replicate hashes '#').isPrefixOf r then some ([], r.drop hashes)
    else if (!form.beyondAscii && 128 ≤ c.toNat) || (!form.zero && c = '\x00') then none
    else (readRaw form hashes r).map fun p => (c :: p.1, p.2)

end Courier.Text
