import Courier.Text.Quoted
import Mathlib.Algebra.Group.Nat.Defs

/-!
Quoted text is read back. The escapes that a shown string has are escapes of string literals, one for
each character, and every code point fits into the digits that a literal admits.
-/
namespace Courier.Text

/-! ## Code points -/

theorem hexValue?_hexDigit {n : Nat} (h : n < 16) : hexValue? (hexDigit n) = some n := by
  revert n
  decide

/-- The digits of a number are read as the number, as long as they are few enough. -/
theorem readCodePoint_hexText {n : Nat} (h : (hexText n).length ≤ 6) (r : List Char) :
    readCodePoint 0 0 (hexText n ++ r) = readCodePoint n (hexText n).length r := by
  fun_induction hexText n generalizing r with
  | case1 n hn =>
    rw [List.singleton_append, readCodePoint, hexValue?_hexDigit hn]
    simp
  | case2 n hn ih =>
    rw [List.length_append, List.length_singleton] at h
    have hd : hexValue? (hexDigit (n % 16)) = some (n % 16) :=
      hexValue?_hexDigit (Nat.mod_lt _ (by decide))
    rw [List.append_assoc, ih (by omega), List.singleton_append, readCodePoint, hd, List.length_append]
    simp only
    rw [if_neg (by omega), Nat.div_add_mod]
    rfl

theorem length_hexText {n k : Nat} (h : n < 16 ^ (k + 1)) : (hexText n).length ≤ k + 1 := by
  induction k generalizing n with
  | zero =>
    simp [hexText, show n < 16 by omega]
  | succ k ih =>
    rw [hexText]
    split
    · simp
    · rw [List.length_append, List.length_singleton]
      have := ih (n := n / 16) (by omega)
      omega

theorem hexText_ne_nil (n : Nat) : hexText n ≠ [] := by
  rw [hexText]
  split <;> simp

/-- Every character has a code point that is read back. -/
theorem readCodePoint_escapeCode (c : Char) (r : List Char) :
    readCodePoint 0 0 (hexText c.toNat ++ '}' :: r) = some (c, r) := by
  have hmax : c.toNat < 16 ^ 6 := by
    have hv : c.toNat.isValidChar := c.valid
    rcases hv with hv | hv <;> omega
  have hlen := length_hexText hmax
  have hne : (hexText c.toNat).length ≠ 0 := by simp [hexText_ne_nil]
  have hbrace : hexValue? '}' = none := by decide
  rw [readCodePoint_hexText hlen, readCodePoint, hbrace]
  have hvalid : c.toNat.isValidChar := c.valid
  simp [hne, hvalid]

/-! ## Escapes -/

variable {form : QuoteForm} {c : Char} {cs r t : List Char}

/-- A kind of literal that may hold every character. -/
structure QuoteForm.Full (form : QuoteForm) : Prop where
  unicodeEscape : form.unicodeEscape = true
  beyondAscii : form.beyondAscii = true
  zero : form.zero = true

theorem QuoteForm.full_text : QuoteForm.text.Full := ⟨rfl, rfl, rfl⟩

theorem QuoteForm.full_value : QuoteForm.value.Full := ⟨rfl, rfl, rfl⟩

theorem readQuoted_escape (hn : r.head? ≠ some '\n') (hr : r.head? ≠ some '\r')
    (h : readEscape form r = some (c, t)) :
    readQuoted form ('\\' :: r) = (readQuoted form t).map fun p => (c :: p.1, p.2) := by
  rw [readQuoted.eq_def]
  simp only
  rw [if_neg (by simp [hn, hr])]
  split
  · rename_i h'
    rw [h] at h'
    cases h'
    rfl
  · rename_i h'
    rw [h] at h'
    cases h'

theorem readQuoted_plain (hf : form.Full) (hq : c ≠ '"') (hb : c ≠ '\\') (hr : c ≠ '\r') :
    readQuoted form (c :: cs) = (readQuoted form cs).map fun p => (c :: p.1, p.2) := by
  rw [readQuoted.eq_def]
  split <;> simp_all [hf.beyondAscii, hf.zero]

/-- Each character is read back from its escape. -/
theorem readQuoted_escapeChar (hf : form.Full) (c : Char) (cs : List Char) :
    readQuoted form (escapeChar c ++ cs) = (readQuoted form cs).map fun p => (c :: p.1, p.2) := by
  unfold escapeChar
  split
  · exact readQuoted_escape (by simp) (by simp) (by simp [readEscape, hf.zero])
  iterate 5 exact readQuoted_escape (by simp) (by simp) (by simp [readEscape])
  · rename_i c _ _ _ hr hq hb
    split
    · rw [escapeCode]
      refine readQuoted_escape (by simp) (by simp) ?_
      simp [readEscape, hf.unicodeEscape, hf.zero, readCodePoint_escapeCode]
    · exact readQuoted_plain hf hq hb hr

/-- A shown string is read back up to its closing quote. -/
theorem readQuoted_quote (hf : form.Full) (cs r : List Char) :
    readQuoted form (cs.flatMap escapeChar ++ '"' :: r) = some (cs, r) := by
  induction cs with
  | nil => rw [List.flatMap_nil, List.nil_append, readQuoted]
  | cons c cs ih => rw [List.flatMap_cons, List.append_assoc, readQuoted_escapeChar hf, ih, Option.map_some]

end Courier.Text
