import Courier.Emit.Conversion
import Courier.Proofs.Emit.Linking
import Courier.Proofs.Model.Classification
import Mathlib.Data.List.TakeWhile

/-!
Plain names as code. A plain name is one token, so an identifier that is read from it is the name
itself.
-/
namespace Courier.Code
open Text

variable {c d : Char} {cs : List Char}

/-! ## Characters of names -/

theorem toNat_of_isAlpha (h : c.isAlpha = true) :
    65 ≤ c.toNat ∧ c.toNat ≤ 90 ∨ 97 ≤ c.toNat ∧ c.toNat ≤ 122 := by
  rcases (Bool.or_eq_true _ _).mp h with h | h
  · obtain ⟨hl, hu⟩ := of_decide_eq_true h
    exact .inl ⟨UInt32.le_iff_toNat_le.1 hl, UInt32.le_iff_toNat_le.1 hu⟩
  · obtain ⟨hl, hu⟩ := (Bool.and_eq_true _ _).mp h
    exact .inr ⟨UInt32.le_iff_toNat_le.1 (of_decide_eq_true hl),
      UInt32.le_iff_toNat_le.1 (of_decide_eq_true hu)⟩

theorem toNat_of_isDigit (h : c.isDigit = true) : 48 ≤ c.toNat ∧ c.toNat ≤ 57 := by
  obtain ⟨hl, hu⟩ := (Bool.and_eq_true _ _).mp h
  exact ⟨UInt32.le_iff_toNat_le.1 (of_decide_eq_true hl),
    UInt32.le_iff_toNat_le.1 (of_decide_eq_true hu)⟩

theorem toNat_lt_of_name (h : (c.isAlphanum || c == '_') = true) : c.toNat < 128 := by
  rcases (Bool.or_eq_true _ _).mp h with h | h
  · rcases (Bool.or_eq_true _ _).mp h with h | h
    · have := toNat_of_isAlpha h
      omega
    · have := toNat_of_isDigit h
      omega
  · rw [beq_iff_eq] at h
    subst h
    decide

theorem isIdentContinue_of_name (h : (c.isAlphanum || c == '_') = true) :
    isIdentContinue c = true := by
  simp [isIdentContinue, toNat_lt_of_name h, h]

theorem name_of_isNameStart (h : isNameStart c = true) : (c.isAlphanum || c == '_') = true := by
  simp only [isNameStart, Char.isAlphanum, Bool.or_eq_true] at h ⊢
  exact h.imp_left .inl

theorem isIdentStart_of_isNameStart (h : isNameStart c = true) : isIdentStart c = true := by
  rw [isIdentStart, if_pos (toNat_lt_of_name (name_of_isNameStart h))]
  exact h

theorem ne_of_name (h : (c.isAlphanum || c == '_') = true)
    (hd : (d.isAlphanum || d == '_') = false) : c ≠ d := by
  rintro rfl
  rw [h] at hd
  cases hd

theorem isMark_of_name (h : (c.isAlphanum || c == '_') = true) : isMark c = false := by
  have hm : ("~!@#$%^&*-=+|;:,<.>/?'".toList.all fun d => !(d.isAlphanum || d == '_')) = true := by
    decide
  rw [isMark, List.contains_eq_mem, decide_eq_false_iff_not]
  intro hc
  have hn := List.all_eq_true.1 hm c hc
  rw [h] at hn
  cases hn

theorem isSpacing_of_name (h : (c.isAlphanum || c == '_') = true) : isSpacing c = false := by
  rw [isSpacing, not_isBlank_of_name h]
  simp [ne_of_name h (show ('\u200e'.isAlphanum || '\u200e' == '_') = false by decide),
    ne_of_name h (show ('\u200f'.isAlphanum || '\u200f' == '_') = false by decide)]

/-! ## Tokens of names -/

/-- No character of a name is one by which a quoted literal begins. -/
theorem not_isPrefixOf_of_name {mark : List Char} (h : ∀ c ∈ cs, (c.isAlphanum || c == '_') = true)
    (hd : d ∈ mark) (hn : (d.isAlphanum || d == '_') = false) : mark.isPrefixOf cs = false := by
  rw [Bool.eq_false_iff]
  intro hp
  have hm := (List.isPrefixOf_iff_prefix.1 hp).subset hd
  exact ne_of_name (h d hm) hn rfl

theorem afterRaw_of_name {form : QuoteForm} (h : ∀ c ∈ cs, (c.isAlphanum || c == '_') = true) :
    afterRaw form cs = none := by
  have hd : cs.dropWhile (· == '#') = cs := by
    cases cs with
    | nil => rfl
    | cons c cs =>
      have hc := ne_of_name (h c (List.mem_cons_self ..)) (d := '#') (by decide)
      simp [hc]
  rw [afterRaw, hd]
  cases cs with
  | nil => rfl
  | cons c cs =>
    have hc := ne_of_name (h c (List.mem_cons_self ..)) (d := '"') (by decide)
    split
    · rename_i heq
      cases heq
      exact absurd rfl hc
    · rfl

theorem afterTextLiteral_of_name (h : ∀ c ∈ cs, (c.isAlphanum || c == '_') = true) :
    afterTextLiteral cs = none := by
  have hq : ∀ {d : Char}, d ∈ cs → (d.isAlphanum || d == '_') = false → False :=
    fun hd hn => ne_of_name (h _ hd) hn rfl
  unfold afterTextLiteral
  split
  · exact (hq (List.mem_cons_self ..) (by decide)).elim
  · exact afterRaw_of_name fun c hc => h c (List.mem_cons_of_mem _ hc)
  · exact (hq (List.mem_cons_of_mem _ (List.mem_cons_self ..)) (by decide)).elim
  · exact afterRaw_of_name fun c hc => h c (List.mem_cons_of_mem _ (List.mem_cons_of_mem _ hc))
  · exact (hq (List.mem_cons_of_mem _ (List.mem_cons_self ..)) (by decide)).elim
  · exact (hq (List.mem_cons_of_mem _ (List.mem_cons_self ..)) (by decide)).elim
  · exact afterRaw_of_name fun c hc => h c (List.mem_cons_of_mem _ (List.mem_cons_of_mem _ hc))
  · exact (hq (List.mem_cons_self ..) (by decide)).elim
  · rfl

theorem not_isDigit_of_isNameStart (h : isNameStart c = true) : c.isDigit = false := by
  rw [Bool.eq_false_iff]
  intro hd
  have hd := toNat_of_isDigit hd
  rcases (Bool.or_eq_true _ _).mp h with h | h
  · have := toNat_of_isAlpha h
    omega
  · rw [beq_iff_eq] at h
    subst h
    revert hd
    decide

theorem hexValue?_of_not_isDigit {v : Nat} (h : c.isDigit = false) (hv : hexValue? c = some v) :
    10 ≤ v := by
  have hd : ¬(48 ≤ c.toNat ∧ c.toNat ≤ 57) := by
    rintro ⟨h₁, h₂⟩
    have hd : c.isDigit = true := by
      simp only [Char.isDigit, Bool.and_eq_true, decide_eq_true_eq]
      exact ⟨UInt32.le_iff_toNat_le.2 h₁, UInt32.le_iff_toNat_le.2 h₂⟩
    rw [h] at hd
    cases hd
  simp only [hexValue?, Bool.and_eq_true, decide_eq_true_eq] at hv
  split at hv
  · contradiction
  · split at hv
    · cases hv
      omega
    · split at hv
      · cases hv
        omega
      · cases hv

theorem afterDigits_of_not_isDigit (h : c.isDigit = false) : afterDigits 10 true (c :: cs) = none := by
  rw [afterDigits]
  split
  · rfl
  · cases hv : hexValue? c with
    | none => rfl
    | some v =>
      have hv' := hexValue?_of_not_isDigit h hv
      simp [show ¬v < 10 by omega]

theorem afterWholeDigits_of_not_isDigit (h : c.isDigit = false) :
    afterWholeDigits (c :: cs) = none := by
  have hz : c ≠ '0' := by
    rintro rfl
    cases h
  unfold afterWholeDigits
  split
  iterate 3 exact absurd (List.cons.inj ‹_›).1 hz
  exact afterDigits_of_not_isDigit h

/-- What begins with no digit is no number. -/
theorem afterLiteral_of_not_isDigit (h : c.isDigit = false)
    (ht : afterTextLiteral (c :: cs) = none) : afterLiteral (c :: cs) = none := by
  simp [afterLiteral, ht, afterFloatDigits, h, afterWholeDigits_of_not_isDigit h]

theorem afterLiteral_of_isPlainName (h : isPlainName cs = true) : afterLiteral cs = none := by
  have ht := afterTextLiteral_of_name fun c hc => mem_of_isPlainName h (c := c) hc
  cases cs with
  | nil => cases h
  | cons c cs =>
    exact afterLiteral_of_not_isDigit (not_isDigit_of_isNameStart (Bool.and_eq_true_iff.1 h).1) ht

theorem readMark_of_isPlainName (h : isPlainName cs = true) : readMark cs = none := by
  cases cs with
  | nil => cases h
  | cons c cs =>
    have hc := mem_of_isPlainName h (List.mem_cons_self ..)
    have hq := ne_of_name hc (d := '\'') (by decide)
    unfold readMark
    split
    · rfl
    · exact absurd (List.cons.inj ‹_›).1 hq
    · rename_i heq
      cases heq
      simp [atMark, isMark_of_name hc]

theorem identOrRaw_of_isPlainName (h : isPlainName cs = true) : identOrRaw cs = some (cs, []) := by
  have hn := fun c hc => mem_of_isPlainName h (c := c) hc
  unfold identOrRaw
  split
  · have hc := hn '#' (List.mem_cons_of_mem _ (List.mem_cons_self ..))
    exact absurd hc (by decide)
  · cases cs with
    | nil => cases h
    | cons c cs =>
      have hs := isIdentStart_of_isNameStart (Bool.and_eq_true_iff.1 h).1
      have hr : ∀ d ∈ cs, isIdentContinue d = true := fun d hd =>
        isIdentContinue_of_name (hn d (List.mem_cons_of_mem _ hd))
      rw [identText, if_pos hs, List.takeWhile_eq_self_iff.2 hr, List.dropWhile_eq_nil_iff.2 hr]

theorem leafStep_of_isPlainName (h : isPlainName cs = true) :
    leafStep cs = .emit [.ident (String.ofList cs)] [] := by
  have hm : (literalMarks.any fun mark => mark.isPrefixOf cs) = false := by
    rw [List.any_eq_false]
    intro mark hmark
    have hall : (literalMarks.all fun mark => mark.any fun d => !(d.isAlphanum || d == '_')) = true := by
      decide
    obtain ⟨d, hd, hn⟩ := List.any_eq_true.1 (List.all_eq_true.1 hall mark hmark)
    rw [Bool.not_eq_true'] at hn
    simp [not_isPrefixOf_of_name (fun c hc => mem_of_isPlainName h hc) hd hn]
  rw [leafStep, afterLiteral_of_isPlainName h, readMark_of_isPlainName h, hm,
    identOrRaw_of_isPlainName h]
  rfl

theorem nextStep_of_isPlainName (h : isPlainName cs = true) :
    nextStep cs = .emit [.ident (String.ofList cs)] [] := by
  cases cs with
  | nil => cases h
  | cons c cs =>
    have hc := mem_of_isPlainName h (List.mem_cons_self ..)
    have hne : ∀ d : Char, (d.isAlphanum || d == '_') = false → c ≠ d := fun d => ne_of_name hc
    have hcomment : atComment (c :: cs) = false := by
      unfold atComment
      split
      · exact absurd (List.cons.inj ‹_›).1 (hne _ (by decide))
      · exact absurd (List.cons.inj ‹_›).1 (hne _ (by decide))
      · rfl
    have hs : nextStep (c :: cs) = leafStep (c :: cs) := by
      unfold nextStep
      simp only [hcomment, isSpacing_of_name hc, Bool.false_eq_true, if_false]
      split
      iterate 6 exact absurd rfl (hne _ (by decide))
      rfl
    rw [hs, leafStep_of_isPlainName h]

end Courier.Code

namespace Courier.Emit
open Code

end Courier.Emit
