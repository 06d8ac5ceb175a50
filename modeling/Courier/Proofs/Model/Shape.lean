import Courier.Model.TypeShape
import Mathlib.Data.List.Basic

/-!
The grammar of type shapes. Reading a text gives the shape that the grammar gives it, and the text
of a shape spells that shape again.
-/
namespace Courier

/-- A text without white space and the shape it spells. -/
inductive Spells : TypeShape → List Char → Prop
  | bare {cs : List Char} (h : isPlainName cs = true) : Spells (.bare (String.ofList cs)) cs
  | optional {s : TypeShape} {cs : List Char} (h : Spells s cs) : Spells (.optional s) (cs ++ ['?'])
  | array {s : TypeShape} {cs : List Char} (h : Spells s cs) : Spells (.array s) (['['] ++ cs ++ [']'])
  | option {s : TypeShape} {cs : List Char} (h : Spells s cs) :
      Spells (.optional s) ("Option<".toList ++ cs ++ ['>'])
  | vec {s : TypeShape} {cs : List Char} (h : Spells s cs) :
      Spells (.array s) ("Vec<".toList ++ cs ++ ['>'])

/-! ## Words around a text -/

theorem between_eq_some {front back cs r : List Char} :
    between front back cs = some r ↔ cs = front ++ r ++ back := by
  unfold between
  constructor
  · intro h
    split at h
    · rename_i hf
      simp only at h
      split at h
      · rename_i hb
        cases h
        obtain ⟨t, rfl⟩ := List.isPrefixOf_iff_prefix.1 hf
        obtain ⟨u, hu⟩ := List.isSuffixOf_iff_suffix.1 hb
        rw [List.drop_left] at hu ⊢
        rw [← hu]
        simp
      · cases h
    · cases h
  · rintro rfl
    have hb : back.isSuffixOf (r ++ back) = true :=
      List.isSuffixOf_iff_suffix.2 ⟨r, rfl⟩
    simp [hb]

theorem between_eq_none {front back cs : List Char} (h : ∀ r, cs ≠ front ++ r ++ back) :
    between front back cs = none := by
  cases hb : between front back cs with
  | none => rfl
  | some r => exact absurd (between_eq_some.1 hb) (h r)

/-! ## Reading -/

theorem spells_of_shapeOf {cs : List Char} {s : TypeShape} (h : shapeOf cs = some s) :
    Spells s cs := by
  fun_induction shapeOf cs generalizing s with
  | case1 cs inner hb ih =>
    obtain ⟨t, ht, rfl⟩ := Option.map_eq_some_iff.1 h
    rw [between_eq_some.1 hb]
    exact .optional (ih ht)
  | case2 cs _ inner hb ih =>
    obtain ⟨t, ht, rfl⟩ := Option.map_eq_some_iff.1 h
    rw [between_eq_some.1 hb]
    exact .array (ih ht)
  | case3 cs _ _ inner hb ih =>
    obtain ⟨t, ht, rfl⟩ := Option.map_eq_some_iff.1 h
    rw [between_eq_some.1 hb]
    exact .option (ih ht)
  | case4 cs _ _ _ inner hb ih =>
    obtain ⟨t, ht, rfl⟩ := Option.map_eq_some_iff.1 h
    rw [between_eq_some.1 hb]
    exact .vec (ih ht)
  | case5 cs _ _ _ _ hn =>
    cases h
    exact .bare hn
  | case6 => cases h

theorem mem_of_isPlainName {cs : List Char} (h : isPlainName cs = true) {c : Char} (hc : c ∈ cs) :
    (c.isAlphanum || c == '_') = true := by
  cases cs with
  | nil => cases hc
  | cons a cs =>
    rw [isPlainName, Bool.and_eq_true, List.all_eq_true] at h
    rcases List.mem_cons.1 hc with rfl | hc
    · have hs := h.1
      simp only [isNameStart, Char.isAlphanum, Bool.or_eq_true] at hs ⊢
      rcases hs with hs | hs
      · exact .inl (.inl hs)
      · exact .inr hs
    · exact h.2 c hc

/-- The last character of a text decides which words can stand behind it. -/
theorem between_eq_none_of_last {front cs : List Char} {a b : Char} (hne : a ≠ b) :
    between front [b] (cs ++ [a]) = none := by
  refine between_eq_none fun r h => hne ?_
  have hl := congrArg List.getLast? h
  simpa using hl

/-- The first character decides which words can stand in front of it. -/
theorem between_eq_none_of_first {front back cs : List Char} {a b : Char} (hne : a ≠ b) :
    between (b :: front) back (a :: cs) = none := by
  refine between_eq_none fun r h => hne ?_
  rw [List.cons_append, List.cons_append] at h
  exact (List.cons.inj h).1

theorem between_eq_none_of_plain {cs : List Char} (front : List Char) (b : Char)
    (h : isPlainName cs = true) (hb : (b.isAlphanum || b == '_') = false) :
    between front [b] cs = none := by
  refine between_eq_none fun r he => ?_
  have hm := mem_of_isPlainName h (c := b) (by simp [he])
  rw [hm] at hb
  cases hb

/-- The four pairs of words are tried in turn. -/
theorem shapeOf_eq (cs : List Char) :
    shapeOf cs =
      match between [] ['?'] cs, between ['['] [']'] cs, between "Option<".toList ['>'] cs,
        between "Vec<".toList ['>'] cs with
      | some inner, _, _, _ => (shapeOf inner).map .optional
      | none, some inner, _, _ => (shapeOf inner).map .array
      | none, none, some inner, _ => (shapeOf inner).map .optional
      | none, none, none, some inner => (shapeOf inner).map .array
      | none, none, none, none =>
        if isPlainName cs then some (.bare (String.ofList cs)) else none := by
  rw [shapeOf]
  split
  · simp_all
  · split
    · simp_all
    · split
      · simp_all
      · split <;> simp_all

theorem shapeOf_of_spells {cs : List Char} {s : TypeShape} (h : Spells s cs) :
    shapeOf cs = some s := by
  induction h with
  | bare h =>
    have h₁ := between_eq_none_of_plain [] '?' h rfl
    have h₂ := between_eq_none_of_plain ['['] ']' h rfl
    have h₃ := between_eq_none_of_plain "Option<".toList '>' h rfl
    have h₄ := between_eq_none_of_plain "Vec<".toList '>' h rfl
    rw [shapeOf_eq, h₁, h₂, h₃, h₄]
    exact if_pos h
  | @optional s cs h ih =>
    have h₁ : between [] ['?'] (cs ++ ['?']) = some cs := between_eq_some.2 rfl
    rw [shapeOf_eq, h₁]
    simp [ih]
  | array h ih =>
    rw [shapeOf_eq, between_eq_none_of_last (by decide), between_eq_some.2 rfl]
    simp [ih]
  | option h ih =>
    rw [shapeOf_eq, between_eq_none_of_last (by decide), between_eq_none_of_last (by decide),
      between_eq_some.2 rfl]
    simp [ih]
  | @vec s cs h ih =>
    have h₃ : between "Option<".toList ['>'] ("Vec<".toList ++ cs ++ ['>']) = none :=
      between_eq_none_of_first (by decide)
    rw [shapeOf_eq, between_eq_none_of_last (by decide), between_eq_none_of_last (by decide), h₃,
      between_eq_some.2 rfl]
    simp [ih]

/-- Reading finds the shape that the grammar gives to a text. -/
theorem shapeOf_eq_some {cs : List Char} {s : TypeShape} : shapeOf cs = some s ↔ Spells s cs :=
  ⟨spells_of_shapeOf, shapeOf_of_spells⟩

/-! ## Shapes and their text -/

/-- A shape over a plain identifier. -/
def TypeShape.IsPlain : TypeShape → Prop
  | .bare name => isPlainName name.toList = true
  | .array inner | .optional inner => inner.IsPlain
  | .foreign _ => False

theorem Spells.isPlain {s : TypeShape} {cs : List Char} (h : Spells s cs) : s.IsPlain := by
  induction h with
  | bare h => simpa [TypeShape.IsPlain] using h
  | optional _ ih | array _ ih | option _ ih | vec _ ih => exact ih

theorem not_isBlank_of_name {c : Char} (h : (c.isAlphanum || c == '_') = true) :
    Text.isBlank c = false := by
  have h : (((c.val ≥ 'A'.val ∧ c.val ≤ 'Z'.val || c.val ≥ 'a'.val && c.val ≤ 'z'.val) ||
      c.val ≥ '0'.val && c.val ≤ '9'.val) || c == '_') = true := h
  simp only [Bool.or_eq_true, Bool.and_eq_true, decide_eq_true_eq, beq_iff_eq,
    UInt32.le_iff_toNat_le, ge_iff_le] at h
  have hr : 48 ≤ c.toNat ∧ c.toNat ≤ 122 := by
    rcases h with ((h | h) | h) | rfl
    · exact ⟨Nat.le_trans (by decide) h.1, Nat.le_trans h.2 (by decide)⟩
    · exact ⟨Nat.le_trans (by decide) h.1, Nat.le_trans h.2 (by decide)⟩
    · exact ⟨h.1, Nat.le_trans h.2 (by decide)⟩
    · decide
  simp only [Text.isBlank, Bool.or_eq_false_iff, Bool.and_eq_false_iff, decide_eq_false_iff_not,
    beq_eq_false_iff_ne]
  omega

theorem Spells.not_isBlank {s : TypeShape} {cs : List Char} (h : Spells s cs) :
    ∀ c ∈ cs, Text.isBlank c = false := by
  induction h with
  | bare h => exact fun c hc => not_isBlank_of_name (mem_of_isPlainName h hc)
  | optional _ ih =>
    simp only [List.forall_mem_append]
    exact ⟨ih, by simp; decide⟩
  | array _ ih =>
    simp only [List.forall_mem_append]
    exact ⟨⟨by simp; decide, ih⟩, by simp; decide⟩
  | option _ ih | vec _ ih =>
    simp only [List.forall_mem_append]
    exact ⟨⟨by simp; decide, ih⟩, by simp; decide⟩

theorem TypeShape.spells_render {s : TypeShape} (h : s.IsPlain) (sp : Spelling) :
    Spells s (s.render sp).toList := by
  induction s with
  | bare name =>
    have hs : Spells (.bare (String.ofList name.toList)) name.toList := .bare h
    rwa [String.ofList_toList] at hs
  | foreign => cases h
  | array inner ih =>
    cases sp with
    | short => simpa [TypeShape.render] using Spells.array (ih h)
    | generic => simpa [TypeShape.render] using Spells.vec (ih h)
  | optional inner ih =>
    cases sp with
    | short => simpa [TypeShape.render] using Spells.optional (ih h)
    | generic => simpa [TypeShape.render] using Spells.option (ih h)

theorem spells_bare {name : String} {cs : List Char} (hn : isPlainName name.toList = true) :
    Spells (.bare name) cs ↔ cs = name.toList := by
  constructor
  · intro h
    cases h
    rw [String.toList_ofList]
  · rintro rfl
    exact TypeShape.spells_render (s := .bare name) hn .short

theorem spells_optional {s : TypeShape} {cs : List Char} : Spells (.optional s) cs ↔
    ∃ ds, Spells s ds ∧ (cs = ds ++ ['?'] ∨ cs = "Option<".toList ++ ds ++ ['>']) := by
  constructor
  · intro h
    cases h with
    | optional h => exact ⟨_, h, .inl rfl⟩
    | option h => exact ⟨_, h, .inr rfl⟩
  · rintro ⟨ds, h, rfl | rfl⟩
    · exact .optional h
    · exact .option h

theorem spells_array {s : TypeShape} {cs : List Char} : Spells (.array s) cs ↔
    ∃ ds, Spells s ds ∧ (cs = ['['] ++ ds ++ [']'] ∨ cs = "Vec<".toList ++ ds ++ ['>']) := by
  constructor
  · intro h
    cases h with
    | array h => exact ⟨_, h, .inl rfl⟩
    | vec h => exact ⟨_, h, .inr rfl⟩
  · rintro ⟨ds, h, rfl | rfl⟩
    · exact .array h
    · exact .vec h

/-! ## Reading any text -/

/-- The characters of a text that are not white space. -/
def solid (text : String) : List Char := text.toList.filter fun c => !Text.isBlank c

/-- The shape that a text has without its white space. -/
def TypeShape.of? (text : String) : Option TypeShape := shapeOf (solid text)

namespace TypeShape

theorem parse_of_some {text : String} {s : TypeShape} (h : of? text = some s) :
    parse text = s ∧ s.IsPlain := by
  refine ⟨?_, (shapeOf_eq_some.1 h).isPlain⟩
  show (of? text).getD _ = s
  rw [h]
  rfl

theorem parse_of_none {text : String} (h : of? text = none) : parse text = .foreign text := by
  show (of? text).getD _ = _
  rw [h]
  rfl

/-- A text is read as a shape over an identifier, or kept as it is. -/
theorem parse_isPlain_or (text : String) : (parse text).IsPlain ∨ parse text = .foreign text := by
  unfold parse
  cases h : shapeOf (text.toList.filter fun c => !Text.isBlank c) with
  | none => exact .inr rfl
  | some s => exact .inl (shapeOf_eq_some.1 h).isPlain

theorem solid_render {s : TypeShape} (h : s.IsPlain) (sp : Spelling) :
    solid (s.render sp) = (s.render sp).toList :=
  List.filter_eq_self.2 fun c hc => by simp [(spells_render h sp).not_isBlank c hc]

/-- Reading the text of a shape gives the shape. -/
theorem parse_render {s : TypeShape} (h : s.IsPlain) (sp : Spelling) : parse (s.render sp) = s := by
  refine (parse_of_some ?_).1
  rw [of?, solid_render h sp]
  exact shapeOf_eq_some.2 (spells_render h sp)

theorem isPlain_withBaseName {s : TypeShape} (h : s.IsPlain) {name : String}
    (hn : isPlainName name.toList = true) : (s.withBaseName name).IsPlain := by
  induction s with
  | bare => exact hn
  | foreign => cases h
  | array _ ih | optional _ ih => exact ih h

end TypeShape

end Courier
