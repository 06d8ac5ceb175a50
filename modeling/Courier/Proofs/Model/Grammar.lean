import Courier.Proofs.Model.Shape

/-!
The grammar of types. A text is read as the shape of its only derivation, or kept whole; the text of
a shape is read as that shape again, so a type may change its spelling without losing its form.
-/
namespace Courier

/-! ## Derivations -/

/-- A rule that adds to a type: its characters stand around those of the type. -/
inductive Layer where
  /-- `S?` -/
  | mark
  /-- `[S]` -/
  | brackets
  /-- `Option<S>` -/
  | option
  /-- `Vec<S>` -/
  | vec
  deriving DecidableEq, Repr

namespace Layer

def front : Layer → List Char
  | .mark => []
  | .brackets => ['[']
  | .option => "Option<".toList
  | .vec => "Vec<".toList

def back : Layer → Char
  | .mark => '?'
  | .brackets => ']'
  | .option | .vec => '>'

def around (s : TypeShape) : Layer → TypeShape
  | .mark | .option => .optional s
  | .brackets | .vec => .array s

/-- The characters around a word tell which rule added them. -/
theorem eq_of_word {l k : Layer} {cs ds : List Char}
    (h : l.front ++ cs ++ [l.back] = k.front ++ ds ++ [k.back]) : l = k ∧ cs = ds := by
  have hback : l.back = k.back := by simpa using congrArg List.getLast? h
  have heq : l = k := by
    cases l <;> cases k <;> simp [back] at hback ⊢
    -- `Option<` and `Vec<` end alike, and differ in their first letter
    all_goals
      have hfirst := congrArg List.head? h
      rw [List.append_assoc, List.append_assoc, List.head?_append_of_ne_nil _ (by decide),
        List.head?_append_of_ne_nil _ (by decide)] at hfirst
      exact absurd hfirst (by decide)
  subst heq
  simpa using h

end Layer

/-- A derivation in the grammar `S ::= identifier | S? | [S] | Option<S> | Vec<S>`. -/
inductive Derivation where
  | name (cs : List Char) (plain : isPlainName cs = true)
  | layer (rule : Layer) (inner : Derivation)

namespace Derivation

/-- The word that is derived. -/
def word : Derivation → List Char
  | .name cs _ => cs
  | .layer l d => l.front ++ d.word ++ [l.back]

def shape : Derivation → TypeShape
  | .name cs _ => .bare (String.ofList cs)
  | .layer l d => l.around d.shape

theorem name_ne_layer {cs : List Char} (h : isPlainName cs = true) (l : Layer) (d : Derivation) :
    cs ≠ (layer l d).word := by
  rintro rfl
  have hm := mem_of_isPlainName h (c := l.back) (by simp [word])
  cases l <;> exact absurd hm (by decide)

/-- The grammar is unambiguous. -/
theorem word_injective {d e : Derivation} (h : d.word = e.word) : d = e := by
  induction d generalizing e with
  | name cs plain =>
    cases e with
    | name ds _ =>
      cases (h : cs = ds)
      rfl
    | layer l e => exact absurd h (name_ne_layer plain l e)
  | layer l d ih =>
    cases e with
    | name cs plain => exact absurd h.symm (name_ne_layer plain l d)
    | layer k e =>
      obtain ⟨rfl, hw⟩ := Layer.eq_of_word h
      rw [ih hw]

theorem spells (d : Derivation) : Spells d.shape d.word := by
  induction d with
  | name cs plain => exact .bare plain
  | layer l d ih =>
    cases l with
    | mark => exact .optional ih
    | brackets => exact .array ih
    | option => exact .option ih
    | vec => exact .vec ih

end Derivation

theorem Spells.exists_derivation {s : TypeShape} {cs : List Char} (h : Spells s cs) :
    ∃ d : Derivation, d.shape = s ∧ d.word = cs := by
  induction h with
  | bare h => exact ⟨.name _ h, rfl, rfl⟩
  | optional _ ih =>
    obtain ⟨d, rfl, rfl⟩ := ih
    exact ⟨.layer .mark d, rfl, rfl⟩
  | array _ ih =>
    obtain ⟨d, rfl, rfl⟩ := ih
    exact ⟨.layer .brackets d, rfl, rfl⟩
  | option _ ih =>
    obtain ⟨d, rfl, rfl⟩ := ih
    exact ⟨.layer .option d, rfl, rfl⟩
  | vec _ ih =>
    obtain ⟨d, rfl, rfl⟩ := ih
    exact ⟨.layer .vec d, rfl, rfl⟩

/-! ## Reading -/

/-- The shapes inside of a shape. -/
def TypeShape.inner : TypeShape → List TypeShape
  | .bare _ | .foreign _ => []
  | .array s | .optional s => s :: s.inner

theorem Layer.inner_around (l : Layer) (s : TypeShape) : (l.around s).inner = s :: s.inner := by
  cases l <;> rfl

/-- What is inside of a derived shape is derived from a part of the word. -/
theorem Derivation.exists_of_inner {d : Derivation} {s : TypeShape} (h : s ∈ d.shape.inner) :
    ∃ e : Derivation, e.shape = s ∧ e.word <:+: d.word := by
  induction d with
  | name => cases h
  | layer l d ih =>
    have hinfix : d.word <:+: (layer l d).word := ⟨l.front, [l.back], rfl⟩
    rw [shape, Layer.inner_around, List.mem_cons] at h
    rcases h with rfl | h
    · exact ⟨d, rfl, hinfix⟩
    · obtain ⟨e, hs, he⟩ := ih h
      exact ⟨e, hs, he.trans hinfix⟩

theorem Derivation.shape_ne_foreign (d : Derivation) (text : String) : d.shape ≠ .foreign text := by
  cases d with
  | name => simp [shape]
  | layer l d => cases l <;> simp [shape, Layer.around]

/-- A text that is derived, blanks aside, has one derivation and is read as its shape; any other text
is kept as it is, whole. So nothing inside of a shape is unread: each part is derived in its turn. -/
theorem parse_grammar (text : String) :
    (∀ d : Derivation, d.word = solid text →
      TypeShape.parse text = d.shape ∧ ∀ e : Derivation, e.word = solid text → e = d) ∧
    ((∀ d : Derivation, d.word ≠ solid text) → TypeShape.parse text = .foreign text) ∧
    ∀ s ∈ (TypeShape.parse text).inner, (∀ t, s ≠ .foreign t) ∧
      ∃ d : Derivation, d.shape = s ∧ d.word <:+: solid text := by
  refine ⟨fun d hd => ⟨?_, fun e he => ?_⟩, fun h => ?_, fun s hs => ?_⟩
  · refine (TypeShape.parse_of_some ?_).1
    rw [TypeShape.of?, ← hd]
    exact shapeOf_eq_some.2 d.spells
  · exact Derivation.word_injective (he.trans hd.symm)
  · refine TypeShape.parse_of_none (Option.eq_none_iff_forall_ne_some.2 fun s hs => ?_)
    obtain ⟨d, -, hd⟩ := (shapeOf_eq_some.1 hs).exists_derivation
    exact h d hd
  · cases hshape : TypeShape.of? text with
    | none =>
      rw [TypeShape.parse_of_none hshape] at hs
      cases hs
    | some t =>
      rw [(TypeShape.parse_of_some hshape).1] at hs
      obtain ⟨d, rfl, hd⟩ := (shapeOf_eq_some.1 hshape).exists_derivation
      obtain ⟨e, rfl, he⟩ := d.exists_of_inner hs
      exact ⟨e.shape_ne_foreign, e, rfl, hd ▸ he⟩

/-- A type in both spellings at once has one derivation. -/
theorem parse_grammar_of_letters :
    let d := Derivation.layer .mark (.layer .vec (.name ['A'] rfl))
    d.word = solid "Vec< A > ?" ∧ TypeShape.parse "Vec< A > ?" = .optional (.array (.bare "A")) ∧
      (∀ e : Derivation, e.word = solid "Vec< A > ?" → e = d) ∧
      ∃ e : Derivation, e.shape = .bare "A" ∧ e.word <:+: solid "Vec< A > ?" := by
  intro d
  have hd : d.word = solid "Vec< A > ?" := by decide
  obtain ⟨hword, -, hinner⟩ := parse_grammar "Vec< A > ?"
  obtain ⟨hparse, hunique⟩ := hword d hd
  refine ⟨hd, hparse, hunique, (hinner (.bare "A") ?_).2⟩
  rw [hparse]
  decide

/-- The words of two types do not make one around what is between them. -/
example : TypeShape.parse "Option<A>,Vec<B>" = .foreign "Option<A>,Vec<B>" := by decide +kernel

/-! ## Texts of shapes -/

/-- Two shapes with the same layers, whatever is at the bottom. -/
inductive SameNesting : TypeShape → TypeShape → Prop
  | bare {a b : String} : SameNesting (.bare a) (.bare b)
  | array {s t : TypeShape} (h : SameNesting s t) : SameNesting (.array s) (.array t)
  | optional {s t : TypeShape} (h : SameNesting s t) : SameNesting (.optional s) (.optional t)

namespace TypeShape

theorem IsPlain.sameNesting {s : TypeShape} (h : s.IsPlain) (name : String) :
    SameNesting s (s.withBaseName name) ∧ (s.withBaseName name).baseName = some name := by
  induction s with
  | bare => exact ⟨.bare, rfl⟩
  | array _ ih => exact ⟨.array (ih h).1, (ih h).2⟩
  | optional _ ih => exact ⟨.optional (ih h).1, (ih h).2⟩
  | foreign => cases h

/-- The text of what a text is read as is read as the same. -/
theorem parse_render_parse (text : String) (sp : Spelling) :
    parse ((parse text).render sp) = parse text := by
  rcases parse_isPlain_or text with h | h
  · exact parse_render h sp
  · rw [h]
    exact h

/-- What a text is read as may take another name, and its text is read as that. -/
theorem parse_render_withBaseName (text : String) {name : String}
    (hn : isPlainName name.toList = true) (sp : Spelling) :
    parse (((parse text).withBaseName name).render sp) = (parse text).withBaseName name := by
  rcases parse_isPlain_or text with h | h
  · exact parse_render (isPlain_withBaseName h hn) sp
  · rw [h]
    exact h

end TypeShape

/-- A text in the generic spelling. -/
def genericText (text : String) : String := (TypeShape.parse text).render .generic

/-- Texts and shapes are inverse. Every text keeps its shape in both spellings, every shape is that of
its texts, also under another name, which changes nothing but the name; so one change to the generic
spelling is enough and loses nothing. -/
theorem parse_render_inverse :
    (∀ (text : String) (sp : Spelling), TypeShape.parse ((TypeShape.parse text).render sp) =
      TypeShape.parse text) ∧
    (∀ s : TypeShape, s.IsPlain → ∀ sp : Spelling, TypeShape.parse (s.render sp) = s) ∧
    (∀ text name : String, isPlainName name.toList = true →
      let s := TypeShape.parse text
      let t := s.withBaseName name
      (∀ sp : Spelling, TypeShape.parse (t.render sp) = t) ∧
        ((∀ u, s ≠ .foreign u) → t.baseName = some name ∧ SameNesting s t)) ∧
    ∀ text : String, genericText (genericText text) = genericText text ∧
      TypeShape.parse (genericText text) = TypeShape.parse text := by
  refine ⟨TypeShape.parse_render_parse, fun s hs sp => TypeShape.parse_render hs sp,
    fun text name hn => ⟨TypeShape.parse_render_withBaseName text hn, fun hforeign => ?_⟩,
    fun text => ?_⟩
  · rcases TypeShape.parse_isPlain_or text with h | h
    · exact (h.sameNesting name).symm
    · exact absurd h (hforeign text)
  · have hparse := TypeShape.parse_render_parse text .generic
    exact ⟨congrArg (TypeShape.render .generic) hparse, hparse⟩

/-- A type of three layers under another name. -/
theorem parse_render_inverse_of_pages :
    let s : TypeShape := .optional (.array (.optional (.bare "Page")))
    let t : TypeShape := .optional (.array (.optional (.bare "PageDTO")))
    TypeShape.parse " [ Page? ] ?" = s ∧ s.IsPlain ∧ TypeShape.parse (s.render .short) = s ∧
      TypeShape.parse (t.render .generic) = t ∧ SameNesting s t ∧
      genericText (genericText " [ Page? ] ?") = genericText " [ Page? ] ?" := by
  intro s t
  have hs : TypeShape.parse " [ Page? ] ?" = s := by decide +kernel
  obtain ⟨-, hshape, hname, htext⟩ := parse_render_inverse
  have hplain : isPlainName "PageDTO".toList = true := by decide
  have hp : s.IsPlain := show isPlainName "Page".toList = true by decide
  obtain ⟨hrender, hnest⟩ := hname " [ Page? ] ?" "PageDTO" hplain
  rw [hs] at hrender hnest
  exact ⟨hs, hp, hshape s hp .short, hrender .generic, (hnest (by simp [s])).2, (htext _).1⟩

end Courier
