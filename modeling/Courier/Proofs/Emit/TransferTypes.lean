import Courier.Emit.Conversion
import Courier.Proofs.Code.TypeTrees
import Courier.Proofs.Model.Classification

/-!
The types of transferred fields. A field that is a form of a nested name takes that form of the
name's transfer type, which is always a type; any other keeps the text of its type.
-/
namespace Courier

/-! ## Spellings -/

namespace FieldShape

/-- The ways to write a form of a name, white space aside. -/
def spellings (name : String) : FieldShape → List String
  | .scalar => []
  | .direct => [name]
  | .optional => [name ++ "?", "Option<" ++ name ++ ">"]
  | .array => ["[" ++ name ++ "]", "Vec<" ++ name ++ ">"]
  | .optionalArray => ["[" ++ name ++ "]?", "Vec<" ++ name ++ ">?", "Option<[" ++ name ++ "]>",
      "Option<Vec<" ++ name ++ ">>"]

/-- A form of a name in one spelling throughout. -/
def written (name : String) : Spelling → FieldShape → String
  | _, .scalar | _, .direct => name
  | .short, .optional => name ++ "?"
  | .generic, .optional => "Option<" ++ name ++ ">"
  | .short, .array => "[" ++ name ++ "]"
  | .generic, .array => "Vec<" ++ name ++ ">"
  | .short, .optionalArray => "[" ++ name ++ "]?"
  | .generic, .optionalArray => "Option<Vec<" ++ name ++ ">>"

variable {name other : String} {form form' : FieldShape} {cs : List Char}

theorem render_around (name : String) (sp : Spelling) (form : FieldShape) :
    (form.around name).render sp = form.written name sp := by
  refine String.toList_inj.1 ?_
  cases sp <;> cases form <;> simp [around, TypeShape.render, written]

theorem spells_around (hn : isPlainName name.toList = true) (hf : form.isConvertible = true) :
    Spells (form.around name) cs ↔ String.ofList cs ∈ form.spellings name := by
  have hmem : ∀ texts : List String, String.ofList cs ∈ texts ↔ ∃ x ∈ texts, cs = x.toList := by
    refine fun texts => ⟨fun h => ⟨_, h, String.toList_ofList.symm⟩, ?_⟩
    rintro ⟨x, hx, rfl⟩
    rwa [String.ofList_toList]
  cases form with
  | scalar => cases hf
  | direct => simp [around, spellings, spells_bare hn, hmem]
  | optional => simp [around, spellings, spells_optional, spells_bare hn, hmem]
  | array => simp [around, spellings, spells_array, spells_bare hn, hmem]
  | optionalArray => 
    simp [around, spellings, spells_optional, spells_array, spells_bare hn, hmem, or_and_right, exists_or]
    tauto

theorem isConvertible_of_mem {text : String} (h : text ∈ form.spellings name) :
    form.isConvertible = true := by
  cases form with
  | scalar => cases h
  | _ => rfl

theorem around_injective (h : form.around name = form'.around other) (hf : form.isConvertible = true)
    (hf' : form'.isConvertible = true) : name = other ∧ form = form' := by
  cases form <;> cases form' <;> simp_all [around, isConvertible]

end FieldShape

namespace Emit
open Code

variable {f : Field} {nested : NestedNames} {name : String} {form : FieldShape}

theorem fieldType_eq_ok {field text : String} {t : Code.Tree} :
    fieldType field text = .ok t ↔ typeOf text = some t := by
  rw [fieldType, ← typeOf]
  cases typeOf text <;> simp

/-! ## Converted fields -/

theorem isPathWord_transferName (name : String) : Tokens.isPathWord (transferName name) = true := by
  refine Tokens.isPathWord_of_isIdent ?_
  have hall : ∀ w ∈ Tokens.keywords, ¬"DTO".toList <:+ w.toList := by decide
  rw [Tokens.isIdent, Bool.not_eq_true', ← Bool.not_eq_true, List.contains_iff_mem]
  intro hmem
  refine hall _ hmem ?_
  rw [transferName, String.toList_append]
  exact List.suffix_append _ _

/-- A form of a name that stands in paths is a type. -/
theorem isSome_typeTree?_around (hn : Tokens.isPathWord name = true) (form : FieldShape) :
    (Grammar.typeTree? (form.around name)).isSome = true := by
  have hname : (Grammar.typeTree? (.bare name)).isSome = true := by simp [Grammar.typeTree?, hn]
  have harray : (Grammar.typeTree? (.array (.bare name))).isSome = true := by
    rw [Grammar.typeTree?, Option.isSome_map]
    exact Grammar.isSome_argumentTree? hname
  cases form with
  | scalar | direct => exact hname
  | array => exact harray
  | optional =>
    rw [FieldShape.around, Grammar.typeTree?, Option.isSome_map]
    exact Grammar.isSome_argumentTree? hname
  | optionalArray =>
    rw [FieldShape.around, Grammar.typeTree?, Option.isSome_map]
    exact Grammar.isSome_argumentTree? harray

/-- The field's type is a form of a nested name. -/
structure IsForm (f : Field) (nested : NestedNames) (name : String) (form : FieldShape) : Prop where
  mem : name ∈ nested.toList
  plain : isPlainName name.toList = true
  spelled : String.ofList (solid f.type) ∈ form.spellings name

/-- A form of a name is read as one, and nothing else is. -/
theorem isForm_iff : IsForm f nested name form ↔ name ∈ nested.toList ∧ form.isConvertible = true ∧
    isPlainName name.toList = true ∧ TypeShape.parse f.type = form.around name := by
  constructor
  · rintro ⟨hm, hp, hs⟩
    have hc := FieldShape.isConvertible_of_mem hs
    have hshape := shapeOf_eq_some.2 ((FieldShape.spells_around hp hc).2 hs)
    exact ⟨hm, hc, hp, (TypeShape.parse_of_some hshape).1⟩
  · rintro ⟨hm, hc, hp, ho⟩
    refine ⟨hm, hp, (FieldShape.spells_around hp hc).1 (shapeOf_eq_some.1 ?_)⟩
    cases hshape : TypeShape.of? f.type with
    | none =>
      rw [TypeShape.parse_of_none hshape] at ho
      cases form <;> cases ho
    | some s =>
      rw [(TypeShape.parse_of_some hshape).1] at ho
      exact ho ▸ hshape

theorem IsForm.unique {name' : String} {form' : FieldShape} (h : IsForm f nested name form)
    (h' : IsForm f nested name' form') : name' = name ∧ form' = form := by
  obtain ⟨-, hc, -, ho⟩ := isForm_iff.1 h
  obtain ⟨-, hc', -, ho'⟩ := isForm_iff.1 h'
  exact FieldShape.around_injective (ho'.symm.trans ho) hc' hc

theorem IsForm.classify_eq (h : IsForm f nested name form) : classify f nested =
    ⟨f, form, (form.around (transferName name)).render (Spelling.detect f.type)⟩ := by
  obtain ⟨hm, hc, -, ho⟩ := isForm_iff.1 h
  rcases classify_cases f nested with hs | ⟨name', hm', form', hc', hp', ho', hform⟩
  · -- some nested name matches, so the field is not left as it is
    have hne := matchNested_ne_none hm (FieldShape.ofShape_eq_some.2 ⟨hc, ho⟩)
    obtain ⟨⟨n, form'⟩, hmatch⟩ := Option.ne_none_iff_exists'.1 hne
    have hscalar : form' = .scalar := by
      simpa only [classify, hmatch] using congrArg Classified.shape hs
    have hform := (FieldShape.ofShape_eq_some.1 (matchNested_eq_some hmatch).2).1
    rw [hscalar] at hform
    cases hform
  · obtain ⟨rfl, rfl⟩ := h.unique (isForm_iff.2 ⟨hm', hc', hp', ho'⟩)
    exact hform

/-- The transfer type of a converted field is a type. -/
theorem IsForm.exists_fieldType (h : IsForm f nested name form) (field : String) :
    ∃ t, fieldType field (classify f nested).transferText = .ok t := by
  obtain ⟨-, -, hp, -⟩ := isForm_iff.1 h
  have ht : (form.around (transferName name)).IsPlain :=
    FieldShape.isPlain_around.2 (isPlainName_transferName hp)
  obtain ⟨t, ht'⟩ := Option.isSome_iff_exists.1
    (isSome_typeTree?_around (isPathWord_transferName name) form)
  refine ⟨t, fieldType_eq_ok.2 ?_⟩
  rw [h.classify_eq, Classified.transferText, TypeShape.parse_render ht, typeOf_render ht, ht']

theorem scalar_or_isForm (f : Field) (nested : NestedNames) :
    classify f nested = ⟨f, .scalar, f.type⟩ ∨ ∃ name form, IsForm f nested name form := by
  rcases classify_cases f nested with hs | ⟨name, hm, form, hc, hp, ho, -⟩
  · exact .inl hs
  · exact .inr ⟨name, form, isForm_iff.2 ⟨hm, hc, hp, ho⟩⟩

theorem exists_isForm (hc : (classify f nested).isConvertible = true) :
    ∃ name form, IsForm f nested name form := by
  refine (scalar_or_isForm f nested).resolve_left fun hs => ?_
  rw [hs] at hc
  cases hc

/-- What classification means: a field is converted exactly when its type, white space aside, is
written as a form of a nested name. The name and the form are then the only ones, and the transfer
type is the same form of the name's transfer type, which is a type whatever the field is called. -/
theorem classify_spellings (f : Field) (nested : NestedNames) :
    let c := classify f nested
    (c.isConvertible = true ↔ ∃ name form, IsForm f nested name form) ∧
    (∀ name form, IsForm f nested name form →
      (∀ name' form', IsForm f nested name' form' → name' = name ∧ form' = form) ∧
      c = ⟨f, form, form.written (transferName name)
        (if '<' ∈ f.type.toList then .generic else .short)⟩ ∧
      TypeShape.parse c.transferType = (TypeShape.parse f.type).withBaseName (transferName name) ∧
      ∀ field, ∃ t, fieldType field c.transferText = .ok t) ∧
    ((∀ name form, ¬IsForm f nested name form) → c = ⟨f, .scalar, f.type⟩) := by
  refine ⟨⟨exists_isForm, ?_⟩, ?_, fun hnone => ?_⟩
  · rintro ⟨name, form, h⟩
    rw [h.classify_eq]
    exact (isForm_iff.1 h).2.1
  · intro name form h
    obtain ⟨-, -, hp, ho⟩ := isForm_iff.1 h
    have ht : (form.around (transferName name)).IsPlain :=
      FieldShape.isPlain_around.2 (isPlainName_transferName hp)
    refine ⟨fun _ _ => h.unique, ?_, ?_, fun field => ?_⟩
    · rw [h.classify_eq, FieldShape.render_around, Spelling.detect]
      simp
    · rw [h.classify_eq, TypeShape.parse_render ht, ho, FieldShape.withBaseName_around]
    · exact h.exists_fieldType field
  · refine (scalar_or_isForm f nested).resolve_right ?_
    rintro ⟨name, form, h⟩
    exact hnone name form h

/-- A type in mixed spelling and with white space, of which the transfer type keeps the form. -/
theorem classify_spellings_of_orders :
    let f : Field := ⟨"orders", " Option < [ Order ] > "⟩
    let nested := NestedNames.ofList ["Line", "Order"]
    let c := classify f nested
    IsForm f nested "Order" .optionalArray ∧ c.isConvertible = true ∧
      c = ⟨f, .optionalArray, "Option<Vec<OrderDTO>>"⟩ ∧
      TypeShape.parse c.transferType = .optional (.array (.bare "OrderDTO")) ∧
      ∀ field, ∃ t, fieldType field c.transferText = .ok t := by
  intro f nested c
  have h : IsForm f nested "Order" .optionalArray :=
    ⟨by decide +kernel, by decide, by decide +kernel⟩
  obtain ⟨hconv, hform, -⟩ := classify_spellings f nested
  obtain ⟨-, hc, hparse, htype⟩ := hform _ _ h
  exact ⟨h, hconv.2 ⟨_, _, h⟩, hc.trans (by decide +kernel), hparse.trans (by decide +kernel), htype⟩

/-! ## Other fields -/

/-- The type is read as a shape, but only without white space that holds two words of it apart. -/
def MergesWords (f : Field) : Prop :=
  (TypeShape.of? f.type).isSome = true ∧ splitsName f.type.toList = true

theorem transferText_scalar (hs : (classify f nested).shape = .scalar) :
    (classify f nested).transferText = f.declaredText := by
  rcases texts_cases f nested with ⟨-, ht⟩ | ⟨_, _, hc, -⟩
  · exact ht
  · rw [Classified.isConvertible, hs] at hc
    cases hc

/-- A type in the generic spelling, as it is read and written again. -/
theorem declaredText_cases (hb : '[' ∉ f.type.toList) (hq : '?' ∉ f.type.toList) :
    (TypeShape.of? f.type = none ∧ f.declaredText = f.type) ∨
      ∃ s, TypeShape.of? f.type = some s ∧ s.IsPlain ∧ SpellsGeneric s (solid f.type) ∧
        f.declaredText = s.render .generic := by
  cases h : TypeShape.of? f.type with
  | none =>
    rw [Field.declaredText, TypeShape.parse_of_none h]
    exact .inl ⟨rfl, rfl⟩
  | some s =>
    obtain ⟨hparse, hp⟩ := TypeShape.parse_of_some h
    have hspells : SpellsGeneric s (solid f.type) :=
      spellsGeneric_of_spells (shapeOf_eq_some.1 h) (fun hm => hb (List.mem_of_mem_filter hm))
        (fun hm => hq (List.mem_of_mem_filter hm))
    rw [Field.declaredText, hparse]
    exact .inr ⟨s, rfl, hp, hspells, rfl⟩

theorem typeOf_declaredText (hb : '[' ∉ f.type.toList) (hq : '?' ∉ f.type.toList)
    (h : ¬MergesWords f) : typeOf f.declaredText = typeOf f.type := by
  rcases declaredText_cases hb hq with ⟨-, ht⟩ | ⟨s, ho, hp, hspells, ht⟩
  · rw [ht]
  · have hs : splitsName f.type.toList = false := by
      rw [MergesWords, ho, Option.isSome_some] at h
      simpa using h
    rw [ht, typeOf_render hp, typeOf_of_spellsGeneric hspells hs]

/-- Words that are merged are not the words of the text. -/
theorem wordsIn_ne_of_mergesWords {ts : Tokens} {t : Code.Tree} (hb : '[' ∉ f.type.toList)
    (hq : '?' ∉ f.type.toList) (h : MergesWords f) (ht : typeOf f.declaredText = some t)
    (hts : lex f.type = some ts) : Token.wordsIn t.tokens ≠ Token.wordsIn ts := by
  rcases declaredText_cases hb hq with ⟨ho, -⟩ | ⟨s, -, hp, hspells, htext⟩
  · rw [MergesWords, ho] at h
    cases h.1
  · rw [htext, typeOf_render hp] at ht
    rw [lex, lexChars_eq_lexPlain hspells.head?_ne, ← List.append_nil f.type.toList] at hts
    intro hwords
    have hsame : genericWords s = Token.wordsIn ts := (Grammar.wordsIn_typeTree? ht).symm.trans hwords
    exact splitApart_of_spellsGeneric hspells _ _ _ rfl h.2 hts (hsame ▸ List.prefix_rfl)

theorem transferField_eq_ok {c : Classified} {x : String} {t : Code.Tree} :
    transferField c = .ok (x, t) ↔ identifier c.field.name = .ok x ∧ typeOf c.transferText = some t := by
  rw [transferField, bind_eq_ok]
  constructor
  · rintro ⟨y, hy, h⟩
    obtain ⟨u, hu, h⟩ := bind_eq_ok.1 h
    cases h
    exact ⟨hy, fieldType_eq_ok.1 hu⟩
  · rintro ⟨hx, ht⟩
    exact ⟨x, hx, bind_eq_ok.2 ⟨t, fieldType_eq_ok.2 ht, rfl⟩⟩

theorem transferField_eq_error {c : Classified} {x : String} (hx : identifier c.field.name = .ok x)
    (ht : typeOf c.transferText = none) :
    transferField c = .error (.invalidType c.transferText c.field.name) := by
  rw [transferField, hx, ok_bind, fieldType, ← typeOf, ht]
  rfl

/-- A field that is left as it is and whose type is in the generic spelling has the type that its
text spells, and none where the text spells none; unless white space in the text holds two words
apart, which reading merges: then it never has the words of its text. -/
theorem transferField_scalar (hb : '[' ∉ f.type.toList) (hq : '?' ∉ f.type.toList)
    (hs : (classify f nested).shape = .scalar) :
    let c := classify f nested
    c.transferText =
      (if (TypeShape.of? f.type).isSome then String.ofList (solid f.type) else f.type) ∧
    (¬MergesWords f →
      (∀ x t, transferField c = .ok (x, t) ↔
        identifier f.name = .ok x ∧ fieldType f.name f.type = .ok t) ∧
      ∀ x e, identifier f.name = .ok x → fieldType f.name f.type = .error e →
        transferField c = .error (.invalidType c.transferText f.name)) ∧
    (MergesWords f → ∀ x t ts, transferField c = .ok (x, t) → lex f.type = some ts →
      Token.wordsIn t.tokens ≠ Token.wordsIn ts) := by
  intro c
  have htext : c.transferText = f.declaredText := transferText_scalar hs
  have hfield : c.field = f := classify_field f nested
  refine ⟨?_, fun h => ⟨fun x t => ?_, fun x e hx he => ?_⟩, fun h x t ts ht hts => ?_⟩
  · rw [htext]
    rcases declaredText_cases hb hq with ⟨ho, ht⟩ | ⟨s, ho, -, hspells, ht⟩
    · simp [ho, ht]
    · simp [ho, ht, hspells.eq_render]
  · rw [transferField_eq_ok, hfield, htext, typeOf_declaredText hb hq h, fieldType_eq_ok]
  · have htype : typeOf f.declaredText = none := by
      rw [typeOf_declaredText hb hq h, Option.eq_none_iff_forall_ne_some]
      intro t ht
      rw [fieldType_eq_ok.2 ht] at he
      cases he
    rw [← htext] at htype
    rw [← hfield] at hx
    rw [transferField_eq_error hx htype, hfield]
  · rw [transferField_eq_ok, htext] at ht
    exact wordsIn_ne_of_mergesWords hb hq h ht.2 hts

instance (f : Field) : Decidable (MergesWords f) := inferInstanceAs (Decidable (_ ∧ _))

/-- White space between words and marks does no harm, between two words it does. -/
theorem transferField_scalar_of_handler :
    let nested := NestedNames.ofList ["Order"]
    let handler : Field := ⟨"handler", "dyn Send"⟩
    let cache : Field := ⟨"cache", "Option < Vec <u8> >"⟩
    (lex handler.type = some [.ident "dyn", .ident "Send"] ∧
      ∃ t, transferField (classify handler nested) = .ok ("handler", t) ∧ t.text = "dynSend" ∧
        Token.wordsIn t.tokens ≠ ["dyn", "Send"]) ∧
    ∀ x t, transferField (classify cache nested) = .ok (x, t) ↔
      identifier "cache" = .ok x ∧ fieldType "cache" "Option < Vec <u8> >" = .ok t := by
  intro nested handler cache
  have hlex : lex handler.type = some [.ident "dyn", .ident "Send"] := by decide +kernel
  have hmerges : MergesWords handler := by decide +kernel
  have hkeeps : ¬MergesWords cache := by decide +kernel
  have hfield : transferField (classify handler nested) =
      .ok ("handler", .node .pathType [PlainPath.tree ⟨false, "dynSend", []⟩]) :=
    transferField_eq_ok.2 ⟨by decide +kernel, by decide +kernel⟩
  have hscalar : (classify handler nested).shape = .scalar := by decide +kernel
  obtain ⟨-, -, hwords⟩ := transferField_scalar (by decide) (by decide) hscalar
  refine ⟨⟨hlex, _, hfield, by decide +kernel, hwords hmerges _ _ _ hfield hlex⟩, ?_⟩
  exact ((transferField_scalar (by decide) (by decide) (by decide +kernel)).2.1 hkeeps).1

end Emit

end Courier
