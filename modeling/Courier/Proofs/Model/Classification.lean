import Courier.Model.Classify
import Courier.Proofs.Model.Shape

/-! The forms of fields: a field is converted when its type is a form of a nested name. -/
namespace Courier

/-- The shape of a form over a name. -/
def FieldShape.around (name : String) : FieldShape → TypeShape
  | .scalar | .direct => .bare name
  | .optional => .optional (.bare name)
  | .array => .array (.bare name)
  | .optionalArray => .optional (.array (.bare name))

theorem FieldShape.ofShape_eq_some {name : String} {s : TypeShape} {form : FieldShape} :
    ofShape name s = some form ↔ form.isConvertible = true ∧ s = form.around name := by
  constructor
  · intro h
    unfold ofShape at h
    split at h
    case h_5 => cases h
    all_goals
      split at h <;> cases h
      simp_all [isConvertible, around]
  · rintro ⟨hc, rfl⟩
    cases form <;> simp_all [isConvertible, around, ofShape]

theorem FieldShape.withBaseName_around (form : FieldShape) (n m : String) :
    (form.around n).withBaseName m = form.around m := by
  cases form <;> rfl

theorem FieldShape.isPlain_around {form : FieldShape} {name : String} :
    (form.around name).IsPlain ↔ isPlainName name.toList = true := by
  cases form <;> rfl

theorem matchNested_eq_some {s : TypeShape} {names : List String} {name : String}
    {form : FieldShape} (h : matchNested s names = some (name, form)) :
    name ∈ names ∧ FieldShape.ofShape name s = some form := by
  induction names with
  | nil => cases h
  | cons n names ih =>
    rw [matchNested] at h
    split at h
    · rename_i hs
      cases h
      exact ⟨List.mem_cons_self .., hs⟩
    · obtain ⟨hm, hs⟩ := ih h
      exact ⟨List.mem_cons_of_mem _ hm, hs⟩

theorem matchNested_ne_none {s : TypeShape} {names : List String} {name : String} {form : FieldShape}
    (hm : name ∈ names) (h : FieldShape.ofShape name s = some form) : matchNested s names ≠ none := by
  induction names with
  | nil => cases hm
  | cons n names ih =>
    rw [matchNested]
    split
    · simp
    · rename_i hnone
      rcases List.mem_cons.1 hm with rfl | hm
      · rw [h] at hnone
        cases hnone
      · exact ih hm

theorem isPlainName_transferName {name : String} (h : isPlainName name.toList = true) :
    isPlainName (transferName name).toList = true := by
  rw [transferName, String.toList_append]
  cases hn : name.toList with
  | nil => rw [hn] at h; cases h
  | cons c cs =>
    rw [hn, isPlainName, Bool.and_eq_true] at h
    rw [List.cons_append, isPlainName, h.1, List.all_append, h.2]
    rfl

/-- A field is left as it is, or its type is a form of a nested name and its transfer type the same
form of the name's transfer type. -/
theorem classify_cases (f : Field) (nested : NestedNames) :
    classify f nested = ⟨f, .scalar, f.type⟩ ∨
      ∃ name ∈ nested.toList, ∃ form : FieldShape, form.isConvertible = true ∧
        isPlainName name.toList = true ∧ TypeShape.parse f.type = form.around name ∧
        classify f nested =
          ⟨f, form, (form.around (transferName name)).render (Spelling.detect f.type)⟩ := by
  cases h : matchNested (TypeShape.parse f.type) nested.toList with
  | none =>
    left
    simp only [classify, h]
  | some p =>
    obtain ⟨name, form⟩ := p
    obtain ⟨hm, hs⟩ := matchNested_eq_some h
    obtain ⟨hc, ho⟩ := FieldShape.ofShape_eq_some.1 hs
    have hp : isPlainName name.toList = true := by
      rcases TypeShape.parse_isPlain_or f.type with hp | hp
      · exact FieldShape.isPlain_around.1 (ho ▸ hp)
      · rw [ho] at hp
        cases form <;> cases hp
    refine .inr ⟨name, hm, form, hc, hp, ho, ?_⟩
    simp only [classify, h]
    rw [ho, FieldShape.withBaseName_around]

/-- The text of a field's type in the generic spelling. -/
def Field.declaredText (f : Field) : String := (TypeShape.parse f.type).render .generic

/-- A field is left as it is with its type, or both of its types are of one form. -/
theorem texts_cases (f : Field) (nested : NestedNames) :
    ((classify f nested).shape = .scalar ∧ (classify f nested).transferText = f.declaredText) ∨
      ∃ name ∈ nested.toList, (classify f nested).isConvertible = true ∧
        f.declaredText = ((classify f nested).shape.around name).render .generic ∧
        (classify f nested).transferText =
          ((classify f nested).shape.around (transferName name)).render .generic := by
  rcases classify_cases f nested with h | ⟨name, hm, form, hc, hp, ho, h⟩
  · left
    rw [h]
    exact ⟨rfl, rfl⟩
  · refine .inr ⟨name, hm, ?_⟩
    have ht : (form.around (transferName name)).IsPlain :=
      FieldShape.isPlain_around.2 (isPlainName_transferName hp)
    rw [h, Field.declaredText, ho, Classified.transferText, TypeShape.parse_render ht]
    exact ⟨hc, rfl, rfl⟩

theorem classify_field (f : Field) (nested : NestedNames) : (classify f nested).field = f := by
  rcases classify_cases f nested with h | ⟨_, _, _, _, _, _, h⟩ <;> rw [h]

end Courier
