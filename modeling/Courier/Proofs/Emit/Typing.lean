import Courier.Emit.Conversion
import Courier.Proofs.Model.Classification
import Courier.Proofs.Result

/-!
Types of emitted expressions. The initializer of a field has the type that the field has on the
other side, and no other one.
-/
namespace Courier.Emit
open Code

/-! ## Types by their text -/

/-- A type of emitted code, by its text. -/
abbrev TypeText := String

namespace TypeText

@[irreducible] def reference (t : TypeText) : TypeText := "&" ++ t

@[irreducible] def option (t : TypeText) : TypeText := "Option<" ++ t ++ ">"

@[irreducible] def vec (t : TypeText) : TypeText := "Vec<" ++ t ++ ">"

@[irreducible] def iterator (t : TypeText) : TypeText := "impl Iterator<Item = " ++ t ++ ">"

variable {t u : TypeText}

theorem reference_inj : reference t = reference u ↔ t = u := by
  rw [reference, reference, String.append_right_inj]

theorem option_inj : option t = option u ↔ t = u := by
  rw [option, option, String.append_left_inj, String.append_right_inj]

theorem vec_inj : vec t = vec u ↔ t = u := by
  rw [vec, vec, String.append_left_inj, String.append_right_inj]

theorem iterator_inj : iterator t = iterator u ↔ t = u := by
  rw [iterator, iterator, String.append_left_inj, String.append_right_inj]

theorem vec_ne_reference : vec t ≠ reference u := by
  intro h
  simpa [vec, reference] using congrArg String.toList h

theorem option_ne_iterator : option t ≠ iterator u := by
  intro h
  simpa [option, iterator] using congrArg String.toList h

end TypeText

open TypeText

/-! ## Typing -/

/-- What is known where an expression stands. -/
structure Context where
  scope : List (String × TypeText)
  /-- The type of a struct's field. -/
  field : TypeText → String → Option TypeText
  /-- The types of the argument and the result of a function. -/
  function : FunctionName → TypeText → TypeText → Prop

/-- The types of the value and the result of a method. -/
inductive MethodType (name : String) (t u : TypeText) : Prop
  | clone (hn : name = "clone") (hu : u = t)
  | asRef {a : TypeText} (hn : name = "as_ref") (ht : t = option a) (hu : u = option (reference a))
  | iter {a : TypeText} (hn : name = "iter") (ht : t = vec a ∨ t = reference (vec a))
      (hu : u = iterator (reference a))
  | collect {a : TypeText} (hn : name = "collect") (ht : t = iterator a) (hu : u = vec a)

/-- The types before and after a function from one type to another is mapped. -/
inductive MapType (a b t u : TypeText) : Prop
  | option (ht : t = option a) (hu : u = option b)
  | iterator (ht : t = iterator a) (hu : u = iterator b)

/-- The types of expressions. Fields are read through references. -/
inductive HasType : Context → Expr → TypeText → Prop
  | var {c : Context} {x : String} {t : TypeText} (h : c.scope.lookup x = some t) :
      HasType c (.variable x) t
  | field {c : Context} {e : Expr} {name : String} {t u : TypeText} (he : HasType c e (reference t))
      (h : c.field t name = some u) : HasType c (.field e name) u
  | borrow {c : Context} {e : Expr} {t : TypeText} (he : HasType c e t) :
      HasType c (.borrow e) (reference t)
  | call {c : Context} {f : FunctionName} {e : Expr} {t u : TypeText} (hf : c.function f t u)
      (he : HasType c e t) : HasType c (.call f e) u
  | method {c : Context} {e : Expr} {name : String} {t u : TypeText} (he : HasType c e t)
      (h : MethodType name t u) : HasType c (.method e name) u
  | map {c : Context} {e : Expr} {f : FunctionName} {a b t u : TypeText} (he : HasType c e t)
      (hf : c.function f a b) (h : MapType a b t u) : HasType c (.map e f) u
  | mapEach {c : Context} {e body : Expr} {x : String} {a b t u : TypeText} (he : HasType c e t)
      (hb : HasType { c with scope := (x, a) :: c.scope } body b) (h : MapType a b t u) :
      HasType c (.mapEach e x body) u

theorem MethodType.unique {name : String} {t u u' : TypeText} (h : MethodType name t u)
    (h' : MethodType name t u') : u = u' := by
  cases h with
  | clone hn hu => cases h' <;> simp_all
  | asRef hn ht hu => cases h' <;> simp_all [option_inj]
  | iter hn ht hu =>
    cases h' with
    | iter hn' ht' hu' =>
      rcases ht with rfl | rfl <;>
        simp_all [vec_inj, reference_inj, vec_ne_reference, vec_ne_reference.symm]
    | _ => simp_all
  | collect hn ht hu => cases h' <;> simp_all [iterator_inj]

theorem MapType.arguments_unique {a b a' b' t u u' : TypeText} (h : MapType a b t u)
    (h' : MapType a' b' t u') : a = a' ∧ (b = b' → u = u') := by
  cases h with
  | option ht hu =>
    cases h' with
    | option ht' hu' => simp_all [option_inj]
    | iterator ht' hu' => exact absurd (ht.symm.trans ht') option_ne_iterator
  | iterator ht hu =>
    cases h' with
    | option ht' hu' => exact absurd (ht'.symm.trans ht) option_ne_iterator
    | iterator ht' hu' => simp_all [iterator_inj]

/-- Where no function has two result types for one argument type, no expression has two types. -/
theorem HasType.unique {c : Context} {e : Expr} {t t' : TypeText}
    (hf : ∀ f a b b', c.function f a b → c.function f a b' → b = b') (h : HasType c e t)
    (h' : HasType c e t') : t = t' := by
  induction h generalizing t' with
  | var h =>
    cases h' with
    | var h' => exact Option.some.inj (h.symm.trans h')
  | field _ h ih =>
    cases h' with
    | field he' h' =>
      cases reference_inj.1 (ih hf he')
      exact Option.some.inj (h.symm.trans h')
  | borrow _ ih =>
    cases h' with
    | borrow he' => rw [ih hf he']
  | call hc _ ih =>
    cases h' with
    | call hc' he' =>
      cases ih hf he'
      exact hf _ _ _ _ hc hc'
  | method _ h ih =>
    cases h' with
    | method he' h' =>
      cases ih hf he'
      exact h.unique h'
  | map _ hc h ih =>
    cases h' with
    | map he' hc' h' =>
      cases ih hf he'
      obtain ⟨rfl, hu⟩ := h.arguments_unique h'
      exact hu (hf _ _ _ _ hc hc')
  | mapEach _ _ h ih ihb =>
    cases h' with
    | mapEach he' hb' h' =>
      cases ih hf he'
      obtain ⟨rfl, hu⟩ := h.arguments_unique h'
      exact hu (ihb hf hb')

/-! ## Initializers -/

/-- The type of a field of a form, over the type at its bottom. -/
def formType (t : TypeText) : FieldShape → TypeText
  | .scalar | .direct => t
  | .optional => option t
  | .array => vec t
  | .optionalArray => option (vec t)

theorem formType_eq_render (form : FieldShape) (name : String) :
    formType name form = (form.around name).render .generic := by
  cases form <;> simp [formType, FieldShape.around, TypeShape.render, option, vec]

/-- The functions that convert between nested models and their transfer types. -/
inductive Conversion (runtime : Code.Tree) (nested : List String) (f : FunctionName)
    (t u : TypeText) : Prop
  | toTransfer {name : String} (hm : name ∈ nested)
      (hf : f = Direction.toTransfer.convert runtime) (ht : t = reference name)
      (hu : u = transferName name)
  | toModel {name : String} (hm : name ∈ nested) (hf : f = Direction.toModel.convert runtime)
      (ht : t = reference (transferName name)) (hu : u = name)

theorem Conversion.unique {runtime : Code.Tree} {nested : List String} {f : FunctionName}
    {t u u' : TypeText} (h : Conversion runtime nested f t u) (h' : Conversion runtime nested f t u') :
    u = u' := by
  cases h with
  | toTransfer _ hf ht hu =>
    cases h' with
    | toTransfer _ _ ht' hu' => rw [hu, hu', reference_inj.1 (ht.symm.trans ht')]
    | toModel _ hf' _ _ => cases hf.symm.trans hf'
  | toModel _ hf ht hu =>
    cases h' with
    | toTransfer _ hf' _ _ => cases hf.symm.trans hf'
    | toModel _ _ ht' hu' =>
      have hn := reference_inj.1 (ht.symm.trans ht')
      rw [hu, hu']
      exact (String.append_left_inj _).1 hn

/-- The expression for a field of a form goes from the form over one type to the form over the
other. -/
theorem converted_hasType {c : Context} {form : FieldShape} {convert : FunctionName} {e : Expr}
    {t u : TypeText} (hform : form.isConvertible = true) (hf : c.function convert (reference t) u)
    (he : HasType c e (formType t form)) :
    HasType c (converted form convert e) (formType u form) := by
  cases form with
  | scalar => cases hform
  | direct => exact .call hf (.borrow he)
  | optional => exact .map (.method he (.asRef rfl rfl rfl)) hf (.option rfl rfl)
  | array =>
    have hi := HasType.method he (.iter rfl (.inl rfl) rfl)
    exact .method (.map hi hf (.iterator rfl rfl)) (.collect rfl rfl rfl)
  | optionalArray =>
    have hr := HasType.method he (.asRef rfl rfl rfl)
    refine .mapEach hr ?_ (.option rfl rfl)
    have hv : HasType { c with scope := ("elements", reference (vec t)) :: c.scope }
        (.variable "elements") (reference (vec t)) := .var List.lookup_cons_self
    have hi := HasType.method hv (.iter rfl (.inr rfl) rfl)
    exact .method (.map hi hf (.iterator rfl rfl)) (.collect rfl rfl rfl)

theorem initializer_eq_ok {d : Direction} {runtime : Code.Tree} {c : Classified} {i : Initializer}
    (h : initializer d runtime c = .ok i) :
    i.value = some (converted c.shape (d.convert runtime) (.field (.variable d.source) i.name)) := by
  obtain ⟨name, -, h⟩ := bind_eq_ok.1 h
  cases h
  rfl

/-- Whatever the form of a field is, its initializers lead from its declared type to its transfer
type and back, in every context that knows the conversions of the nested names. -/
theorem initializer_type (f : Field) (nested : NestedNames) (runtime : Code.Tree)
    (scope : List (String × TypeText)) (field : TypeText → String → Option TypeText) :
    let c := classify f nested
    let known : Context := ⟨scope, field, Conversion runtime nested.toList⟩
    (∀ i, initializer .toTransfer runtime c = .ok i →
      HasType known (.field (.variable "model") i.name) f.declaredText →
        ∃ e, i.value = some e ∧ ∀ t, HasType known e t ↔ t = c.transferText) ∧
    (∀ i, initializer .toModel runtime c = .ok i →
      HasType known (.field (.variable "dto") i.name) c.transferText →
        ∃ e, i.value = some e ∧ ∀ t, HasType known e t ↔ t = f.declaredText) := by
  intro c known
  have only : ∀ {e t}, HasType known e t → ∀ u, HasType known e u ↔ u = t := by
    intro e t he u
    constructor
    · intro hu
      exact hu.unique (fun _ _ _ _ => Conversion.unique) he
    · rintro rfl
      exact he
  constructor
  · intro i hi hm
    refine ⟨_, initializer_eq_ok hi, only ?_⟩
    rcases texts_cases f nested with ⟨hs, ht⟩ | ⟨name, hn, hc, hd, ht⟩
    · rw [hs, ht]
      exact .method hm (.clone rfl rfl)
    · rw [ht, ← formType_eq_render]
      rw [hd, ← formType_eq_render] at hm
      exact converted_hasType hc (.toTransfer hn rfl rfl rfl) hm
  · intro i hi hm
    refine ⟨_, initializer_eq_ok hi, only ?_⟩
    rcases texts_cases f nested with ⟨hs, ht⟩ | ⟨name, hn, hc, hd, ht⟩
    · rw [hs, ← ht]
      exact .method hm (.clone rfl rfl)
    · rw [hd, ← formType_eq_render]
      rw [ht, ← formType_eq_render] at hm
      exact converted_hasType hc (.toModel hn rfl rfl rfl) hm

/-- A type in mixed spelling and with white space. -/
theorem initializer_type_of_orders :
    let f : Field := ⟨"orders", " Option < [ Order ] > "⟩
    let nested := NestedNames.ofList ["Order"]
    let runtime := Tree.word "dtogen"
    let known : Context := ⟨[("model", reference "Person")], fun _ _ => some "Option<Vec<Order>>",
      Conversion runtime nested.toList⟩
    let i := initializerOf .toTransfer runtime .optionalArray "orders"
    initializer .toTransfer runtime (classify f nested) = .ok i ∧
      HasType known (.field (.variable "model") "orders") f.declaredText ∧
      ∃ e, i.value = some e ∧ ∀ t, HasType known e t ↔ t = "Option<Vec<OrderDTO>>" := by
  intro f nested runtime known i
  have hi : initializer .toTransfer runtime (classify f nested) = .ok i := by decide +kernel
  have hd : f.declaredText = "Option<Vec<Order>>" := by decide +kernel
  have ht : (classify f nested).transferText = "Option<Vec<OrderDTO>>" := by decide +kernel
  have hm : HasType known (.field (.variable "model") i.name) f.declaredText :=
    hd ▸ .field (.var rfl) rfl
  obtain ⟨e, he, hu⟩ := (initializer_type f nested runtime _ _).1 i hi hm
  exact ⟨hi, hm, e, he, ht ▸ hu⟩

end Courier.Emit
