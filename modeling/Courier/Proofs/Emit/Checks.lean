import Courier.Proofs.Emit.Linking
import Courier.Proofs.Emit.TransferTypes

/-!
What the code for a model has to parse. Its two halves look at the same names, and one of them at
types too; both together fail as one list of checks does, at the first that fails.
-/
namespace Courier.Emit

/-! ## Checks -/

/-- Something that has to parse: a name, or the type of a field. -/
inductive Check where
  | name (text : String)
  | type (field text : String)
  deriving DecidableEq, Repr

def Check.run : Check → Except GenerateError Unit
  | .name text => (identifier text).map fun _ => ()
  | .type field text => (fieldType field text).map fun _ => ()

/-- The checks of a field: its name, then its type. -/
def fieldChecks (c : Classified) : List Check :=
  [.name c.field.name, .type c.field.name c.transferText]

/-- The checks of a model: its name, the name of its transfer type, then its fields in order. -/
def checks (name : String) (cs : List Classified) : List Check :=
  .name name :: .name (transferName name) :: cs.flatMap fieldChecks

/-- A computation succeeds where all checks do, and fails as the first check that fails. -/
def Performs {α : Type} (ks : List Check) (x : Except GenerateError α) : Prop :=
  Agree (fun _ _ => True) x (ks.mapM Check.run)

namespace Performs

variable {α β γ : Type} {ks ls : List Check} {x : Except GenerateError α} {e : GenerateError}

theorem exists_ok_iff (h : Performs ks x) : (∃ a, x = .ok a) ↔ ∀ k ∈ ks, k.run = .ok () := by
  have hall : (∃ us, ks.mapM Check.run = .ok us) ↔ ∀ k ∈ ks, k.run = .ok () := by
    simp only [mapM_eq_ok]
    constructor
    · rintro ⟨us, hus⟩ k hk
      obtain ⟨_, -, hu⟩ := forall₂_mem_left hus k hk
      exact hu
    · intro hk
      refine ⟨ks.map fun _ => (), ?_⟩
      rw [List.forall₂_map_right_iff]
      exact List.forall₂_same.2 hk
  exact (Agree.exists_ok_iff h).trans hall

theorem eq_error_iff (h : Performs ks x) : x = .error e ↔ FirstError Check.run ks e :=
  (Agree.eq_error_iff h).trans mapM_eq_error

theorem pure (a : α) : Performs [] (Pure.pure a : Except GenerateError α) := .ok trivial

theorem bind {f : α → Except GenerateError β} (h : Performs ks x) (hf : ∀ a, Performs ls (f a)) :
    Performs (ks ++ ls) (x >>= f) := by
  rw [Performs, List.mapM_append]
  exact Agree.bind h fun a _ _ => (hf a).map_right fun _ _ _ => trivial

theorem map (h : Performs ks x) (f : α → β) : Performs ks (x >>= fun a => Pure.pure (f a)) := by
  simpa using h.bind fun a => pure (f a)

theorem mapM {g : γ → List Check} {f : γ → Except GenerateError β} (hf : ∀ c, Performs (g c) (f c))
    (cs : List γ) : Performs (cs.flatMap g) (cs.mapM f) := by
  induction cs with
  | nil => exact pure _
  | cons c cs ih =>
    rw [List.mapM_cons, List.flatMap_cons]
    exact (hf c).bind fun b => ih.map (b :: ·)

end Performs

theorem performs_identifier (text : String) : Performs [.name text] (identifier text) := by
  unfold Performs
  rw [List.mapM_cons, Check.run]
  cases identifier text with
  | ok => exact .ok trivial
  | error => exact .error

theorem performs_fieldType (field text : String) :
    Performs [.type field text] (fieldType field text) := by
  unfold Performs
  rw [List.mapM_cons, Check.run]
  cases fieldType field text with
  | ok => exact .ok trivial
  | error => exact .error

theorem performs_transferField (c : Classified) : Performs (fieldChecks c) (transferField c) :=
  (performs_identifier _).bind fun _ => (performs_fieldType ..).map _

/-! ## Halves -/

/-- The parts for a name and fields in any forms. -/
def partsOf (name : String) (cs : List Classified) : Except GenerateError Parts := do
  let model ← identifier name
  let transfer ← identifier (transferName name)
  let fields ← cs.mapM fun c => do
    let (name, type) ← transferField c
    return (name, type, c.shape)
  return ⟨name, model, transfer, fields⟩

/-- The names of fields with their forms. -/
def namedFields (cs : List Classified) : Except GenerateError (List (String × FieldShape)) :=
  cs.mapM fun c => do return (← identifier c.field.name, c.shape)

/-- The code on the side of the transfer type. Its initializers take the names of the fields once
more. -/
def transferHalf (name : String) (cs : List Classified) (o : Options) :
    Except GenerateError (List Item) := do
  let p ← partsOf name cs
  let fields ← namedFields cs
  return [p.struct o.visibility, p.new, Names.link ⟨p.model, p.transfer, fields⟩ o.runtime]

/-- The code on the side of the model, which looks at no type. -/
def modelHalf (name : String) (cs : List Classified) (runtime : Code.Tree) :
    Except GenerateError (List Item) := do
  let model ← identifier name
  let transfer ← identifier (transferName name)
  let fields ← namedFields cs
  let n : Names := ⟨model, transfer, fields⟩
  return [n.constructor runtime, n.conformance runtime]

variable {name : String} {cs : List Classified} {o : Options} {q : Parts} {x : Extracted}

theorem performs_partsOf (name : String) (cs : List Classified) :
    Performs (checks name cs) (partsOf name cs) :=
  (performs_identifier name).bind fun _ => (performs_identifier (transferName name)).bind fun _ =>
    (Performs.mapM (fun c => (performs_transferField c).map _) cs).map _

/-- What is parsed for the parts holds all that the names need. -/
theorem names_of_partsOf (h : partsOf name cs = .ok q) : identifier name = .ok q.model ∧
    identifier (transferName name) = .ok q.transfer ∧ namedFields cs = .ok q.names.fields := by
  obtain ⟨model, hm, h⟩ := bind_eq_ok.1 h
  obtain ⟨transfer, ht, h⟩ := bind_eq_ok.1 h
  obtain ⟨fields, hf, h⟩ := bind_eq_ok.1 h
  cases h
  refine ⟨hm, ht, ?_⟩
  rw [namedFields, mapM_eq_ok]
  refine List.forall₂_map_right_iff.2 ((mapM_eq_ok.1 hf).imp fun c g hg => ?_)
  obtain ⟨⟨field, type⟩, hc, hg⟩ := bind_eq_ok.1 hg
  cases hg
  rw [(transferField_eq_ok.1 hc).1]
  rfl

theorem transferHalf_of_partsOf (h : partsOf name cs = .ok q) :
    transferHalf name cs o = .ok (q.pair o).transferItems := by
  rw [transferHalf, h, ok_bind, (names_of_partsOf h).2.2]
  rfl

theorem modelHalf_of_partsOf (h : partsOf name cs = .ok q) :
    modelHalf name cs o.runtime = .ok (q.pair o).modelItems := by
  obtain ⟨hm, ht, hf⟩ := names_of_partsOf h
  rw [modelHalf, hm, ok_bind, ht, ok_bind, hf]
  rfl

theorem modelHalf_of_transferHalf {is : List Item} (h : transferHalf name cs o = .ok is) :
    ∃ js, modelHalf name cs o.runtime = .ok js := by
  obtain ⟨q, hq, -⟩ := bind_eq_ok.1 h
  exact ⟨_, modelHalf_of_partsOf hq⟩

theorem modelItemsOf_eq (x : Extracted) (runtime : Code.Tree) :
    modelItemsOf x runtime = modelHalf x.name x.classified runtime := by
  simp [modelItemsOf, names, modelHalf, namedFields, Extracted.transferName]

theorem items_expand (x : Extracted) (o : Options) : (expand x o).result.map Pair.items = (do
    return (← transferHalf x.name x.classified o) ++
      (← modelHalf x.name x.classified o.runtime)) := by
  rw [expand_result, pairOf, show parts x = partsOf x.name x.classified from rfl]
  cases h : partsOf x.name x.classified with
  | ok q =>
    rw [transferHalf_of_partsOf h, modelHalf_of_partsOf h]
    rfl
  | error e =>
    rw [transferHalf, h]
    rfl

/-! ## Outcome -/

theorem performs_expand (x : Extracted) (o : Options) :
    Performs (checks x.name x.classified) (expand x o).result := by
  rw [expand_result]
  exact (performs_partsOf x.name x.classified).map _

theorem Check.run_name {text : String} :
    (Check.name text).run = .ok () ↔ ∃ y, identifier text = .ok y := by
  rw [Check.run]
  cases identifier text <;> simp [Except.map]

theorem Check.run_type {field text : String} :
    (Check.type field text).run = .ok () ↔ ∃ t, fieldType field text = .ok t := by
  rw [Check.run]
  cases fieldType field text <;> simp [Except.map]

theorem fieldType_of_isConvertible {c : Classified} (h : c ∈ x.classified)
    (hc : c.isConvertible = true) (field : String) : ∃ t, fieldType field c.transferText = .ok t := by
  obtain ⟨f, -, rfl⟩ := List.mem_map.1 h
  obtain ⟨name, form, hform⟩ := exists_isForm hc
  exact hform.exists_fieldType field

theorem Check.eq_type_of_run {k : Check} {field text : String}
    (h : k.run = .error (.invalidType text field)) : k = .type field text := by
  cases k with
  | name y =>
    rw [Check.run, identifier] at h
    cases hy : identifier? y <;> simp [hy, Except.map] at h
  | type f y =>
    rw [Check.run, fieldType] at h
    split at h <;> simp [Except.map] at h
    rw [h.1, h.2]

/-- Code is made for a model when its names and the types of its fields parse. Otherwise the first
that does not parse is refused: the name, the name of the transfer type, then the name and the type of
each field in turn. A type that is refused is one that was not converted. And the code on the side of
the model never fails behind that of the transfer type. -/
theorem expand_first_failure (x : Extracted) (o : Options) :
    ((∃ p, (expand x o).result = .ok p) ↔
      (∃ y, identifier x.name = .ok y) ∧ (∃ y, identifier x.transferName = .ok y) ∧
        ∀ c ∈ x.classified, (∃ y, identifier c.field.name = .ok y) ∧
          ∃ t, fieldType c.field.name c.transferText = .ok t) ∧
    (∀ e, (expand x o).result = .error e ↔
      FirstError Check.run (checks x.name x.classified) e) ∧
    (∀ text field, (expand x o).result = .error (.invalidType text field) →
      ∃ c ∈ x.classified, c.isConvertible = false ∧ c.field.name = field ∧ c.transferText = text) ∧
    (∀ name cs is, transferHalf name cs o = .ok is → ∃ js, modelHalf name cs o.runtime = .ok js) ∧
    modelItemsOf x o.runtime = modelHalf x.name x.classified o.runtime ∧
    (expand x o).result.map Pair.items = (do
      return (← transferHalf x.name x.classified o) ++
        (← modelHalf x.name x.classified o.runtime)) := by
  have h := performs_expand x o
  refine ⟨?_, fun e => h.eq_error_iff, fun text field he => ?_,
    fun _ _ _ => modelHalf_of_transferHalf, modelItemsOf_eq x _, items_expand x o⟩
  · simp only [h.exists_ok_iff, checks, fieldChecks, List.forall_mem_cons, List.forall_mem_flatMap,
      List.not_mem_nil, false_implies, implies_true, and_true, Check.run_name, Check.run_type,
      Extracted.transferName]
  · obtain ⟨before, k, after, hk, -, hrun⟩ := h.eq_error_iff.1 he
    obtain rfl := Check.eq_type_of_run hrun
    have hmem : Check.type field text ∈ checks x.name x.classified := by simp [hk]
    obtain ⟨c, hc, hmem⟩ : ∃ c ∈ x.classified, Check.type field text ∈ fieldChecks c := by
      simpa [checks] using hmem
    obtain ⟨rfl, rfl⟩ : field = c.field.name ∧ text = c.transferText := by
      simpa [fieldChecks] using hmem
    refine ⟨c, hc, ?_, rfl, rfl⟩
    by_contra hconv
    have := Check.run_type.2 (fieldType_of_isConvertible hc (by simpa using hconv) c.field.name)
    rw [hrun] at this
    cases this

/-- A field whose type is cut off, in front of one whose name is two words. -/
def basket : Extracted :=
  ⟨"Basket", [⟨"lines", "[Line]?"⟩, ⟨"total", "Vec<"⟩, ⟨"first name", "u8"⟩], .ofList ["Line"]⟩

theorem expand_first_failure_of_basket :
    (expand basket .default).result = .error (.invalidType "Vec<" "total") ∧
      (∃ c ∈ basket.classified, c.isConvertible = false ∧ c.field.name = "total" ∧
        c.transferText = "Vec<") ∧
      ∃ is js, transferHalf "Basket" (basket.classified.take 1) .default = .ok is ∧
        modelHalf "Basket" (basket.classified.take 1) defaultRuntime = .ok js := by
  obtain ⟨-, herror, hscalar, hhalves, -⟩ := expand_first_failure basket .default
  have hfirst : FirstError Check.run (checks basket.name basket.classified)
      (.invalidType "Vec<" "total") := by
    refine ⟨[.name "Basket", .name "BasketDTO", .name "lines", .type "lines" "Option<Vec<LineDTO>>",
      .name "total"], .type "total" "Vec<", [.name "first name", .type "first name" "u8"],
      by decide +kernel, fun k hk => ?_, by decide +kernel⟩
    refine exists_eq_ok ?_
    revert k
    decide +kernel
  have he := (herror _).2 hfirst
  obtain ⟨is, his⟩ := exists_eq_ok
    (x := transferHalf "Basket" (basket.classified.take 1) .default) (by decide +kernel)
  obtain ⟨js, hjs⟩ := hhalves _ _ _ his
  exact ⟨he, hscalar _ _ he, is, js, his, hjs⟩

end Courier.Emit
