import Courier.Emit.Pair
import Courier.Emit.Run
import Courier.Proofs.Model.Classification
import Courier.Proofs.Result
import Mathlib.Data.List.Nodup
import Mathlib.Data.List.Pairwise

/-!
The functions of emitted code. Where all types have different names, every call finds the function
that was emitted for its type.
-/
namespace Courier.Emit
open Code

def emitted (o : Options) (xs : List Extracted) : List Item :=
  xs.flatMap fun x =>
    match (expand x o).result with
    | .ok p => p.items
    | .error _ => []

/-- The names of the types of a model: its own, and that of its transfer type. -/
def typeNames (x : Extracted) : List (Option String) :=
  [identifier? x.name, identifier? x.transferName]

/-! ## Code and names of one model -/

theorem identifier_eq_ok {text name : String} :
    identifier text = .ok name ↔ identifier? text = some name := by
  unfold identifier
  cases identifier? text <;> simp

theorem expand_result (x : Extracted) (o : Options) : (expand x o).result = pairOf x o := by
  simp only [expand, Traced.result_bind, Traced.result_log, Traced.result_ofExcept,
    Traced.result_pure]
  cases pairOf x o <;> rfl

theorem expand_eq_ok {x : Extracted} {o : Options} {p : Pair} :
    (expand x o).result = .ok p ↔ ∃ q, parts x = .ok q ∧ q.pair o = p := by
  rw [expand_result, pairOf, bind_eq_ok]
  refine exists_congr fun q => and_congr_right fun _ => ?_
  show Except.ok _ = Except.ok _ ↔ _
  rw [Except.ok.injEq]

/-- What a field of a model is in its transfer type. -/
def PartOf (nested : NestedNames) (f : Field) (g : String × Code.Tree × FieldShape) : Prop :=
  identifier? f.name = some g.1 ∧
    fieldType f.name (classify f nested).transferText = .ok g.2.1 ∧ (classify f nested).shape = g.2.2

theorem parts_eq_ok {x : Extracted} {q : Parts} : parts x = .ok q ↔ x.name = q.title ∧
    identifier? x.name = some q.model ∧ identifier? x.transferName = some q.transfer ∧
    List.Forall₂ (PartOf x.nested) x.fields q.fields := by
  obtain ⟨title, model, transfer, fields⟩ := q
  have hfield : ∀ (f : Field) (g : String × Code.Tree × FieldShape),
      (∃ a, transferField (classify f x.nested) = .ok a ∧
        (pure (a.1, a.2, (classify f x.nested).shape) : Except GenerateError _) = .ok g) ↔
      PartOf x.nested f g := by
    rintro f ⟨name, type, shape⟩
    rw [transferField, classify_field, PartOf, ← identifier_eq_ok]
    cases identifier f.name with
    | error => simp [bind, Except.bind]
    | ok name' =>
      cases fieldType f.name (classify f x.nested).transferText <;>
        simp [bind, Except.bind, pure, Except.pure]
  rw [parts]
  simp only [bind_eq_ok, ← identifier_eq_ok, mapM_eq_ok, Extracted.classified,
    List.forall₂_map_left_iff, hfield]
  constructor
  · rintro ⟨model, hm, transfer, ht, fields, hf, h⟩
    cases h
    exact ⟨rfl, hm, ht, hf⟩
  · rintro ⟨rfl, hm, ht, hf⟩
    exact ⟨model, hm, transfer, ht, fields, hf, rfl⟩

/-- The parts of a model give the same names as the names alone. -/
theorem names_of_parts {x : Extracted} {p : Parts} (h : parts x = .ok p) : names x = .ok p.names := by
  obtain ⟨-, hm, ht, hf⟩ := parts_eq_ok.1 h
  have hn : (x.classified.mapM fun c => do return (← identifier c.field.name, c.shape)) =
      (.ok (p.fields.map fun f => (f.1, f.2.2)) : Except GenerateError _) := by
    rw [mapM_eq_ok, Extracted.classified, List.forall₂_map_left_iff, List.forall₂_map_right_iff]
    refine hf.imp fun f g h => ?_
    rw [classify_field, identifier_eq_ok.2 h.1, h.2.2]
    rfl
  rw [names, identifier_eq_ok.2 hm, identifier_eq_ok.2 ht, hn]
  rfl

theorem typeNames_of_names {x : Extracted} {n : Names} (h : names x = .ok n) :
    typeNames x = [some n.model, some n.transfer] := by
  obtain ⟨model, hm, h⟩ := bind_eq_ok.1 h
  obtain ⟨transfer, ht, h⟩ := bind_eq_ok.1 h
  obtain ⟨fs, -, h⟩ := bind_eq_ok.1 h
  cases h
  rw [typeNames, identifier_eq_ok.1 hm, identifier_eq_ok.1 ht]

/-! ## Different names -/

variable {xs : List Extracted} {o : Options} {x y : Extracted} {n m : Names}

/-- A type name belongs to one model, as its own name or as that of its transfer type. -/
theorem eq_of_type (hd : (xs.flatMap typeNames).Nodup) (hx : x ∈ xs) (hy : y ∈ xs) {name : String}
    (hnx : some name ∈ typeNames x) (hny : some name ∈ typeNames y) : x = y := by
  obtain ⟨-, hp⟩ := List.nodup_flatMap.1 hd
  by_contra hne
  have hsymm : Std.Symm (Function.onFun List.Disjoint typeNames) := ⟨fun _ _ h _ ha hb => h hb ha⟩
  exact hp.forall hx hy hne hnx hny

theorem model_ne_transfer (hd : (xs.flatMap typeNames).Nodup) (hx : x ∈ xs) (hn : names x = .ok n) :
    n.model ≠ n.transfer := by
  have h := (List.nodup_flatMap.1 hd).1 x hx
  rw [typeNames_of_names hn] at h
  simpa using h

/-! ## Functions -/

theorem mem_emitted {i : Item} :
    i ∈ emitted o xs ↔ ∃ x ∈ xs, ∃ q, parts x = .ok q ∧ i ∈ (q.pair o).items := by
  unfold emitted
  rw [List.mem_flatMap]
  refine exists_congr fun x => and_congr_right fun _ => ?_
  cases h : (expand x o).result with
  | error e =>
    refine iff_of_false List.not_mem_nil ?_
    rintro ⟨q, hq, -⟩
    rw [expand_eq_ok.2 ⟨q, hq, rfl⟩] at h
    cases h
  | ok p =>
    obtain ⟨q, hq, rfl⟩ := expand_eq_ok.1 h
    constructor
    · intro hi
      exact ⟨q, hq, hi⟩
    · rintro ⟨q', hq', hi⟩
      cases hq.symm.trans hq'
      exact hi

theorem mem_items {q : Parts} {i : Item} :
    i ∈ (q.pair o).items ↔
      i = q.struct o.visibility ∨ i = q.new ∨ i = q.names.link o.runtime ∨
        i = q.names.constructor o.runtime ∨ i = q.names.conformance o.runtime := by
  simp [Parts.pair, Pair.items, Pair.transferItems, Pair.modelItems]

/-- Code of a model implements its own type or its transfer type. -/
theorem type_mem_of_impl {q : Parts} (hq : parts x = .ok q) {t : Option TraitPath} {type : String}
    {r : Option (String × String)} {fs : List Function} (h : .impl t type r fs ∈ (q.pair o).items) :
    some type ∈ typeNames x := by
  rw [typeNames_of_names (names_of_parts hq)]
  rcases mem_items.1 h with h | h | h | h | h
  · simp [Parts.struct] at h
  · simp_all [Parts.new, Parts.names]
  · simp_all [Names.link]
  · simp_all [Names.constructor]
  · simp_all [Names.conformance]

/-- Each trait is implemented once for a type, and so are the functions of the type itself. -/
theorem functions_unique (hd : (xs.flatMap typeNames).Nodup) {t : Option TraitPath} {type : String}
    {r r' : Option (String × String)} {fs fs' : List Function}
    (h : .impl t type r fs ∈ emitted o xs) (h' : .impl t type r' fs' ∈ emitted o xs) : fs = fs' := by
  obtain ⟨x, hx, q, hq, h⟩ := mem_emitted.1 h
  obtain ⟨y, hy, q', hq', h'⟩ := mem_emitted.1 h'
  cases eq_of_type hd hx hy (type_mem_of_impl hq h) (type_mem_of_impl hq' h')
  cases hq.symm.trans hq'
  have hne := model_ne_transfer hd hx (names_of_parts hq)
  -- The trait and the type together tell the four implementations apart.
  rcases mem_items.1 h with h | h | h | h | h <;> rcases mem_items.1 h' with h' | h' | h' | h' | h' <;>
    simp_all [Parts.struct, Parts.new, Names.link, Names.constructor, Names.conformance, Parts.names]

theorem find?_eq_some_of_unique {α : Type} {p : α → Bool} {l : List α} {a : α} (ha : a ∈ l)
    (hp : p a = true) (hu : ∀ b ∈ l, p b = true → b = a) : l.find? p = some a := by
  cases h : l.find? p with
  | none => exact absurd hp (List.find?_eq_none.1 h a ha)
  | some b => rw [hu b (List.mem_of_find?_eq_some h) (List.find?_some h)]

/-- A function of an implementation is found by its trait, type and name. -/
theorem function?_emitted (hd : (xs.flatMap typeNames).Nodup) {t : Option TraitPath} {type : String}
    {r : Option (String × String)} {fs : List Function} {f : Function}
    (hi : .impl t type r fs ∈ emitted o xs) (hn : (fs.map (·.name)).Nodup) (hf : f ∈ fs) :
    function? (emitted o xs) t type f.name = some f := by
  refine find?_eq_some_of_unique ?_ (beq_self_eq_true _) ?_
  · exact List.mem_flatMap.2 ⟨_, hi, by simpa [Item.functionsFor] using hf⟩
  · intro g hg hname
    obtain ⟨i, hi', hg⟩ := List.mem_flatMap.1 hg
    cases i with
    | struct => simp [Item.functionsFor] at hg
    | impl t' type' r' fs' =>
      by_cases hk : t' = t ∧ type' = type
      · obtain ⟨rfl, rfl⟩ := hk
        cases functions_unique hd hi hi'
        have hg : g ∈ fs := by simpa [Item.functionsFor] using hg
        exact List.inj_on_of_nodup_map hn hg hf (eq_of_beq hname)
      · simp [Item.functionsFor, hk] at hg

/-! ## Calls -/

namespace Direction

def reverse : Direction → Direction
  | .toTransfer => .toModel
  | .toModel => .toTransfer

/-- The type whose values are converted. -/
def sourceType (d : Direction) (n : Names) : String :=
  match d with
  | .toTransfer => n.model
  | .toModel => n.transfer

/-- The type of the converted values. -/
def targetType (d : Direction) (n : Names) : String := d.reverse.sourceType n

/-- The function that builds the converted value field by field. -/
def builder (d : Direction) (runtime : Code.Tree) (n : Names) : FunctionName :=
  match d with
  | .toTransfer => .qualified n.transfer ⟨runtime, .dto⟩ "from_model"
  | .toModel => .inherent n.model "from_dto"

/-- The functions of the traits that convert, by the value's own type or by a type that is named. -/
def delegates (d : Direction) (runtime : Code.Tree) (n : Names) : List FunctionName :=
  match d with
  | .toTransfer =>
    [.ofTrait ⟨runtime, .convertible⟩ "to_dto", .qualified n.model ⟨runtime, .convertible⟩ "to_dto"]
  | .toModel =>
    [.ofTrait ⟨runtime, .dto⟩ "to_model", .qualified n.transfer ⟨runtime, .dto⟩ "to_model",
      .qualified n.model ⟨runtime, .convertible⟩ "from_dto"]

/-- All functions that convert values of a model in a direction. -/
def entryPoints (d : Direction) (runtime : Code.Tree) (n : Names) : List FunctionName :=
  d.builder runtime n :: d.delegates runtime n

theorem reverse_reverse (d : Direction) : d.reverse.reverse = d := by cases d <;> rfl

theorem convert_mem_delegates (d : Direction) (runtime : Code.Tree) (n : Names) :
    d.convert runtime ∈ d.delegates runtime n := by
  cases d <;> simp [convert, delegates]

end Direction

section
variable {items : List Item} {args : List Value} {type name : String} {t : TraitPath} {g : Function}

theorem resolve_qualified (h : function? items (some t) type name = some g) :
    resolve items args (.qualified type t name) = some (type, g) := by
  simp [resolve, h]

theorem resolve_inherent (h : function? items none type name = some g) :
    resolve items args (.inherent type name) = some (type, g) := by
  simp [resolve, h]

/-- The function of a trait is that of the type of the first argument. -/
theorem resolve_ofTrait (h : function? items (some t) type name = some g)
    (fs : List (String × Value)) :
    resolve items (.record type fs :: args) (.ofTrait t name) = some (type, g) := by
  simp [resolve, Value.type?, h]

theorem meaningOf_succ {f : FunctionName} (h : resolve items args f = some (type, g)) (k : Nat) :
    meaningOf items (k + 1) f args = g.apply (meaningOf items k) type args := by
  simp [meaningOf, h]

end

section
variable {meaning : Meaning} {type : String} {f : Function} {i : Input} {v : Value}

theorem apply_build {is : List Initializer} (hi : f.inputs = [i]) (hb : f.body = .build is) :
    f.apply meaning type [v] =
      (is.mapM (Initializer.eval meaning [(i.name, v)])).map (.record type) := by
  simp only [Function.apply, hi, hb, Body.eval, List.length_singleton, if_true, List.map_cons,
    List.map_nil, List.zip_cons_cons, List.zip_nil_right]
  cases is.mapM (Initializer.eval meaning [(i.name, v)]) <;> rfl

theorem apply_call {g : FunctionName} (hi : f.inputs = [i])
    (hb : f.body = .expr (.call g (.variable i.name))) : f.apply meaning type [v] = meaning g [v] := by
  simp [Function.apply, hi, hb, Body.eval, Expr.eval]

end

section
variable (hd : (xs.flatMap typeNames).Nodup) (hx : x ∈ xs) {q : Parts} (hq : parts x = .ok q)
include hd hx hq

/-- A builder evaluates the initializers of all fields. -/
theorem meaningOf_builder (d : Direction) (k : Nat) (v : Value) :
    meaningOf (emitted o xs) (k + 1) (d.builder o.runtime q.names) [v] =
      ((q.names.initializers d o.runtime).mapM
        (Initializer.eval (meaningOf (emitted o xs) k) [(d.source, v)])).map
          (.record (d.targetType q.names)) := by
  cases d with
  | toTransfer =>
    have hi : q.names.link o.runtime ∈ emitted o xs :=
      mem_emitted.2 ⟨x, hx, q, hq, mem_items.2 (by simp)⟩
    have hf : function? (emitted o xs) (some ⟨o.runtime, .dto⟩) q.transfer "from_model" = some _ :=
      function?_emitted hd hi (by simp) (List.mem_cons_self ..)
    exact (meaningOf_succ (resolve_qualified hf) k).trans
      (apply_build (i := .variable "model" (.borrowed q.model)) rfl rfl)
  | toModel =>
    have hi : q.names.constructor o.runtime ∈ emitted o xs :=
      mem_emitted.2 ⟨x, hx, q, hq, mem_items.2 (by simp)⟩
    have hf : function? (emitted o xs) none q.model "from_dto" = some _ :=
      function?_emitted hd hi (by simp) (List.mem_cons_self ..)
    exact (meaningOf_succ (resolve_inherent hf) k).trans
      (apply_build (i := .variable "dto" (.borrowed q.transfer)) rfl rfl)

/-- The functions of the traits only call the builder. -/
theorem meaningOf_delegate {d : Direction} {f : FunctionName}
    (hf : f ∈ d.delegates o.runtime q.names) (k : Nat) (fs : List (String × Value)) :
    meaningOf (emitted o xs) (k + 1) f [.record (d.sourceType q.names) fs] =
      meaningOf (emitted o xs) k (d.builder o.runtime q.names)
        [.record (d.sourceType q.names) fs] := by
  have hl : q.names.link o.runtime ∈ emitted o xs :=
    mem_emitted.2 ⟨x, hx, q, hq, mem_items.2 (by simp)⟩
  have hc : q.names.conformance o.runtime ∈ emitted o xs :=
    mem_emitted.2 ⟨x, hx, q, hq, mem_items.2 (by simp)⟩
  cases d with
  | toTransfer =>
    have hg : function? (emitted o xs) (some ⟨o.runtime, .convertible⟩) q.model "to_dto" = some _ :=
      function?_emitted hd hc (by simp) (List.mem_cons_self ..)
    simp only [Direction.delegates, List.mem_cons, List.not_mem_nil, or_false] at hf
    rcases hf with rfl | rfl
    · exact (meaningOf_succ (resolve_ofTrait hg fs) k).trans (apply_call rfl rfl)
    · exact (meaningOf_succ (resolve_qualified hg) k).trans (apply_call rfl rfl)
  | toModel =>
    have hg : function? (emitted o xs) (some ⟨o.runtime, .dto⟩) q.transfer "to_model" = some _ :=
      function?_emitted hd hl (by simp) (List.mem_cons_of_mem _ (List.mem_cons_self ..))
    have hg' : function? (emitted o xs) (some ⟨o.runtime, .convertible⟩) q.model "from_dto" = some _ :=
      function?_emitted hd hc (by simp) (List.mem_cons_of_mem _ (List.mem_cons_self ..))
    simp only [Direction.delegates, List.mem_cons, List.not_mem_nil, or_false] at hf
    rcases hf with rfl | rfl | rfl
    · exact (meaningOf_succ (resolve_ofTrait hg fs) k).trans (apply_call rfl rfl)
    · exact (meaningOf_succ (resolve_qualified hg) k).trans (apply_call rfl rfl)
    · exact (meaningOf_succ (resolve_qualified hg') k).trans (apply_call rfl rfl)

end

end Courier.Emit
