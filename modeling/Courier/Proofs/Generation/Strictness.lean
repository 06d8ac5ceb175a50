import Courier.Proofs.Generation.Pairs
import Courier.Proofs.Trace

/-!
Strict and lenient generation. They are the same run unless a nested name has no model: then the
strict one stops at the first such name, and the lenient one warns of all of them.
-/
namespace Courier
open Code Emit

/-! ## Runs without warnings -/

theorem fieldsFrom_quiet (model : String) (seen : List String) (ms : List Member) :
    (fieldsFrom model seen ms).Quiet := by
  fun_induction fieldsFrom model seen ms with
  | case1 => rfl
  | case2 => exact Traced.quiet_ofExcept _
  | case3 seen name type ms _ ih => exact ih.bind fun _ => Traced.quiet_pure _
  | case4 seen m ms _ ih => exact Traced.Quiet.bind rfl fun _ => ih

theorem extract_quiet (d : Declaration) (as : List Argument) : (extract d as).Quiet := by
  unfold extract
  split
  · exact Traced.quiet_ofExcept _
  · exact (Traced.quiet_ofExcept _).bind fun _ => (fieldsFrom_quiet ..).bind fun _ =>
      Traced.Quiet.bind rfl fun _ => Traced.quiet_pure _

theorem Classified.events_quiet (c : Classified) : warnings c.events = [] := by
  unfold Classified.events
  split <;> rfl

theorem classificationEvents_quiet (x : Extracted) : warnings (classificationEvents x) = [] := by
  rw [warnings, classificationEvents, List.filter_flatMap, List.flatMap_eq_nil_iff]
  exact fun c _ => c.events_quiet

theorem expand_quiet (x : Extracted) (o : Options) : (expand x o).Quiet :=
  Traced.Quiet.bind (classificationEvents_quiet x) fun _ => (Traced.quiet_ofExcept _).bind fun _ =>
    Traced.Quiet.bind rfl fun _ => Traced.quiet_pure _

/-! ## Names without a model -/

namespace Schema

variable (s : Schema)

/-- The nested names of a model that no model of the schema has, each behind the model's own. -/
def missingOf (m : Model) : List (String × String) :=
  match nestedNames m.declaration.name m.arguments with
  | .ok nested => (nested.toList.filter fun n => n ∉ s.names).map fun n => (m.declaration.name, n)
  | .error _ => []

/-- All nested names without a model, by model and in the order in which they were listed. -/
def missing : List (String × String) := s.models.flatMap s.missingOf

/-- The descriptors of all models, whatever their nested names are. -/
def extractAll : Traced GenerateError (List Extracted) := do
  .ofExcept (s.validate.mapError .schema)
  (Traced.forEach (fun m => extract m.declaration m.arguments) s.models).mapError .extract

variable {s} {xs : List Extracted} {strict : Bool}

/-- Strictness matters only behind the extraction of all models. -/
theorem extractModels_eq :
    s.extractModels strict = (do let xs ← s.extractAll; checkNested strict xs; return xs) := by
  rw [extractAll, bind_assoc]
  rfl

theorem extractAll_quiet : s.extractAll.Quiet :=
  (Traced.quiet_ofExcept _).bind fun _ =>
    (Traced.Quiet.forEach (fun _ => extract_quiet ..) _).mapError _

theorem extractAll_eq_ok :
    s.extractAll.result = .ok xs ↔ s.validate = .ok () ∧
      List.Forall₂ (fun m x => (extract m.declaration m.arguments).result = .ok x) s.models xs := by
  simp only [extractAll, Traced.result_bind, bind_eq_ok, Traced.result_ofExcept, Except.mapError_eq_ok,
    Traced.result_mapError, Traced.forEach_eq_ok]
  exact ⟨fun ⟨_, hv, hx⟩ => ⟨hv, hx⟩, fun ⟨hv, hx⟩ => ⟨(), hv, hx⟩⟩

end Schema

theorem extract_nested {d : Declaration} {as : List Argument} {x : Extracted}
    (h : (extract d as).result = .ok x) : nestedNames d.name as = .ok x.nested := by
  obtain ⟨-, hs, -, -, -, hn⟩ := extract_eq_ok.1 h
  exact nestedNames_eq_ok.2 ⟨hs, hn⟩

namespace Schema

variable {s : Schema} {xs : List Extracted}

theorem names_of_extractAll (h : s.extractAll.result = .ok xs) : xs.map (·.name) = s.names := by
  obtain ⟨-, hx⟩ := extractAll_eq_ok.1 h
  clear h
  rw [names]
  generalize s.models = ms at hx
  induction hx with
  | nil => rfl
  | cons hx _ ih => rw [List.map_cons, List.map_cons, extract_name hx, ih]

/-- What is unresolved are the nested names without a model. -/
theorem unresolved_eq_missing (h : s.extractAll.result = .ok xs) :
    unresolved xs = s.missing.map fun p => ⟨p.1, p.2⟩ := by
  obtain ⟨-, hx⟩ := extractAll_eq_ok.1 h
  rw [unresolved, missing, names_of_extractAll h]
  clear h
  -- the names of the schema stay while its models are taken one by one
  generalize s.models = ms at hx
  induction hx with
  | nil => rfl
  | @cons m x ms xs hx _ ih =>
    rw [List.flatMap_cons, List.flatMap_cons, List.map_append, ih, missingOf, extract_nested hx,
      extract_name hx]
    simp

/-! ## Both runs -/

theorem checkNested_of_nil {strict : Bool} (h : unresolved xs = []) :
    checkNested strict xs = pure () := by
  unfold checkNested
  rw [h]
  cases strict <;> rfl

theorem extractModels_lenient : (s.extractModels false).result = s.extractAll.result := by
  rw [extractModels_eq, Traced.result_bind]
  cases s.extractAll.result <;> rfl

theorem extractModels_strict (h : s.extractAll.result = .ok xs) :
    (s.extractModels true).result = match s.missing with
      | [] => .ok xs
      | (model, nested) :: _ => .error (.schema (.unresolvedNested model nested)) := by
  rw [extractModels_eq, Traced.result_bind, h]
  show (checkNested true xs >>= fun _ => pure xs).result = _
  unfold checkNested
  rw [unresolved_eq_missing h]
  rcases s.missing with _ | ⟨⟨model, nested⟩, ms⟩ <;> rfl

theorem warnings_extractModels (h : s.extractAll.result = .ok xs) :
    warnings (s.extractModels false).events = s.missing.map fun p => .unresolvedNested p.1 p.2 := by
  rw [extractModels_eq, Traced.events_bind_ok h, warnings_append, extractAll_quiet, List.nil_append,
    Traced.warnings_bind_of_quiet fun _ => Traced.quiet_pure _]
  show warnings ((unresolved xs).map _) = _
  rw [unresolved_eq_missing h, List.map_map]
  exact List.filter_eq_self.2 (List.forall_mem_map.2 fun _ _ => rfl)

/-- Where strict extraction succeeds, the lenient one is the same run. -/
theorem extractModels_eq_of_ok (h : (s.extractModels true).result = .ok xs) :
    s.extractModels false = s.extractModels true ∧ warnings (s.extractModels false).events = [] := by
  obtain ⟨hv, hx, hu⟩ := extractModels_eq_ok.1 h
  have hall := extractAll_eq_ok.2 ⟨hv, hx⟩
  have hm : s.missing = [] := by
    have := hu rfl
    rw [unresolved_eq_missing hall] at this
    exact List.map_eq_nil_iff.1 this
  refine ⟨?_, by rw [warnings_extractModels hall, hm]; rfl⟩
  rw [extractModels_eq, extractModels_eq]
  exact Traced.bind_congr_of_ok hall (by rw [checkNested_of_nil (hu rfl), checkNested_of_nil (hu rfl)])

theorem generatePairs_eq_of_ok {runtime : String} {ps : List Pair}
    (h : (s.generatePairs ⟨runtime, true⟩).result = .ok ps) :
    s.generatePairs ⟨runtime, false⟩ = s.generatePairs ⟨runtime, true⟩ ∧
      warnings (s.generatePairs ⟨runtime, false⟩).events = [] := by
  obtain ⟨_, xs, -, hx, -⟩ := generatePairs_eq_ok.1 h
  obtain ⟨heq, hw⟩ := extractModels_eq_of_ok hx
  constructor
  · rw [generatePairs, heq]
    rfl
  · rw [generatePairs]
    exact (Traced.quiet_ofExcept _).bind fun o =>
      (Traced.warnings_bind_of_quiet (Traced.Quiet.forEach fun x => expand_quiet x o)).trans hw

theorem generateTokens_eq_of_ok {runtime : String} {ts : Tokens}
    (h : (s.generateTokens ⟨runtime, true⟩).result = .ok ts) :
    s.generateTokens ⟨runtime, false⟩ = s.generateTokens ⟨runtime, true⟩ ∧
      warnings (s.generateTokens ⟨runtime, false⟩).events = [] := by
  obtain ⟨ps, hps, -⟩ := generateTokens_eq_ok.1 h
  obtain ⟨heq, hw⟩ := generatePairs_eq_of_ok hps
  constructor
  · rw [generateTokens, heq]
    rfl
  · rw [generateTokens, Traced.warnings_bind_of_quiet fun _ => Traced.quiet_pure _, hw]

theorem generate_eq_of_ok {runtime : String} {text : String}
    (h : (s.generate ⟨runtime, true⟩).result = .ok text) :
    s.generate ⟨runtime, false⟩ = s.generate ⟨runtime, true⟩ ∧
      warnings (s.generate ⟨runtime, false⟩).events = [] := by
  obtain ⟨ts, _, hts, -, -⟩ := generate_eq_ok.1 h
  obtain ⟨heq, hw⟩ := generateTokens_eq_of_ok hts
  constructor
  · rw [generate, heq]
    rfl
  · rw [generate, Traced.warnings_bind_of_quiet fun _ => ?_, hw]
    exact (Traced.quiet_ofExcept _).bind fun _ => Traced.Quiet.bind rfl fun _ => Traced.quiet_pure _

end Schema

/-- Strict generation only restricts the lenient one. Where it succeeds, the lenient run is the same
and warns of nothing. Where lenient extraction succeeds, it warns of exactly the nested names
without a model, and the strict one fails with the first of them; where it fails, both fail alike. -/
theorem strict_restricts (s : Schema) (runtime : String) :
    ((∀ ts, (s.generateTokens ⟨runtime, true⟩).result = .ok ts →
        s.generateTokens ⟨runtime, false⟩ = s.generateTokens ⟨runtime, true⟩ ∧
          warnings (s.generateTokens ⟨runtime, false⟩).events = []) ∧
      ∀ text, (s.generate ⟨runtime, true⟩).result = .ok text →
        s.generate ⟨runtime, false⟩ = s.generate ⟨runtime, true⟩ ∧
          warnings (s.generate ⟨runtime, false⟩).events = []) ∧
    (∀ xs, (s.extractModels false).result = .ok xs →
      (s.extractModels true).result = (match s.missing with
        | [] => .ok xs
        | (model, nested) :: _ => .error (.schema (.unresolvedNested model nested))) ∧
      warnings (s.extractModels false).events =
        s.missing.map fun p => .unresolvedNested p.1 p.2) ∧
    ∀ e, (s.extractModels false).result = .error e → (s.extractModels true).result = .error e := by
  refine ⟨⟨fun _ => Schema.generateTokens_eq_of_ok, fun _ => Schema.generate_eq_of_ok⟩,
    fun xs h => ?_, fun e h => ?_⟩
  · rw [Schema.extractModels_lenient] at h
    exact ⟨Schema.extractModels_strict h, Schema.warnings_extractModels h⟩
  · rw [Schema.extractModels_lenient] at h
    rw [Schema.extractModels_eq, Traced.result_bind, h]
    rfl

/-- Companies and people, in front of their addresses. -/
def directory (nested : List String) : Schema :=
  ⟨"", [⟨⟨.struct, "Company", [.stored "staff" (some "[Person]")]⟩,
      [⟨some "nestedDTOs", .list [.text "Person"]⟩]⟩,
    ⟨⟨.struct, "Person", [.stored "home" (some "Address")]⟩,
      [⟨some "nestedDTOs", .list (nested.map .text)⟩]⟩,
    ⟨⟨.struct, "Address", []⟩, []⟩]⟩

theorem strict_restricts_of_directory :
    (∃ ts, ((directory ["Address"]).generateTokens ⟨"::dtogen", false⟩).result = .ok ts ∧
      warnings ((directory ["Address"]).generateTokens ⟨"::dtogen", false⟩).events = []) ∧
    ((directory ["Adress", "Pet"]).extractModels true).result =
      .error (.schema (.unresolvedNested "Person" "Adress")) ∧
    warnings ((directory ["Adress", "Pet"]).extractModels false).events =
      [.unresolvedNested "Person" "Adress", .unresolvedNested "Person" "Pet"] := by
  constructor
  · obtain ⟨ts, h⟩ := exists_eq_ok
      (x := ((directory ["Address"]).generateTokens ⟨"::dtogen", true⟩).result) (by decide +kernel)
    obtain ⟨heq, hw⟩ := (strict_restricts _ "::dtogen").1.1 ts h
    exact ⟨ts, heq ▸ h, hw⟩
  · obtain ⟨xs, h⟩ := exists_eq_ok
      (x := ((directory ["Adress", "Pet"]).extractModels false).result) (by decide +kernel)
    obtain ⟨hs, hw⟩ := (strict_restricts _ "::dtogen").2.1 xs h
    have hm : (directory ["Adress", "Pet"]).missing = [("Person", "Adress"), ("Person", "Pet")] := by
      decide +kernel
    rw [hm] at hs hw
    exact ⟨hs, hw⟩

end Courier
