import Courier.Proofs.Generation.Independence

/-!
Which failure is reported. Generation looks for them stage by stage, and in each stage in the order of
the models: the first stage with a failure decides, then the first model in it.
-/
namespace Courier
open Code Emit

theorem firstRepeated_eq_some {seen names : List String} {n : String} :
    firstRepeated seen names = some n ↔ ∃ before after, names = before ++ n :: after ∧
      before.Nodup ∧ (∀ m ∈ before, m ∉ seen) ∧ (n ∈ seen ∨ n ∈ before) := by
  fun_induction firstRepeated seen names with
  | case1 => simp
  | case2 seen m ms h =>
    have hm : m ∈ seen := by simpa using h
    constructor
    · rintro ⟨⟩
      exact ⟨[], ms, rfl, .nil, by simp, .inl hm⟩
    · rintro ⟨_ | ⟨k, before⟩, after, hms, -, hb, -⟩
      · rw [(List.cons.inj hms).1]
      · rw [(List.cons.inj hms).1] at hm
        exact absurd hm (hb k (.head _))
  | case3 seen m ms h ih =>
    have hm : m ∉ seen := by simpa using h
    rw [ih]
    constructor
    · rintro ⟨before, after, rfl, hd, hb, hn⟩
      have hfresh : m ∉ before := fun hmem => hb m hmem (.head _)
      refine ⟨m :: before, after, rfl, List.nodup_cons.2 ⟨hfresh, hd⟩, ?_, ?_⟩
      · exact List.forall_mem_cons.2 ⟨hm, fun k hk hs => hb k hk (.tail _ hs)⟩
      · grind
    · rintro ⟨_ | ⟨k, before⟩, after, hms, hd, hb, hn⟩
      · obtain ⟨rfl, rfl⟩ := List.cons.inj hms
        simp [hm] at hn
      · obtain ⟨rfl, rfl⟩ := List.cons.inj hms
        obtain ⟨hfresh, hd⟩ := List.nodup_cons.1 hd
        obtain ⟨-, hb⟩ := List.forall_mem_cons.1 hb
        refine ⟨before, after, rfl, hd, fun j hj => ?_, ?_⟩
        · rw [List.mem_cons, not_or]
          exact ⟨fun h => hfresh (h ▸ hj), hb j hj⟩
        · grind

namespace Schema

/-- The failures of generation in the order in which they are looked for. Each stage needs that those
before it went well, and says nothing of what stands behind the failure. -/
inductive FailsWith (s : Schema) (c : Config) : GenerateError → Prop
  | runtime (hr : ∀ t, runtimePath c.runtime ≠ .ok t) :
      FailsWith s c (.invalidRuntimePath c.runtime)
  /-- The name of a model is that of one before it. -/
  | duplicate {runtime : Code.Tree} {before after : List Model} {m : Model}
      (hr : runtimePath c.runtime = .ok runtime) (hm : s.models = before ++ m :: after)
      (hb : (before.map (·.declaration.name)).Nodup)
      (hd : m.declaration.name ∈ before.map (·.declaration.name)) :
      FailsWith s c (.schema (.duplicateModel m.declaration.name))
  | extraction {runtime : Code.Tree} {e : ExtractError} (hr : runtimePath c.runtime = .ok runtime)
      (hn : s.names.Nodup)
      (he : FirstError (fun m => (extract m.declaration m.arguments).result) s.models e) :
      FailsWith s c (.extract e)
  /-- In strict mode, a nested name has no model. -/
  | unresolved {runtime : Code.Tree} {xs : List Extracted} {model nested : String}
      {later : List (String × String)} (hr : runtimePath c.runtime = .ok runtime)
      (hn : s.names.Nodup)
      (hx : List.Forall₂ (fun m x => (extract m.declaration m.arguments).result = .ok x) s.models xs)
      (hs : c.strict = true) (hm : s.missing = (model, nested) :: later) :
      FailsWith s c (.schema (.unresolvedNested model nested))
  | emission {runtime : Code.Tree} {xs : List Extracted} {e : GenerateError}
      (hr : runtimePath c.runtime = .ok runtime) (hn : s.names.Nodup)
      (hx : List.Forall₂ (fun m x => (extract m.declaration m.arguments).result = .ok x) s.models xs)
      (hm : c.strict = true → s.missing = [])
      (he : FirstError (fun x => (expand x (.public runtime)).result) xs e) :
      FailsWith s c e

variable {s : Schema} {c : Config} {xs : List Extracted} {e : GenerateError}

/-! ## Stages -/

theorem validate_eq_error {e : SchemaError} : s.validate = .error e ↔
    ∃ before m after, s.models = before ++ m :: after ∧ (before.map (·.declaration.name)).Nodup ∧
      m.declaration.name ∈ before.map (·.declaration.name) ∧
      e = .duplicateModel m.declaration.name := by
  have hsome : s.validate = .error e ↔
      ∃ n, firstRepeated [] s.names = some n ∧ e = .duplicateModel n := by
    rw [validate]
    cases firstRepeated [] s.names <;> simp [eq_comm]
  rw [hsome]
  simp only [firstRepeated_eq_some, List.not_mem_nil, not_false_eq_true, implies_true, true_and,
    false_or]
  constructor
  · rintro ⟨n, ⟨before, after, hnames, hd, hn⟩, rfl⟩
    obtain ⟨ms, ns, hms, rfl, hns⟩ := List.map_eq_append_iff.1 hnames
    obtain ⟨m, later, rfl, rfl, rfl⟩ := List.map_eq_cons_iff.1 hns
    exact ⟨ms, m, later, hms, hd, hn, rfl⟩
  · rintro ⟨before, m, after, hms, hd, hn, rfl⟩
    refine ⟨_, ⟨before.map (·.declaration.name), after.map (·.declaration.name), ?_, hd, hn⟩, rfl⟩
    rw [names, hms, List.map_append, List.map_cons]

theorem extractAll_eq_error : s.extractAll.result = .error e ↔
    (∃ e', s.validate = .error e' ∧ e = .schema e') ∨
      s.names.Nodup ∧ ∃ e',
        FirstError (fun m => (extract m.declaration m.arguments).result) s.models e' ∧
          e = .extract e' := by
  simp only [extractAll, Traced.result_bind, bind_eq_error, Traced.result_ofExcept,
    Except.mapError_eq_ok, Traced.result_mapError, Traced.result_forEach, Except.mapError_eq_error,
    mapM_eq_error, ← validate_eq_ok, eq_comm (b := e), exists_and_right]
  exact or_congr_right (and_congr_left fun _ => ⟨fun h => h.elim fun _ h => h, fun h => ⟨(), h⟩⟩)

theorem extractModels_eq_error {strict : Bool} : (s.extractModels strict).result = .error e ↔
    s.extractAll.result = .error e ∨ strict = true ∧ (∃ xs, s.extractAll.result = .ok xs) ∧
      ∃ model nested later, s.missing = (model, nested) :: later ∧
        e = .schema (.unresolvedNested model nested) := by
  cases h : s.extractAll.result with
  | error e' =>
    rw [extractModels_eq, Traced.result_bind, h]
    simp [bind, Except.bind]
  | ok xs =>
    cases strict with
    | false =>
      rw [extractModels_lenient, h]
      simp
    | true =>
      rw [extractModels_strict h]
      rcases s.missing with _ | ⟨⟨model, nested⟩, later⟩
      · simp
      · simp [eq_comm (a := e)]

theorem ofRuntime_eq_error {text : String} : Options.ofRuntime text = .error e ↔
    (∀ t, runtimePath text ≠ .ok t) ∧ e = .invalidRuntimePath text := by
  have hpath : runtimePath text = .error e ↔
      (∀ t, runtimePath text ≠ .ok t) ∧ e = .invalidRuntimePath text := by
    unfold runtimePath
    split
    · simp
    · simpa using eq_comm
  rw [← hpath, Options.ofRuntime, bind_eq_error]
  refine or_iff_left ?_
  rintro ⟨t, -, h⟩
  cases h

theorem forEach_eq_error {o : Options} :
    (Traced.forEach (fun x => Emit.expand x o) xs).result = .error e ↔
      FirstError (fun x => (expand x o).result) xs e := by
  rw [Traced.result_forEach, mapM_eq_error]

theorem generatePairs_eq_error : (s.generatePairs c).result = .error e ↔
    Options.ofRuntime c.runtime = .error e ∨ ∃ runtime, runtimePath c.runtime = .ok runtime ∧
      ((s.extractModels c.strict).result = .error e ∨
        ∃ xs, (s.extractModels c.strict).result = .ok xs ∧
          FirstError (fun x => (expand x (.public runtime)).result) xs e) := by
  simp only [generatePairs, Traced.result_bind, bind_eq_error, Traced.result_ofExcept,
    forEach_eq_error]
  refine or_congr_right ⟨?_, ?_⟩
  · rintro ⟨o, ho, h⟩
    obtain ⟨runtime, hr, rfl⟩ := eq_public_of_ofRuntime ho
    exact ⟨runtime, hr, h⟩
  · rintro ⟨runtime, hr, h⟩
    exact ⟨.public runtime, ofRuntime_eq_ok.2 ⟨hr, rfl⟩, h⟩

theorem extractModels_eq_ok_iff {strict : Bool} : (s.extractModels strict).result = .ok xs ↔
    s.names.Nodup ∧
      List.Forall₂ (fun m x => (extract m.declaration m.arguments).result = .ok x) s.models xs ∧
      (strict = true → s.missing = []) := by
  rw [extractModels_eq_ok, validate_eq_ok]
  refine and_congr_right fun hn => and_congr_right fun hx => imp_congr_right fun _ => ?_
  rw [unresolved_eq_missing (extractAll_eq_ok.2 ⟨validate_eq_ok.2 hn, hx⟩), List.map_eq_nil_iff]

theorem failsWith_iff : s.FailsWith c e ↔ (s.generatePairs c).result = .error e := by
  rw [generatePairs_eq_error, ofRuntime_eq_error]
  constructor
  · intro h
    cases h with
    | runtime hr => exact .inl ⟨hr, rfl⟩
    | @duplicate runtime before after m hr hm hb hd =>
      refine .inr ⟨runtime, hr, .inl (extractModels_eq_error.2 (.inl (extractAll_eq_error.2 (.inl ?_))))⟩
      exact ⟨_, validate_eq_error.2 ⟨before, m, after, hm, hb, hd, rfl⟩, rfl⟩
    | @extraction runtime e hr hn he =>
      refine .inr ⟨runtime, hr, .inl (extractModels_eq_error.2 (.inl (extractAll_eq_error.2 (.inr ?_))))⟩
      exact ⟨hn, e, he, rfl⟩
    | @unresolved runtime xs model nested later hr hn hx hs hm =>
      refine .inr ⟨runtime, hr, .inl (extractModels_eq_error.2 (.inr ⟨hs, ⟨xs, ?_⟩, ?_⟩))⟩
      · exact extractAll_eq_ok.2 ⟨validate_eq_ok.2 hn, hx⟩
      · exact ⟨model, nested, later, hm, rfl⟩
    | @emission runtime xs e hr hn hx hm he =>
      exact .inr ⟨runtime, hr, .inr ⟨xs, extractModels_eq_ok_iff.2 ⟨hn, hx, hm⟩, he⟩⟩
  · rintro (⟨hr, rfl⟩ | ⟨runtime, hr, h | ⟨xs, hx, he⟩⟩)
    · exact .runtime hr
    · rcases extractModels_eq_error.1 h with h | ⟨hs, ⟨xs, hx⟩, model, nested, later, hm, rfl⟩
      · rcases extractAll_eq_error.1 h with ⟨e', hv, rfl⟩ | ⟨hn, e', he, rfl⟩
        · obtain ⟨before, m, after, hm, hb, hd, rfl⟩ := validate_eq_error.1 hv
          exact .duplicate hr hm hb hd
        · exact .extraction hr hn he
      · obtain ⟨hv, hx⟩ := extractAll_eq_ok.1 hx
        exact .unresolved hr (validate_eq_ok.1 hv) hx hs hm
    · obtain ⟨hn, hx, hm⟩ := extractModels_eq_ok_iff.1 hx
      exact .emission hr hn hx hm he

end Schema

/-- Generation reports the first failure, by its stage and then by its model, or it gives the code of
all models in order where there is none. -/
theorem generateTokens_first_failure (s : Schema) (c : Config) :
    (∀ e, (s.generateTokens c).result = .error e ↔ s.FailsWith c e) ∧
    ((∃ ts, (s.generateTokens c).result = .ok ts) ↔ ∀ e, ¬s.FailsWith c e) ∧
    ∀ ts, (s.generateTokens c).result = .ok ts ↔ ∃ runtime xs ps,
      runtimePath c.runtime = .ok runtime ∧ s.names.Nodup ∧
      List.Forall₂ (fun m x => (extract m.declaration m.arguments).result = .ok x) s.models xs ∧
      (c.strict = true → s.missing = []) ∧
      List.Forall₂ (fun x p => (expand x (.public runtime)).result = .ok p) xs ps ∧
      ts = ps.flatMap Pair.tokens := by
  have herror : ∀ e, (s.generateTokens c).result = .error e ↔ s.FailsWith c e := by
    intro e
    rw [Schema.failsWith_iff, Schema.generateTokens, Traced.result_bind, bind_eq_error]
    refine or_iff_left ?_
    rintro ⟨ps, -, h⟩
    cases h
  refine ⟨herror, ?_, fun ts => ?_⟩
  · simp only [← herror]
    cases (s.generateTokens c).result <;> simp
  · simp only [Schema.generateTokens_eq_ok, Schema.generatePairs_eq_ok,
      Schema.extractModels_eq_ok_iff, expand_eq_ok]
    constructor
    · rintro ⟨ps, ⟨runtime, xs, hr, ⟨hn, hx, hm⟩, hps⟩, hts⟩
      exact ⟨runtime, xs, ps, hr, hn, hx, hm, hps, hts⟩
    · rintro ⟨runtime, xs, ps, hr, hn, hx, hm, hps, hts⟩
      exact ⟨ps, ⟨runtime, xs, hr, ⟨hn, hx, hm⟩, hps⟩, hts⟩

/-- Three models with a defect each: a name of two words, a kind without fields, and a nested name
without a model. -/
def faulty : Schema :=
  ⟨"", [⟨⟨.struct, "First Car", []⟩, []⟩, ⟨⟨.enum, "Color", []⟩, []⟩,
    ⟨⟨.struct, "Car", []⟩, [⟨some "nestedDTOs", .list [.text "Wheel"]⟩]⟩]⟩

theorem generateTokens_first_failure_of_faulty :
    (faulty.generateTokens ⟨"::dtogen", true⟩).result =
      .error (.extract (.unsupportedKind "Color" "enum")) := by
  obtain ⟨runtime, hr⟩ := exists_eq_ok (x := runtimePath "::dtogen") (by decide +kernel)
  refine ((generateTokens_first_failure faulty ⟨"::dtogen", true⟩).1 _).2
    (.extraction hr (by decide) ?_)
  refine ⟨[_], _, [_], rfl, fun m hm => ?_, by decide⟩
  refine exists_eq_ok ?_
  rw [List.mem_singleton.1 hm]
  decide

end Courier
