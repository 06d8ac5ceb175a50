import Courier.Generate
import Courier.Proofs.Emit.Linking
import Courier.Proofs.Model.Extraction

/-! When code is generated for a schema: what each stage takes, and what it gives. -/
namespace Courier
open Code Emit

theorem Except.mapError_eq_ok {ε ε' α : Type} {f : ε → ε'} {x : Except ε α} {a : α} :
    x.mapError f = .ok a ↔ x = .ok a := by
  cases x <;> simp [Except.mapError]

theorem Except.mapError_eq_error {ε ε' α : Type} {f : ε → ε'} {x : Except ε α} {e : ε'} :
    x.mapError f = .error e ↔ ∃ e', x = .error e' ∧ f e' = e := by
  cases x <;> simp [Except.mapError]

theorem Traced.result_forEach {ε α β : Type} (f : α → Traced ε β) (as : List α) :
    (Traced.forEach f as).result = as.mapM fun a => (f a).result := by
  induction as with
  | nil => rfl
  | cons a as ih =>
    rw [Traced.forEach, List.mapM_cons, ← ih]
    simp only [Traced.result_bind, Traced.result_pure]
    rfl

theorem Traced.forEach_eq_ok {ε α β : Type} {f : α → Traced ε β} {as : List α} {bs : List β} :
    (Traced.forEach f as).result = .ok bs ↔ List.Forall₂ (fun a b => (f a).result = .ok b) as bs := by
  rw [Traced.result_forEach, mapM_eq_ok]

/-! ## Extraction -/

theorem extract_name {d : Declaration} {as : List Argument} {x : Extracted}
    (h : (extract d as).result = .ok x) : x.name = d.name :=
  (extract_eq_ok.1 h).2.2.2.1

theorem checkNested_eq_ok {strict : Bool} {xs : List Extracted} :
    (checkNested strict xs).result = .ok () ↔ (strict = true → unresolved xs = []) := by
  unfold checkNested
  split
  · rename_i h
    simp [h]
  · rename_i h
    simp [h]
  · simp

variable {s : Schema} {c : Config} {strict : Bool} {xs : List Extracted} {ps : List Pair}

theorem Schema.extractModels_eq_ok :
    (s.extractModels strict).result = .ok xs ↔ s.validate = .ok () ∧
      List.Forall₂ (fun m x => (extract m.declaration m.arguments).result = .ok x) s.models xs ∧
      (strict = true → unresolved xs = []) := by
  simp only [Schema.extractModels, Traced.result_bind, bind_eq_ok, Traced.result_ofExcept,
    Except.mapError_eq_ok, Traced.result_mapError, Traced.forEach_eq_ok, Traced.result_pure]
  constructor
  · rintro ⟨⟨⟩, hv, ys, hys, ⟨⟩, hc, h⟩
    cases h
    exact ⟨hv, hys, checkNested_eq_ok.1 hc⟩
  · rintro ⟨hv, hxs, hc⟩
    exact ⟨(), hv, xs, hxs, (), checkNested_eq_ok.2 hc, rfl⟩

/-! ## Emission -/

theorem ofRuntime_eq_ok {text : String} {o : Options} :
    Options.ofRuntime text = .ok o ↔ runtimePath text = .ok o.runtime ∧
      o.visibility = publicVisibility := by
  rw [Options.ofRuntime, bind_eq_ok]
  constructor
  · rintro ⟨r, hr, h⟩
    cases h
    exact ⟨hr, rfl⟩
  · rintro ⟨hr, hv⟩
    refine ⟨_, hr, ?_⟩
    rw [← hv]
    rfl

/-- The options under which the code of a schema is emitted. -/
def Emit.Options.public (runtime : Code.Tree) : Options := ⟨runtime, publicVisibility⟩

theorem eq_public_of_ofRuntime {text : String} {o : Options} (h : Options.ofRuntime text = .ok o) :
    ∃ runtime, runtimePath text = .ok runtime ∧ o = .public runtime := by
  obtain ⟨hr, hv⟩ := ofRuntime_eq_ok.1 h
  obtain ⟨runtime, visibility⟩ := o
  cases hv
  exact ⟨runtime, hr, rfl⟩

theorem Schema.generatePairs_eq_ok :
    (s.generatePairs c).result = .ok ps ↔ ∃ runtime xs, runtimePath c.runtime = .ok runtime ∧
      (s.extractModels c.strict).result = .ok xs ∧
      List.Forall₂ (fun x p => ∃ q, parts x = .ok q ∧ q.pair (.public runtime) = p) xs ps := by
  simp only [Schema.generatePairs, Traced.result_bind, bind_eq_ok, Traced.result_ofExcept,
    Traced.forEach_eq_ok, ofRuntime_eq_ok, expand_eq_ok]
  constructor
  · rintro ⟨⟨r, v⟩, ⟨hr, rfl⟩, xs, hxs, hps⟩
    exact ⟨r, xs, hr, hxs, hps⟩
  · rintro ⟨r, xs, hr, hxs, hps⟩
    exact ⟨.public r, ⟨hr, rfl⟩, xs, hxs, hps⟩

theorem Schema.generateTokens_eq_ok {ts : Tokens} :
    (s.generateTokens c).result = .ok ts ↔ ∃ ps, (s.generatePairs c).result = .ok ps ∧
      ts = ps.flatMap Pair.tokens := by
  rw [Schema.generateTokens, Traced.result_bind, bind_eq_ok]
  refine exists_congr fun ps => and_congr_right fun _ => ?_
  exact ⟨fun h => by cases h; rfl, fun h => h ▸ rfl⟩

theorem Schema.generate_eq_ok {text : String} :
    (s.generate c).result = .ok text ↔ ∃ ts items, (s.generateTokens c).result = .ok ts ∧
      parseFile ts = .ok items ∧ text = s.header ++ formatFile items := by
  simp only [Schema.generate, Traced.result_bind, bind_eq_ok, Traced.result_ofExcept, parseEmitted,
    Except.mapError_eq_ok, Traced.result_log, Traced.result_pure, Except.ok.injEq]
  constructor
  · rintro ⟨ts, hts, items, hitems, -, -, h⟩
    exact ⟨ts, items, hts, hitems, h.symm⟩
  · rintro ⟨ts, items, hts, hitems, h⟩
    exact ⟨ts, hts, items, hitems, (), trivial, h.symm⟩

end Courier
