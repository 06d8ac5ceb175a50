import Courier.Proofs.Generation.Strictness

/-!
Models are generated one by one. What a schema gives are the blocks that its models give alone, in
the order of the models; all that they share is that their names differ.
-/
namespace Courier
open Code Emit

/-! ## Lists of results -/

section
variable {α β γ : Type} {R : α → β → Prop} {S : β → γ → Prop} {as : List α} {bs : List β} {cs : List γ}

theorem forall₂_comp : (∃ bs, List.Forall₂ R as bs ∧ List.Forall₂ S bs cs) ↔
    List.Forall₂ (fun a c => ∃ b, R a b ∧ S b c) as cs := by
  constructor
  · rintro ⟨bs, hr, hs⟩
    induction hr generalizing cs with
    | nil =>
      cases hs
      exact .nil
    | cons hr _ ih =>
      cases hs with
      | cons hs hss => exact .cons ⟨_, hr, hs⟩ (ih hss)
  · intro h
    induction h with
    | nil => exact ⟨[], .nil, .nil⟩
    | cons h _ ih =>
      obtain ⟨b, hr, hs⟩ := h
      obtain ⟨bs, hrs, hss⟩ := ih
      exact ⟨b :: bs, .cons hr hrs, .cons hs hss⟩

theorem exists_forall₂ (h : ∀ a ∈ as, ∃ b, R a b) : ∃ bs, List.Forall₂ R as bs := by
  induction as with
  | nil => exact ⟨[], .nil⟩
  | cons a as ih =>
    obtain ⟨b, hb⟩ := h a (List.mem_cons_self ..)
    obtain ⟨bs, hbs⟩ := ih fun a ha => h a (List.mem_cons_of_mem _ ha)
    exact ⟨b :: bs, .cons hb hbs⟩

theorem flatMap_eq_of_forall₂ {f : α → List γ} {g : β → List γ} (h : List.Forall₂ R as bs)
    (hfg : ∀ a b, R a b → f a = g b) : as.flatMap f = bs.flatMap g := by
  induction h with
  | nil => rfl
  | cons h _ ih => rw [List.flatMap_cons, List.flatMap_cons, hfg _ _ h, ih]

end

/-! ## Different names -/

theorem firstRepeated_eq_none {seen names : List String} :
    firstRepeated seen names = none ↔ names.Nodup ∧ ∀ n ∈ names, n ∉ seen := by
  fun_induction firstRepeated seen names with
  | case1 => simp
  | case2 seen n ns h => simp_all
  | case3 seen n ns h ih =>
    rw [ih, List.nodup_cons, List.forall_mem_cons]
    simp only [List.mem_cons, not_or]
    have hn : n ∉ seen := by simpa using h
    grind

variable {s : Schema} {c : Config} {ts : Tokens} {ps : List Pair}

theorem Schema.validate_eq_ok : s.validate = .ok () ↔ s.names.Nodup := by
  have h := @firstRepeated_eq_none [] s.names
  rw [validate]
  cases hf : firstRepeated [] s.names with
  | none => simpa [hf] using h
  | some n => simpa [hf] using h

/-! ## One model -/

/-- The code that a model gives for a runtime. -/
def Model.Gives (runtime : Code.Tree) (m : Model) (p : Pair) : Prop :=
  ∃ x, (extract m.declaration m.arguments).result = .ok x ∧
    ∃ q, parts x = .ok q ∧ q.pair (.public runtime) = p

theorem forall₂_gives {runtime : Code.Tree} {ms : List Model} :
    List.Forall₂ (Model.Gives runtime) ms ps ↔
      ∃ xs, List.Forall₂ (fun m x => (extract m.declaration m.arguments).result = .ok x) ms xs ∧
        List.Forall₂ (fun x p => ∃ q, parts x = .ok q ∧ q.pair (.public runtime) = p) xs ps :=
  forall₂_comp.symm

/-- Generation succeeds where each model gives its code, their names differ and, in strict mode, no
nested name is missing. -/
theorem Schema.generatePairs_eq_ok_iff :
    (s.generatePairs c).result = .ok ps ↔ ∃ runtime, runtimePath c.runtime = .ok runtime ∧
      s.names.Nodup ∧ (c.strict = true → s.missing = []) ∧
      List.Forall₂ (Model.Gives runtime) s.models ps := by
  rw [generatePairs_eq_ok]
  refine exists_congr fun runtime => ?_
  rw [forall₂_gives]
  constructor
  · rintro ⟨xs, hr, hx, hps⟩
    obtain ⟨hv, hxs, hu⟩ := extractModels_eq_ok.1 hx
    refine ⟨hr, validate_eq_ok.1 hv, fun hs => ?_, xs, hxs, hps⟩
    have := hu hs
    rw [unresolved_eq_missing (extractAll_eq_ok.2 ⟨hv, hxs⟩)] at this
    exact List.map_eq_nil_iff.1 this
  · rintro ⟨hr, hn, hm, xs, hxs, hps⟩
    have hv := validate_eq_ok.2 hn
    refine ⟨xs, hr, extractModels_eq_ok.2 ⟨hv, hxs, fun hs => ?_⟩, hps⟩
    rw [unresolved_eq_missing (extractAll_eq_ok.2 ⟨hv, hxs⟩), hm hs]
    rfl

theorem Schema.generateTokens_eq_ok_iff :
    (s.generateTokens c).result = .ok ts ↔ ∃ runtime, runtimePath c.runtime = .ok runtime ∧
      s.names.Nodup ∧ (c.strict = true → s.missing = []) ∧
      ∃ ps, List.Forall₂ (Model.Gives runtime) s.models ps ∧ ts = ps.flatMap Pair.tokens := by
  simp only [generateTokens_eq_ok, generatePairs_eq_ok_iff]
  constructor
  · rintro ⟨ps, ⟨runtime, hr, hn, hm, hps⟩, hts⟩
    exact ⟨runtime, hr, hn, hm, ps, hps, hts⟩
  · rintro ⟨runtime, hr, hn, hm, ps, hps, hts⟩
    exact ⟨ps, ⟨runtime, hr, hn, hm, hps⟩, hts⟩

/-- The block of a model: what it gives without any other. -/
def block (runtime : String) (m : Model) : Tokens :=
  match (Schema.generateTokens ⟨"", [m]⟩ ⟨runtime, false⟩).result with
  | .ok ts => ts
  | .error _ => []

theorem Model.Gives.alone {runtime : String} {path : Code.Tree} {m : Model} {p : Pair}
    (h : m.Gives path p) (hr : runtimePath runtime = .ok path) (package : String) :
    (Schema.generateTokens ⟨package, [m]⟩ ⟨runtime, false⟩).result = .ok p.tokens :=
  Schema.generateTokens_eq_ok_iff.2 ⟨path, hr, List.nodup_singleton _,
    fun hs => absurd hs Bool.false_ne_true, [p], .cons h .nil, by simp⟩

theorem Model.Gives.block {runtime : String} {path : Code.Tree} {m : Model} {p : Pair}
    (h : m.Gives path p) (hr : runtimePath runtime = .ok path) : block runtime m = p.tokens := by
  unfold Courier.block
  rw [h.alone hr]

/-! ## Splits and permutations -/

/-- Which nested names are missing does not depend on the order of the models. -/
theorem Schema.missing_eq_nil_of_perm {s s' : Schema} (hp : s'.models.Perm s.models)
    (h : s.missing = []) : s'.missing = [] := by
  have hn : ∀ n, n ∈ s'.names ↔ n ∈ s.names := fun n => (hp.map _).mem_iff
  have hof : s'.missingOf = s.missingOf := by
    funext m
    simp only [missingOf, hn]
  rw [missing, List.flatMap_eq_nil_iff] at h ⊢
  rw [hof]
  exact fun m hm => h m (hp.mem_iff.1 hm)

theorem Schema.generateTokens_append {s₁ s₂ : Schema} (hd : ∀ n ∈ s₁.names, n ∉ s₂.names)
    (package runtime : String) :
    (Schema.generateTokens ⟨package, s₁.models ++ s₂.models⟩ ⟨runtime, false⟩).result = .ok ts ↔
      ∃ ts₁ ts₂, (s₁.generateTokens ⟨runtime, false⟩).result = .ok ts₁ ∧
        (s₂.generateTokens ⟨runtime, false⟩).result = .ok ts₂ ∧ ts = ts₁ ++ ts₂ := by
  have hstrict : ∀ {a : Prop}, false = true → a := fun h => absurd h Bool.false_ne_true
  simp only [generateTokens_eq_ok_iff]
  constructor
  · rintro ⟨path, hr, hn, -, ps, hps, rfl⟩
    rw [names, List.map_append, List.nodup_append] at hn
    obtain ⟨hn₁, hn₂, -⟩ := hn
    have h₁ := List.forall₂_take s₁.models.length hps
    have h₂ := List.forall₂_drop s₁.models.length hps
    rw [List.take_left' rfl] at h₁
    rw [List.drop_left' rfl] at h₂
    refine ⟨_, _, ⟨path, hr, hn₁, hstrict, _, h₁, rfl⟩, ⟨path, hr, hn₂, hstrict, _, h₂, rfl⟩, ?_⟩
    rw [← List.flatMap_append, List.take_append_drop]
  · rintro ⟨_, _, ⟨path, hr, hn₁, -, ps₁, hps₁, rfl⟩, ⟨path', hr', hn₂, -, ps₂, hps₂, rfl⟩, rfl⟩
    obtain rfl := Except.ok.inj (hr.symm.trans hr')
    refine ⟨path, hr, ?_, hstrict, ps₁ ++ ps₂, List.rel_append hps₁ hps₂, by simp⟩
    rw [names, List.map_append, List.nodup_append]
    exact ⟨hn₁, hn₂, fun a ha b hb hab => hd a ha (hab ▸ hb)⟩

theorem Schema.generateTokens_perm {runtime : String} {strict : Bool} {ms : List Model}
    (h : (s.generateTokens ⟨runtime, strict⟩).result = .ok ts) (hp : ms.Perm s.models) :
    (Schema.generateTokens ⟨s.package, ms⟩ ⟨runtime, strict⟩).result =
      .ok (ms.flatMap (block runtime)) := by
  obtain ⟨path, hr, hn, hm, ps, hps, -⟩ := generateTokens_eq_ok_iff.1 h
  obtain ⟨qs, hqs⟩ : ∃ qs, List.Forall₂ (Model.Gives path) ms qs := by
    refine exists_forall₂ fun m hm => ?_
    obtain ⟨p, -, hg⟩ := forall₂_mem_left hps m (hp.mem_iff.1 hm)
    exact ⟨p, hg⟩
  refine generateTokens_eq_ok_iff.2 ⟨path, hr, (hp.map _).nodup_iff.2 hn,
    fun hs => missing_eq_nil_of_perm hp (hm hs), qs, hqs, ?_⟩
  exact flatMap_eq_of_forall₂ hqs fun _ _ hg => hg.block hr

/-- Models do not influence each other. Two schemas without a common name give together what they
give one after the other, and fail together where one of them fails. The models of a schema, in
whatever order, give their own blocks in that order. -/
theorem generateTokens_independent (runtime : String) :
    (∀ s₁ s₂ : Schema, (∀ n ∈ s₁.names, n ∉ s₂.names) → ∀ package ts,
      (Schema.generateTokens ⟨package, s₁.models ++ s₂.models⟩ ⟨runtime, false⟩).result = .ok ts ↔
        ∃ ts₁ ts₂, (s₁.generateTokens ⟨runtime, false⟩).result = .ok ts₁ ∧
          (s₂.generateTokens ⟨runtime, false⟩).result = .ok ts₂ ∧ ts = ts₁ ++ ts₂) ∧
    ∀ (s : Schema) (strict : Bool) (ts : Tokens),
      (s.generateTokens ⟨runtime, strict⟩).result = .ok ts → ∃ block : Model → Tokens,
        (∀ m ∈ s.models, (Schema.generateTokens ⟨s.package, [m]⟩ ⟨runtime, false⟩).result =
          .ok (block m)) ∧
        ts = s.models.flatMap block ∧
        ∀ ms, ms.Perm s.models → (Schema.generateTokens ⟨s.package, ms⟩ ⟨runtime, strict⟩).result =
          .ok (ms.flatMap block) := by
  refine ⟨fun s₁ s₂ hd package ts => Schema.generateTokens_append hd package runtime,
    fun s strict ts h => ⟨block runtime, fun m hm => ?_, ?_, fun ms => Schema.generateTokens_perm h⟩⟩
  · obtain ⟨path, hr, -, -, ps, hps, -⟩ := Schema.generateTokens_eq_ok_iff.1 h
    obtain ⟨p, -, hg⟩ := forall₂_mem_left hps m hm
    exact (hg.alone hr _).trans (congrArg Except.ok (hg.block hr).symm)
  · have hown := Schema.generateTokens_perm h (List.Perm.refl _)
    exact Except.ok.inj (h.symm.trans hown)

/-- A schema of a model, for each of some names. -/
def shelf (names : List String) : Schema :=
  ⟨"", names.map fun n => ⟨⟨.struct, n, [.stored "next" (some "Option<Box>")]⟩,
    [⟨some "nestedDTOs", .list [.text "Box"]⟩]⟩⟩

theorem generateTokens_independent_of_shelf :
    (∃ ts ts₁ ts₂, ((shelf ["Jar", "Tin", "Box"]).generateTokens ⟨"::dtogen", false⟩).result = .ok ts ∧
      ((shelf ["Jar", "Tin"]).generateTokens ⟨"::dtogen", false⟩).result = .ok ts₁ ∧
      ((shelf ["Box"]).generateTokens ⟨"::dtogen", false⟩).result = .ok ts₂ ∧ ts = ts₁ ++ ts₂) ∧
    ∃ block : Model → Tokens,
      ((shelf ["Tin", "Box", "Jar"]).generateTokens ⟨"::dtogen", true⟩).result =
        .ok ((shelf ["Tin", "Box", "Jar"]).models.flatMap block) := by
  constructor
  · obtain ⟨ts, h⟩ := exists_eq_ok
      (x := ((shelf ["Jar", "Tin", "Box"]).generateTokens ⟨"::dtogen", false⟩).result)
      (by decide +kernel)
    obtain ⟨ts₁, ts₂, h₁, h₂, heq⟩ := ((generateTokens_independent "::dtogen").1
      (shelf ["Jar", "Tin"]) (shelf ["Box"]) (by decide) "" ts).1 h
    exact ⟨ts, ts₁, ts₂, h, h₁, h₂, heq⟩
  · obtain ⟨ts, h⟩ := exists_eq_ok
      (x := ((shelf ["Jar", "Tin", "Box"]).generateTokens ⟨"::dtogen", true⟩).result)
      (by decide +kernel)
    obtain ⟨block, -, -, hp⟩ := (generateTokens_independent "::dtogen").2 _ true ts h
    exact ⟨block, hp _ (by decide +kernel)⟩

end Courier
