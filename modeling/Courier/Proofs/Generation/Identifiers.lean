import Courier.Proofs.Code.Spelling
import Courier.Proofs.Generation.TypeNames

/-!
Identifiers in the code for a model. Names are compared as texts, and emitted as the identifiers that
they spell: what keeps the texts apart keeps the identifiers apart as long as no white space and no
comment makes the difference.
-/
namespace Courier
open Code Emit

/-- The names of the fields of the transfer type. -/
def Emit.Pair.fieldNames (p : Pair) : List String :=
  match p.transfer with
  | .struct _ _ _ fields => fields.map (·.1)
  | .impl .. => []

/-- The fields of the transfer type are named by what the names of the fields of the model spell. They
are different where no two of these names spell the same. -/
structure Emit.Pair.NamesFields (p : Pair) (x : Extracted) : Prop where
  spelled : List.Forall₂ (fun f i => SpellsName f.name i) x.fields p.fieldNames
  nodup_iff : p.fieldNames.Nodup ↔
    x.fields.Pairwise fun f g => ∀ i, SpellsName f.name i → ¬SpellsName g.name i
  solid : (∀ f ∈ x.fields, f.name.toList.all isSolid = true) → p.fieldNames = x.fields.map (·.name)

theorem nodup_iff_of_forall₂ {α β : Type} {R : α → β → Prop} {as : List α} {bs : List β}
    (h : List.Forall₂ R as bs) (hR : ∀ a b c, R a b → R a c → b = c) :
    bs.Nodup ↔ as.Pairwise fun a a' => ∀ b, R a b → ¬R a' b := by
  induction h with
  | nil => simp
  | @cons a b as bs hab hs ih =>
    rw [List.nodup_cons, List.pairwise_cons, ih]
    refine and_congr_left fun _ => ⟨fun hb a' ha' c hc hc' => ?_, fun hb hmem => ?_⟩
    · obtain ⟨d, hd, hd'⟩ := forall₂_mem_left hs a' ha'
      rw [hR _ _ _ hab hc, hR _ _ _ hc' hd'] at hb
      exact hb hd
    · obtain ⟨a', ha', hab'⟩ := forall₂_mem_right hs b hmem
      exact hb a' ha' b hab hab'

variable {x : Extracted} {q : Parts} {o : Options} {p : Pair}

theorem Emit.namesFields_of_parts (h : parts x = .ok q) (o : Options) : (q.pair o).NamesFields x := by
  obtain ⟨-, -, -, hf⟩ := parts_eq_ok.1 h
  have hspelled : List.Forall₂ (fun f i => SpellsName f.name i) x.fields (q.pair o).fieldNames := by
    have hnames : (q.pair o).fieldNames = q.fields.map (·.1) := by
      simp [Pair.fieldNames, Parts.pair, Parts.struct, Function.comp_def]
    rw [hnames, List.forall₂_map_right_iff]
    exact hf.imp fun f g hg => identifier?_eq_some.1 hg.1
  refine ⟨hspelled, nodup_iff_of_forall₂ hspelled fun _ _ _ => SpellsName.unique, fun hs => ?_⟩
  have hsolid := (List.forall₂_and_left _ _).2 ⟨hs, hspelled⟩
  have := map_eq_of_forall₂ (f := (·.name)) (g := id) hsolid fun f i hi => (hi.2.eq_of_solid hi.1).1
  rw [this, List.map_id]

/-- The fields of each transfer type have different identifiers exactly where no two names of fields
spell the same one. That the names are different texts is enough where they hold no white space and
no comments. -/
theorem fieldNames_apart (o : Options) :
    (∀ (x : Extracted) (p : Pair), (expand x o).result = .ok p → p.NamesFields x) ∧
    ∀ (s : Schema) (c : Config) (ts : Tokens), Options.ofRuntime c.runtime = .ok o →
      (s.generateTokens c).result = .ok ts →
      ∃ ps : List Pair, ts = ps.flatMap Pair.tokens ∧ List.Forall₂ (fun m p => ∃ x,
        (extract m.declaration m.arguments).result = .ok x ∧ (expand x o).result = .ok p ∧
          p.NamesFields x ∧
          ((∀ f ∈ x.fields, f.name.toList.all isSolid = true) → p.fieldNames.Nodup)) s.models ps := by
  refine ⟨fun x p h => ?_, fun s c ts ho h => ?_⟩
  · obtain ⟨q, hq, rfl⟩ := expand_eq_ok.1 h
    exact namesFields_of_parts hq o
  · obtain ⟨path, hpath, -, -, ps, hps, rfl⟩ := Schema.generateTokens_eq_ok_iff.1 h
    obtain ⟨runtime, hr, rfl⟩ := eq_public_of_ofRuntime ho
    obtain rfl := Except.ok.inj (hr.symm.trans hpath)
    refine ⟨ps, rfl, hps.imp ?_⟩
    rintro m p ⟨x, hx, q, hq, rfl⟩
    have hn := namesFields_of_parts hq (.public runtime)
    refine ⟨x, hx, expand_eq_ok.2 ⟨q, hq, rfl⟩, hn, fun hs => ?_⟩
    rw [hn.solid hs]
    exact (extract_eq_ok.1 hx).2.2.2.2.1 ▸ (extract_eq_ok.1 hx).2.2.1

/-- A model of some fields, all of them numbers. -/
def gauge (fields : List String) : Model :=
  ⟨⟨.struct, "Gauge", fields.map fun n => .stored n (some "u32")⟩, []⟩

theorem fieldNames_apart_of_gauge :
    ∃ ts, (Schema.generateTokens ⟨"", [gauge ["level", "r#type"]]⟩ .default).result = .ok ts ∧
      ∃ p : Pair, ts = p.tokens ∧ p.fieldNames = ["level", "r#type"] ∧ p.fieldNames.Nodup := by
  obtain ⟨ts, h⟩ := exists_eq_ok
    (x := (Schema.generateTokens ⟨"", [gauge ["level", "r#type"]]⟩ .default).result)
    (by decide +kernel)
  obtain ⟨o, ho⟩ := exists_eq_ok (x := Options.ofRuntime Config.default.runtime) (by decide +kernel)
  obtain ⟨ps, hts, hps⟩ := (fieldNames_apart o).2 _ _ _ ho h
  obtain ⟨p, _, ⟨x, hx, -, hn, hd⟩, hnil, rfl⟩ := List.forall₂_cons_left_iff.1 hps
  obtain rfl := List.forall₂_nil_left_iff.1 hnil
  have hfields : x.fields = [⟨"level", "u32"⟩, ⟨"r#type", "u32"⟩] := (extract_eq_ok.1 hx).2.2.2.2.1
  have hsolid : ∀ f ∈ x.fields, f.name.toList.all isSolid = true := by
    rw [hfields]
    decide +kernel
  refine ⟨ts, h, p, by simpa using hts, ?_, hd hsolid⟩
  rw [hn.solid hsolid, hfields]
  rfl

example : (Schema.generatePairs ⟨"", [gauge ["level", " level"]]⟩ .default).result.toOption.map
    (·.map Pair.fieldNames) = some [["level", "level"]] := by decide +kernel

/-! ## Transfer types -/

theorem transferName_ne {name : String} : transferName name ≠ name := by
  intro h
  have := congrArg (·.toList.length) h
  simp [transferName] at this

/-- The code for a model is named by what its name spells. The suffix of the transfer type ends its
identifier, except behind a comment that takes it, and then both types have one identifier. -/
theorem transferType_of_expand (h : (expand x o).result = .ok p) :
    SpellsName x.name p.modelType ∧
      p.items.map Item.typeName =
        [p.transferType, p.transferType, p.transferType, p.modelType, p.modelType] ∧
      (¬EndsInComment x.name → p.transferType = transferName p.modelType ∧
        p.transferType ≠ p.modelType) ∧
      (EndsInComment x.name → p.transferType = p.modelType) ∧
      (x.name.toList.all isSolid = true → p.modelType = x.name ∧
        p.transferType = x.transferName) := by
  obtain ⟨q, hq, rfl⟩ := expand_eq_ok.1 h
  obtain ⟨-, hm, ht, -⟩ := parts_eq_ok.1 hq
  have hm := identifier?_eq_some.1 hm
  have ht : SpellsName (x.name ++ "DTO") q.transfer := identifier?_eq_some.1 ht
  have hcases := hm.append (by decide) (by decide) ht
  show SpellsName x.name q.model ∧ _ ∧ (_ → q.transfer = _ ∧ q.transfer ≠ q.model) ∧
    (_ → q.transfer = q.model) ∧ (_ → q.model = _ ∧ q.transfer = _)
  refine ⟨hm, rfl, fun hc => ?_, fun hc => ?_, fun hs => ?_⟩
  · obtain ⟨hc', -⟩ | ⟨-, heq⟩ := hcases
    · exact absurd hc' hc
    · exact ⟨heq, fun h => transferName_ne (heq.symm.trans h)⟩
  · obtain ⟨-, heq⟩ | ⟨hc', -⟩ := hcases
    · exact heq
    · exact absurd hc hc'
  · obtain ⟨hx, hc⟩ := hm.eq_of_solid hs
    obtain ⟨hc', -⟩ | ⟨-, heq⟩ := hcases
    · exact absurd hc' hc
    · exact ⟨hx.symm, by rw [heq, Extracted.transferName, hx]; rfl⟩

/-- Nothing but the name, for a model without fields. -/
def hollow (name : String) : Extracted := ⟨name, [], .empty⟩

theorem transferType_of_expand_of_hollow :
    (∃ p, (expand (hollow "/* a */ Gauge") .default).result = .ok p ∧ p.modelType = "Gauge" ∧
      p.transferType = "GaugeDTO") ∧
    ∃ p, (expand (hollow "Gauge // a") .default).result = .ok p ∧ p.modelType = "Gauge" ∧
      p.transferType = "Gauge" := by
  have hspells : ∀ name, identifier? name = some "Gauge" → ∀ p : Pair,
      SpellsName name p.modelType → p.modelType = "Gauge" :=
    fun name h p hp => hp.unique (identifier?_eq_some.1 h)
  constructor
  · obtain ⟨p, h⟩ := exists_eq_ok (x := (expand (hollow "/* a */ Gauge") .default).result)
      (by decide +kernel)
    obtain ⟨hm, -, hapart, -⟩ := transferType_of_expand h
    have hm := hspells _ (by decide +kernel) p hm
    have hlead : Leads (withoutMark "/* a */ Gauge".toList) "Gauge" [] :=
      ⟨"Gauge".toList, .step (r := " Gauge".toList) rfl (.step rfl (.refl _)), rfl⟩
    refine ⟨p, h, hm, ?_⟩
    rw [(hapart (not_endsInComment hlead)).1, hm]
    rfl
  · obtain ⟨p, h⟩ := exists_eq_ok (x := (expand (hollow "Gauge // a") .default).result)
      (by decide +kernel)
    obtain ⟨hm, -, -, hsame, -⟩ := transferType_of_expand h
    have hm := hspells _ (by decide +kernel) p hm
    have hends : EndsInComment "Gauge // a" :=
      ⟨"Gauge", " // a".toList, "// a".toList, ⟨_, .refl _, rfl⟩, .step rfl (.refl _), " a".toList,
        rfl, by decide⟩
    exact ⟨p, h, hm, (hsame hends).trans hm⟩

end Courier
