import Courier.Proofs.Code.Suffix
import Courier.Proofs.Generation.Independence
import Courier.Proofs.Generation.References

/-!
Names of types. The transfer type of a model is named by the identifier of the model with a suffix,
so different models have different transfer types; that none of these is a model itself is up to the
names in the schema.
-/
namespace Courier
open Code Emit

/-- The type that an item defines or adds to. -/
def Emit.Item.typeName : Item → String
  | .struct _ _ name _ => name
  | .impl _ type _ _ => type

def Emit.Pair.transferType (p : Pair) : String := p.transfer.typeName

def Emit.Pair.modelType (p : Pair) : String := p.constructor.typeName

/-- Different names of models spell different identifiers, and the suffix of a transfer type is part
of its identifier. -/
structure Schema.SpelledApart (s : Schema) : Prop where
  apart : ∀ m ∈ s.names, ∀ n ∈ s.names, identifier? m = identifier? n → m = n
  suffixed : ∀ n ∈ s.names, identifier? (transferName n) ≠ identifier? n

/-! ## Transfer types -/

theorem transferName_injective : Function.Injective transferName := by
  intro m n h
  have := congrArg String.toList h
  simp only [transferName, String.toList_append] at this
  exact String.toList_inj.1 (List.append_cancel_right this)

/-- The suffix of a transfer type ends its identifier, unless a comment takes it. -/
theorem identifier?_transferName {n x y : String} (h : identifier? n = some x)
    (h' : identifier? (transferName n) = some y) : y = transferName x ∨ y = x :=
  identifier?_append (by decide) (by decide) h h'

variable {s : Schema} {c : Config} {path : Code.Tree} {m : Model} {p : Pair} {ps : List Pair}
  {x : String}

theorem Emit.Pair.Links.transferType (h : p.Links path x) : p.transferType = transferName x := by
  obtain ⟨notes, fields, hs⟩ := h.struct
  rw [Pair.transferType, hs]
  rfl

/-- The code of a model is that of its identifier, and the suffix is in that of its transfer type. -/
structure Emit.Pair.Names (p : Pair) (runtime : Code.Tree) (name x : String) : Prop where
  model : identifier? name = some x
  transfer : identifier? (transferName name) = some (transferName x)
  links : p.Links runtime x
  modelType : p.modelType = x

theorem Model.Gives.names (h : m.Gives path p)
    (hs : identifier? (transferName m.declaration.name) ≠ identifier? m.declaration.name) :
    ∃ x, p.Names path m.declaration.name x := by
  obtain ⟨e, he, q, hq, rfl⟩ := h
  obtain ⟨-, hm, ht, -⟩ := parts_eq_ok.1 hq
  rw [Extracted.transferName, extract_name he] at ht
  rw [extract_name he] at hm
  rcases identifier?_transferName hm ht with heq | heq
  · exact ⟨q.model, hm, heq ▸ ht, Parts.links rfl heq, rfl⟩
  · rw [hm, ht, heq] at hs
    exact absurd rfl hs

/-! ## Different types -/

theorem map_eq_of_forall₂ {α β γ : Type} {R : α → β → Prop} {as : List α} {bs : List β} {f : α → γ}
    {g : β → γ} (h : List.Forall₂ R as bs) (hfg : ∀ a b, R a b → f a = g b) :
    as.map f = bs.map g := by
  rw [← List.forall₂_eq_eq_eq, List.forall₂_map_left_iff, List.forall₂_map_right_iff]
  exact h.imp hfg

/-- Where the names of the models spell different identifiers, the types of all models are
different, and so are their transfer types, which are named after them. No transfer type has the
name of a model as long as no model is named like the transfer type of one. -/
theorem generateTokens_types_apart {ts : Tokens} (h : (s.generateTokens c).result = .ok ts)
    (ha : s.SpelledApart) :
    ∃ path, ∃ ps : List Pair, runtimePath c.runtime = .ok path ∧ ts = ps.flatMap Pair.tokens ∧
      List.Forall₂ (fun m p => ∃ x, p.Names path m.declaration.name x) s.models ps ∧
      (ps.map Pair.transferType).Nodup ∧ (ps.map Pair.modelType).Nodup ∧
      ((∀ p ∈ ps, ∀ q ∈ ps, p.transferType ≠ q.modelType) ↔
        ∀ m ∈ s.names, ∀ n ∈ s.names, identifier? (transferName m) ≠ identifier? n) := by
  obtain ⟨path, hr, hn, -, ps, hps, rfl⟩ := Schema.generateTokens_eq_ok_iff.1 h
  have hnames : List.Forall₂ (fun m p => ∃ x, p.Names path m.declaration.name x) s.models ps := by
    have hsuffixed : ∀ m ∈ s.models,
        identifier? (transferName m.declaration.name) ≠ identifier? m.declaration.name :=
      fun m hm => ha.suffixed _ (List.mem_map_of_mem hm)
    exact ((List.forall₂_and_left _ _).2 ⟨hsuffixed, hps⟩).imp fun m p hp => hp.2.names hp.1
  have hm : (ps.map Pair.modelType).map some = s.names.map identifier? := by
    rw [Schema.names, List.map_map, List.map_map]
    refine (map_eq_of_forall₂ hnames ?_).symm
    rintro m p ⟨x, hx⟩
    rw [Function.comp, Function.comp, hx.modelType, hx.model]
  have ht : (ps.map Pair.transferType).map some = s.names.map fun n => identifier? (transferName n) := by
    rw [Schema.names, List.map_map, List.map_map]
    refine (map_eq_of_forall₂ hnames ?_).symm
    rintro m p ⟨x, hx⟩
    rw [Function.comp, Function.comp, hx.links.transferType, hx.transfer]
  have hsuffix : ps.map Pair.transferType = (ps.map Pair.modelType).map transferName := by
    rw [List.map_map]
    refine List.map_congr_left fun p hp => ?_
    obtain ⟨m, -, x, hx⟩ := forall₂_mem_right hnames p hp
    rw [Function.comp, hx.links.transferType, hx.modelType]
  have hnodup : (ps.map Pair.modelType).Nodup := by
    refine List.Nodup.of_map some ?_
    rw [hm]
    exact hn.map_on ha.apart
  refine ⟨path, ps, hr, rfl, hnames, hsuffix ▸ hnodup.map transferName_injective, hnodup, ?_⟩
  have hmem : (∀ p ∈ ps, ∀ q ∈ ps, p.transferType ≠ q.modelType) ↔
      ∀ a ∈ (ps.map Pair.transferType).map some, ∀ b ∈ (ps.map Pair.modelType).map some, a ≠ b := by
    simp only [List.forall_mem_map, ne_eq, Option.some.injEq]
  rw [hmem, hm, ht]
  simp only [List.forall_mem_map]

/-- Empty models of some names. -/
def shells (names : List String) : Schema := ⟨"", names.map fun n => ⟨⟨.struct, n, []⟩, []⟩⟩

theorem generateTokens_types_apart_of_shells :
    ∃ ts, ((shells ["Jar", " Tin", "r#box"]).generateTokens .default).result = .ok ts ∧
      ∃ ps : List Pair, ts = ps.flatMap Pair.tokens ∧ (ps.map Pair.transferType).Nodup ∧
        (ps.map Pair.modelType).Nodup ∧ ∀ p ∈ ps, ∀ q ∈ ps, p.transferType ≠ q.modelType := by
  obtain ⟨ts, h⟩ := exists_eq_ok
    (x := ((shells ["Jar", " Tin", "r#box"]).generateTokens .default).result) (by decide +kernel)
  obtain ⟨-, ps, -, hts, -, htransfer, hmodel, hiff⟩ :=
    generateTokens_types_apart h ⟨by decide +kernel, by decide +kernel⟩
  exact ⟨ts, h, ps, hts, htransfer, hmodel, hiff.2 (by decide +kernel)⟩

/-- A transfer type has the name of a model that is named like it. A model is named like another one
where a blank tells their names apart, and like its own transfer type where a comment takes the
suffix. -/
theorem types_not_apart :
    (∃ ps, ((shells ["A", "ADTO"]).generatePairs .default).result = .ok ps ∧
      ps.map Pair.transferType = ["ADTO", "ADTODTO"] ∧ ps.map Pair.modelType = ["A", "ADTO"]) ∧
    (∃ ps, ((shells ["A", " A"]).generatePairs .default).result = .ok ps ∧
      ps.map Pair.transferType = ["ADTO", "ADTO"] ∧ ps.map Pair.modelType = ["A", "A"]) ∧
    ∃ ps, ((shells ["A //"]).generatePairs .default).result = .ok ps ∧
      ps.map Pair.transferType = ["A"] ∧ ps.map Pair.modelType = ["A"] := by
  have hpairs : ∀ (s : Schema) (ts ms : List String),
      (s.generatePairs .default).result.toOption.map
        (fun ps => (ps.map Pair.transferType, ps.map Pair.modelType)) = some (ts, ms) →
      ∃ ps, (s.generatePairs .default).result = .ok ps ∧
        ps.map Pair.transferType = ts ∧ ps.map Pair.modelType = ms := by
    intro s ts ms h
    obtain ⟨ps, hps, h⟩ := Option.map_eq_some_iff.1 h
    cases hr : (s.generatePairs .default).result with
    | error e =>
      rw [hr] at hps
      cases hps
    | ok qs =>
      rw [hr] at hps
      cases hps
      cases h
      exact ⟨ps, rfl, rfl, rfl⟩
  exact ⟨hpairs _ _ _ (by decide +kernel), hpairs _ _ _ (by decide +kernel),
    hpairs _ _ _ (by decide +kernel)⟩

end Courier
