import Courier.Proofs.Emit.TransferTypes
import Courier.Proofs.Generation.Strictness

/-!
What generation takes from the nested names of a model: of each name that a field is a form of,
whether it is given. The order of the names, how often and in which list they are given, and names
that no field is a form of make no difference.
-/
namespace Courier
open Code Emit

/-! ## Fields -/

/-- The type of the field, white space aside, is written as a form of the name. -/
def Field.IsOver (f : Field) (name : String) : Prop :=
  isPlainName name.toList = true ∧
    ∃ form : FieldShape, String.ofList (solid f.type) ∈ form.spellings name

variable {f : Field} {nested nested' : NestedNames} {name : String}

/-- A field is a form of one name at most, the one at the bottom of its shape. -/
theorem Field.IsOver.baseName (h : f.IsOver name) :
    (TypeShape.parse f.type).baseName = some name := by
  obtain ⟨hp, form, hs⟩ := h
  have hform : IsForm f (.ofList [name]) name form :=
    ⟨by simp [toList_ofList], hp, hs⟩
  obtain ⟨-, -, -, ho⟩ := isForm_iff.1 hform
  rw [ho]
  cases form <;> rfl

theorem classify_eq_scalar (h : ∀ name form, ¬IsForm f nested name form) :
    classify f nested = ⟨f, .scalar, f.type⟩ := by
  refine (classify_cases f nested).resolve_right ?_
  rintro ⟨name, hm, form, hc, hp, ho, -⟩
  exact h name form (isForm_iff.2 ⟨hm, hc, hp, ho⟩)

/-- Whether the names are given that the field is a form of is all that classification asks. -/
theorem classify_eq_classify
    (h : ∀ name, f.IsOver name → (name ∈ nested.toList ↔ name ∈ nested'.toList)) :
    classify f nested = classify f nested' := by
  have hiff : ∀ name form, IsForm f nested name form ↔ IsForm f nested' name form := by
    intro name form
    have hm : isPlainName name.toList = true → String.ofList (solid f.type) ∈ form.spellings name →
        (name ∈ nested.toList ↔ name ∈ nested'.toList) := fun hp hs => h name ⟨hp, form, hs⟩
    constructor
    · rintro ⟨hn, hp, hs⟩
      exact ⟨(hm hp hs).1 hn, hp, hs⟩
    · rintro ⟨hn, hp, hs⟩
      exact ⟨(hm hp hs).2 hn, hp, hs⟩
  by_cases hex : ∃ name form, IsForm f nested name form
  · obtain ⟨name, form, hf⟩ := hex
    rw [hf.classify_eq, ((hiff name form).1 hf).classify_eq]
  · have hnone : ∀ name form, ¬IsForm f nested name form := fun name form hf =>
      hex ⟨name, form, hf⟩
    rw [classify_eq_scalar hnone,
      classify_eq_scalar fun name form hf => hnone name form ((hiff name form).2 hf)]

/-! ## Models -/

/-- Models of one name whose fields are of the same forms. -/
structure SameForms (x y : Extracted) : Prop where
  name : x.name = y.name
  classified : x.classified = y.classified

theorem pairOf_congr {x y : Extracted} (h : SameForms x y) (o : Options) :
    pairOf x o = pairOf y o := by
  have ht : x.transferName = y.transferName := congrArg transferName h.name
  rw [pairOf, pairOf, parts, parts, h.name, ht, h.classified]

/-- Models of one declaration. Their lists hold strings, and agree on the names that fields are
forms of. -/
structure Model.SameUses (m m' : Model) : Prop where
  declaration : m.declaration = m'.declaration
  strings : ListStrings m.arguments
  strings' : ListStrings m'.arguments
  uses : ∀ f ∈ declaredFields m.declaration.members, ∀ name, f.IsOver name →
    (name ∈ listedStrings m.arguments ↔ name ∈ listedStrings m'.arguments)

theorem Model.SameUses.extract {m m' : Model} (h : m.SameUses m') :
    Agree SameForms (Courier.extract m.declaration m.arguments).result
      (Courier.extract m'.declaration m'.arguments).result := by
  obtain ⟨d, as⟩ := m
  obtain ⟨d', bs⟩ := m'
  obtain ⟨rfl, hs, hs', huses⟩ := h
  have ha := toList_ofList (listedStrings as)
  have hb := toList_ofList (listedStrings bs)
  rw [extract_result, extract_result, nestedNames_eq_ok.2 ⟨hs, ha⟩, nestedNames_eq_ok.2 ⟨hs', hb⟩]
  cases d.kind.isClassLike with
  | false => exact .error
  | true =>
    simp only [if_true, ok_bind]
    cases hf : (fieldsFrom d.name [] d.members).result with
    | error e => exact .error
    | ok fields =>
      obtain rfl := (fieldsFrom_eq_ok.1 hf).1
      refine .ok ⟨rfl, List.map_congr_left fun f hf => classify_eq_classify fun name hn => ?_⟩
      rw [ha, hb, List.mem_eraseDups, List.mem_eraseDups]
      exact huses f hf name hn

/-! ## Schemas -/

/-- Lenient generation, stage by stage. -/
theorem Schema.generateTokens_lenient (s : Schema) (runtime : String) :
    (s.generateTokens ⟨runtime, false⟩).result = (do
      let o ← Options.ofRuntime runtime
      s.validate.mapError .schema
      let xs ← (s.models.mapM fun m =>
        (extract m.declaration m.arguments).result).mapError .extract
      let ps ← xs.mapM fun x => pairOf x o
      return ps.flatMap Pair.tokens) := by
  simp only [generateTokens, generatePairs, Traced.result_bind, Traced.result_ofExcept,
    extractModels_lenient, extractAll, Traced.result_mapError, Traced.result_forEach, expand_result,
    Traced.result_pure, bind_assoc]
  rfl

theorem Schema.generateTokens_congr {s s' : Schema}
    (h : List.Forall₂ Model.SameUses s.models s'.models) (runtime : String) :
    (s.generateTokens ⟨runtime, false⟩).result = (s'.generateTokens ⟨runtime, false⟩).result := by
  have hnames : s.names = s'.names := by
    rw [names, names, ← List.forall₂_eq_eq_eq, List.forall₂_map_left_iff,
      List.forall₂_map_right_iff]
    exact h.imp fun _ _ h => congrArg Declaration.name h.declaration
  rw [generateTokens_lenient, generateTokens_lenient, validate, validate, hnames]
  refine Agree.eq ((Agree.refl _).bind ?_)
  rintro o _ rfl
  refine (Agree.refl _).bind ?_
  rintro _ _ -
  refine ((Agree.mapM h fun _ _ h => h.extract).mapError _).bind fun xs ys hxs => ?_
  refine (Agree.mapM (S := Eq) hxs fun x y hxy => ?_).bind fun ps qs hps => ?_
  · rw [pairOf_congr hxy]
    exact Agree.refl _
  · rw [List.forall₂_eq_eq_eq] at hps
    rw [hps]
    exact Agree.refl _

/-! ## Other lists -/

/-- The model with other lists of nested names, each in an argument of its own. -/
def Model.relist (m : Model) (lists : List (List String)) : Model :=
  { m with arguments := m.arguments.filter (!·.isNestedList) ++
      lists.map fun names => ⟨some "nestedDTOs", .list (names.map .text)⟩ }

theorem Model.filter_relist (m : Model) (lists : List (List String)) :
    (m.relist lists).arguments.filter (·.isNestedList) =
      lists.map fun names => ⟨some "nestedDTOs", .list (names.map .text)⟩ := by
  rw [relist, List.filter_append, List.filter_filter, List.filter_eq_nil_iff.2 (by simp),
    List.nil_append, List.filter_eq_self]
  exact List.forall_mem_map.2 fun _ _ => rfl

theorem Model.listStrings_relist (m : Model) (lists : List (List String)) :
    ListStrings (m.relist lists).arguments := by
  intro a ha hn
  have hmem := List.mem_filter.2 ⟨ha, hn⟩
  rw [filter_relist] at hmem
  obtain ⟨names, -, rfl⟩ := List.mem_map.1 hmem
  exact ⟨names, rfl⟩

theorem Model.listedStrings_relist (m : Model) (lists : List (List String)) :
    listedStrings (m.relist lists).arguments = lists.flatten := by
  rw [listedStrings, filter_relist, List.flatMap_map]
  simp only [strings_map_text]
  exact List.flatMap_id'

theorem Model.sameUses_relist {m : Model} {lists : List (List String)} {unused : List String}
    (hm : ListStrings m.arguments)
    (hl : ∀ name, name ∈ lists.flatten ↔ name ∈ listedStrings m.arguments ∨ name ∈ unused)
    (hu : ∀ name ∈ unused, ∀ f ∈ declaredFields m.declaration.members, ¬f.IsOver name) :
    (m.relist lists).SameUses m where
  declaration := rfl
  strings := m.listStrings_relist lists
  strings' := hm
  uses f hf name hn := by
    rw [listedStrings_relist, hl]
    exact or_iff_left fun hmem => hu name hmem f hf hn

/-- Two schemas whose models differ in nothing but their lists of nested names give the same code, or
fail alike, where the lists agree on each name that a field of the model is a form of. So the names of
a model may be given in another order, more than once and in other lists, and names of which no field
is a form may be added. -/
theorem generateTokens_uses (runtime : String) :
    (∀ s s' : Schema, List.Forall₂ Model.SameUses s.models s'.models →
      (s.generateTokens ⟨runtime, false⟩).result = (s'.generateTokens ⟨runtime, false⟩).result) ∧
    ∀ (s : Schema) (lists : Model → List (List String)) (unused : Model → List String),
      (∀ m ∈ s.models, ListStrings m.arguments ∧
        (∀ name, name ∈ (lists m).flatten ↔ name ∈ listedStrings m.arguments ∨ name ∈ unused m) ∧
        ∀ name ∈ unused m, ∀ f ∈ declaredFields m.declaration.members, ¬f.IsOver name) →
      (Schema.generateTokens ⟨s.package, s.models.map fun m => m.relist (lists m)⟩
        ⟨runtime, false⟩).result = (s.generateTokens ⟨runtime, false⟩).result := by
  refine ⟨fun s s' h => Schema.generateTokens_congr h runtime, fun s lists unused h => ?_⟩
  refine Schema.generateTokens_congr ?_ runtime
  rw [List.forall₂_map_left_iff, List.forall₂_same]
  intro m hm
  obtain ⟨hs, hl, hu⟩ := h m hm
  exact Model.sameUses_relist hs hl hu

/-- A basket with its owner and its lines, under some lists of nested names. -/
def basket (lists : List (List String)) : Schema :=
  ⟨"", [Model.relist ⟨⟨.struct, "Basket", [.stored "owner" (some "Person?"),
    .stored "total" (some "Money"), .stored "lines" (some "Vec < Line >")]⟩, []⟩ lists]⟩

theorem generateTokens_uses_of_basket :
    (∃ ts, ((basket [["Line", "Person"]]).generateTokens ⟨"::dtogen", false⟩).result = .ok ts ∧
      ((basket [["Person", "Tag", "Person"], ["no name", "Line"]]).generateTokens
        ⟨"::dtogen", false⟩).result = .ok ts) ∧
    (Schema.generateTokens ⟨"", (basket [["Line", "Person"]]).models.map
        fun m => m.relist [["no name", "Person"], [], ["Line", "Person"]]⟩
        ⟨"::dtogen", false⟩).result =
      ((basket [["Line", "Person"]]).generateTokens ⟨"::dtogen", false⟩).result := by
  constructor
  · obtain ⟨ts, h⟩ := exists_eq_ok (x := ((basket [["Line", "Person"]]).generateTokens
      ⟨"::dtogen", false⟩).result) (by decide +kernel)
    refine ⟨ts, h, ?_⟩
    rw [← h]
    refine ((generateTokens_uses "::dtogen").1 _ _ (.cons ⟨rfl, Model.listStrings_relist _ _,
      Model.listStrings_relist _ _, fun f hf name hn => ?_⟩ .nil)).symm
    rw [Model.listedStrings_relist, Model.listedStrings_relist]
    have hbase : ∀ f ∈ declaredFields [.stored "owner" (some "Person?"),
        .stored "total" (some "Money"), .stored "lines" (some "Vec < Line >")],
        ∀ name ∈ (TypeShape.parse f.type).baseName,
          (name ∈ [["Line", "Person"]].flatten ↔
            name ∈ [["Person", "Tag", "Person"], ["no name", "Line"]].flatten) := by decide +kernel
    exact hbase f hf name hn.baseName
  · refine (generateTokens_uses "::dtogen").2 (basket [["Line", "Person"]])
      (fun _ => [["no name", "Person"], [], ["Line", "Person"]]) (fun _ => ["no name"]) ?_
    refine List.forall_mem_singleton.2 ⟨Model.listStrings_relist _ _, fun name => ?_, ?_⟩
    · rw [Model.listedStrings_relist]
      simp
      tauto
    · rintro name hname f - ⟨hp, -⟩
      obtain rfl := List.mem_singleton.1 hname
      revert hp
      decide

end Courier
