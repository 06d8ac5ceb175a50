import Courier.Proofs.Generation.Independence
import Courier.Proofs.Model.Classification

/-!
Types may be spelled in more than one way. Models with the same fields give the same code as long as
the spellings of a type have one shape, or none and the same tokens.
-/
namespace Courier
open Code

/-! ## Shapes of texts -/

theorem matchNested_foreign (text : String) (names : List String) :
    matchNested (.foreign text) names = none := by
  induction names with
  | nil => rfl
  | cons n names ih => exact ih

theorem classify_foreign {f : Field} (h : TypeShape.of? f.type = none) (nested : NestedNames) :
    (classify f nested).shape = .scalar ∧ (classify f nested).transferText = f.type := by
  have hp := TypeShape.parse_of_none h
  simp only [classify, hp, matchNested_foreign, Classified.transferText, TypeShape.render]
  exact ⟨trivial, trivial⟩

/-- Fields whose types have one shape are of one form, with one transfer type. -/
theorem classify_congr {f g : Field} {s : TypeShape} (hf : TypeShape.of? f.type = some s)
    (hg : TypeShape.of? g.type = some s) (nested : NestedNames) :
    (classify f nested).shape = (classify g nested).shape ∧
      (classify f nested).transferText = (classify g nested).transferText := by
  obtain ⟨hpf, hs⟩ := TypeShape.parse_of_some hf
  obtain ⟨hpg, -⟩ := TypeShape.parse_of_some hg
  cases hm : matchNested s nested.toList with
  | none =>
    simp only [classify, hpf, hpg, hm, Classified.transferText]
    exact ⟨trivial, trivial⟩
  | some p =>
    obtain ⟨name, form⟩ := p
    obtain ⟨hc, rfl⟩ := FieldShape.ofShape_eq_some.1 (matchNested_eq_some hm).2
    have ht : (form.around (transferName name)).IsPlain :=
      FieldShape.isPlain_around.2 (isPlainName_transferName (FieldShape.isPlain_around.1 hs))
    simp only [classify, hpf, hpg, hm, Classified.transferText, FieldShape.withBaseName_around,
      TypeShape.parse_render ht]
    exact ⟨trivial, trivial⟩

/-! ## Fields with two texts -/

namespace Emit

/-- Two texts of a type may stand for each other: they have the same shape, or they have none and
are types of the same tokens. -/
def Interchangeable (a b : String) : Prop :=
  (∃ s, TypeShape.of? a = some s ∧ TypeShape.of? b = some s) ∨
    TypeShape.of? a = none ∧ TypeShape.of? b = none ∧
      ∀ field, Alike (fun t u => t.tokens = u.tokens) (fieldType field a) (fieldType field b)

/-- Fields of one name with texts that may stand for each other. -/
def SameField (f g : Field) : Prop := f.name = g.name ∧ Interchangeable f.type g.type

variable {f g : Field} {x y : Extracted} {p q : Parts}

theorem transferField_alike (h : SameField f g) (nested : NestedNames) :
    (classify f nested).shape = (classify g nested).shape ∧
      Alike (fun a b => a.1 = b.1 ∧ a.2.tokens = b.2.tokens) (transferField (classify f nested))
        (transferField (classify g nested)) := by
  obtain ⟨hname, h⟩ := h
  unfold transferField
  rw [classify_field, classify_field, hname]
  have halike : ∀ {t u : String}, Alike (fun t u => t.tokens = u.tokens) (fieldType g.name t)
      (fieldType g.name u) → Alike (fun a b => a.1 = b.1 ∧ a.2.tokens = b.2.tokens)
        (do return (← identifier g.name, ← fieldType g.name t) : Except GenerateError _)
        (do return (← identifier g.name, ← fieldType g.name u) : Except GenerateError _) := by
    intro t u h
    refine (Alike.refl (identifier g.name)).bind ?_
    rintro a _ rfl
    exact h.bind fun _ _ h => .ok ⟨rfl, h⟩
  rcases h with ⟨s, hf, hg⟩ | ⟨hf, hg, htype⟩
  · obtain ⟨hshape, htext⟩ := classify_congr hf hg nested
    rw [htext]
    exact ⟨hshape, halike ((Alike.refl _).imp fun _ _ h => congrArg _ h)⟩
  · obtain ⟨hf, hft⟩ := classify_foreign hf nested
    obtain ⟨hg, hgt⟩ := classify_foreign hg nested
    rw [hft, hgt]
    exact ⟨hf.trans hg.symm, halike (htype _)⟩

/-! ## Code of models with the same fields -/

/-- Models of one name with the same nested names and the same fields. -/
structure SameModel (x y : Extracted) : Prop where
  name : x.name = y.name
  nested : x.nested = y.nested
  fields : List.Forall₂ SameField x.fields y.fields

/-- Parts with the same names, and types of the same tokens. -/
structure SameParts (p q : Parts) : Prop where
  title : p.title = q.title
  model : p.model = q.model
  transfer : p.transfer = q.transfer
  fields : List.Forall₂ (fun f g => f.1 = g.1 ∧ f.2.1.tokens = g.2.1.tokens ∧ f.2.2 = g.2.2)
    p.fields q.fields

theorem parts_alike (h : SameModel x y) : Alike SameParts (parts x) (parts y) := by
  have hclassified : List.Forall₂ (fun c d => c.shape = d.shape ∧
      Alike (fun a b => a.1 = b.1 ∧ a.2.tokens = b.2.tokens) (transferField c) (transferField d))
      x.classified y.classified := by
    rw [Extracted.classified, Extracted.classified, List.forall₂_map_left_iff,
      List.forall₂_map_right_iff, h.nested]
    exact h.fields.imp fun _ _ h => transferField_alike h _
  unfold parts
  rw [h.name, show x.transferName = y.transferName from congrArg transferName h.name]
  refine (Alike.refl (identifier y.name)).bind ?_
  rintro model _ rfl
  refine (Alike.refl (identifier y.transferName)).bind ?_
  rintro transfer _ rfl
  refine (Alike.mapM hclassified fun c d h => ?_).bind fun fs gs hfs => .ok ⟨rfl, rfl, rfl, hfs⟩
  exact h.2.bind fun a b hab => .ok ⟨hab.1, hab.2, h.1⟩

theorem SameParts.names (h : SameParts p q) : p.names = q.names := by
  have hf : p.fields.map (fun f => (f.1, f.2.2)) = q.fields.map fun f => (f.1, f.2.2) := by
    rw [← List.forall₂_eq_eq_eq, List.forall₂_map_left_iff, List.forall₂_map_right_iff]
    exact h.fields.imp fun _ _ h => Prod.ext h.1 h.2.2
  rw [Parts.names, Parts.names, h.model, h.transfer, hf]

theorem map_eq_of_fields {α : Type} (h : SameParts p q) {k : String × Code.Tree × FieldShape → α}
    (hk : ∀ f g, f.1 = g.1 → f.2.1.tokens = g.2.1.tokens → k f = k g) :
    p.fields.map k = q.fields.map k := by
  rw [← List.forall₂_eq_eq_eq, List.forall₂_map_left_iff, List.forall₂_map_right_iff]
  exact h.fields.imp fun _ _ h => hk _ _ h.1 h.2.1

/-- The same parts make the same code. -/
theorem SameParts.tokens (h : SameParts p q) (o : Options) : (p.pair o).tokens = (q.pair o).tokens := by
  have hstruct : (p.struct o.visibility).tokens = (q.struct o.visibility).tokens := by
    simp only [Parts.struct, Item.tokens, List.map_map, h.title, h.transfer]
    rw [map_eq_of_fields h]
    intro f g hn ht
    simp only [Function.comp, hn, ht]
  have hnew : p.new.tokens = q.new.tokens := by
    simp only [Parts.new, Item.tokens, List.flatMap_cons, List.flatMap_nil, Function.tokens,
      Body.tokens, List.map_map, h.transfer]
    rw [map_eq_of_fields h (k := Input.tokens ∘ _), map_eq_of_fields h (k := Initializer.tokens ∘ _)]
    · intro f g hn _
      simp only [Function.comp, hn]
    · intro f g hn ht
      simp only [Function.comp, Input.tokens, SignatureType.tokens, hn, ht]
  have htokens : ∀ p : Parts, (p.pair o).tokens = (p.struct o.visibility).tokens ++ (p.new.tokens ++
      itemTokens [p.names.link o.runtime, p.names.constructor o.runtime,
        p.names.conformance o.runtime]) := fun _ => rfl
  rw [htokens, htokens, hstruct, hnew, h.names]

end Emit

/-! ## Extraction -/

section
open Emit

variable {m n : Member} {ms ns : List Member} {v w : ArgumentValue} {l k : String}

/-- Stored members of one name with types that may stand for each other. -/
inductive SameMember : Member → Member → Prop
  | stored {name a b : String} (h : Interchangeable a b) :
      SameMember (.stored name (some a)) (.stored name (some b))

/-- Values that mean the same in an argument: nothing that is no array or string means anything. -/
inductive SameValue : ArgumentValue → ArgumentValue → Prop
  | refl (v : ArgumentValue) : SameValue v v
  | code (a b : String) : SameValue (.code a) (.code b)

theorem fieldsFrom_alike (model : String) (h : List.Forall₂ SameMember ms ns) (seen : List String) :
    Alike (List.Forall₂ SameField) (fieldsFrom model seen ms).result
      (fieldsFrom model seen ns).result := by
  induction h generalizing seen with
  | nil => exact .ok .nil
  | cons h _ ih =>
    cases h with
    | @stored name _ _ h =>
      unfold fieldsFrom
      split
      · exact .error
      · rw [Traced.result_bind, Traced.result_bind]
        exact (ih _).bind fun fs gs hfs => .ok (.cons ⟨rfl, h⟩ hfs)

theorem nestedNames_alike (name : String) (hv : SameValue v w) (hl : l ∈ nestedLabels)
    (hk : k ∈ nestedLabels) :
    Alike Eq (nestedNames name [⟨some l, v⟩]) (nestedNames name [⟨some k, w⟩]) := by
  have hnested : ∀ l ∈ nestedLabels, ∀ v, (Argument.mk (some l) v).isNestedList = true := by
    intro l hl v
    simpa [Argument.isNestedList] using hl
  unfold nestedNames allListedNames
  rw [if_pos (hnested l hl v), if_pos (hnested k hk w)]
  cases hv with
  | refl => exact .refl _
  | code => exact .error

theorem extract_alike (name : String) (hm : List.Forall₂ SameMember ms ns) (hv : SameValue v w)
    (hl : l ∈ nestedLabels) (hk : k ∈ nestedLabels) :
    Alike SameModel (extract ⟨.struct, name, ms⟩ [⟨some l, v⟩]).result
      (extract ⟨.struct, name, ns⟩ [⟨some k, w⟩]).result := by
  unfold extract
  rw [if_neg (by simp [DeclarationKind.isClassLike]), if_neg (by simp [DeclarationKind.isClassLike])]
  simp only [Traced.result_bind, Traced.result_ofExcept]
  refine (nestedNames_alike name hv hl hk).bind ?_
  rintro nested _ rfl
  exact (fieldsFrom_alike name hm []).bind fun fs gs hfs => .ok ⟨rfl, rfl, hfs⟩

theorem parse_sameValue {text : String} {ts : Tokens} {e : Code.Tree}
    (hl : lex (String.ofList (Text.trim text.toList)) = some ts) (he : parseExpr ts = .ok e) :
    SameValue (ArgumentValue.ofExpr e) (ArgumentValue.parse text) := by
  have hexpr : ArgumentValue.expression? (String.ofList (Text.trim text.toList)) = some e := by
    simp [ArgumentValue.expression?, hl, he, Except.toOption]
  delta ArgumentValue.parse
  simp only [hexpr, Option.map_some]
  cases h : ArgumentValue.ofExpr e with
  | list => exact .refl _
  | text => exact .refl _
  | code => exact .code _ _

/-- A schema of one model gives what the model gives. -/
theorem generatePairs_alike {runtime : String} {path : Code.Tree} (hr : runtimePath runtime = .ok path)
    (package : String) (m : Model) :
    Alike (fun q ps => ps = [q.pair (.public path)])
      ((extract m.declaration m.arguments).result.mapError GenerateError.extract >>= parts)
      (Schema.generatePairs ⟨package, [m]⟩ ⟨runtime, false⟩).result := by
  refine Alike.of_ok_iff fun ps => ?_
  rw [Schema.generatePairs_eq_ok_iff]
  simp only [bind_eq_ok, Except.mapError_eq_ok]
  constructor
  · rintro ⟨path', hr', -, -, hps⟩
    obtain rfl := Except.ok.inj (hr.symm.trans hr')
    obtain ⟨p, ps, ⟨x, hx, q, hq, rfl⟩, hnil, rfl⟩ := List.forall₂_cons_left_iff.1 hps
    cases hnil
    exact ⟨q, ⟨x, hx, hq⟩, rfl⟩
  · rintro ⟨q, ⟨x, hx, hq⟩, rfl⟩
    exact ⟨path, hr, List.nodup_singleton _, fun h => absurd h Bool.false_ne_true,
      .cons ⟨x, hx, q, hq, rfl⟩ .nil⟩

end

end Courier
