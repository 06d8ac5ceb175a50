import Courier.Proofs.Emit.Linking
import Courier.Proofs.Model.Classification
import Courier.Sample

/-!
What emitted conversions do. A value of a model is converted field by field, all ways to convert it
give the same result, and the way back leads to where it began.
-/
namespace Courier.Emit
open Code

/-! ## Values -/

mutual
/-- The values that are converted in a direction: those of models, or those of transfer types. A
field that is converted may hold values of any of the models, so these include all values that the
types of the fields admit. -/
inductive IsValue (xs : List Extracted) (d : Direction) : Value → Prop
  | record {x : Extracted} {n : Names} {fs : List (String × Value)} (hx : x ∈ xs)
      (hn : names x = .ok n) (hfs : AreFields xs d n.fields fs) :
      IsValue xs d (.record (d.sourceType n) fs)

inductive AreFields (xs : List Extracted) (d : Direction) :
    List (String × FieldShape) → List (String × Value) → Prop
  | nil : AreFields xs d [] []
  | cons {name : String} {shape : FieldShape} {v : Value} {spec : List (String × FieldShape)}
      {fs : List (String × Value)} (h : IsField xs d shape v) (hs : AreFields xs d spec fs) :
      AreFields xs d ((name, shape) :: spec) ((name, v) :: fs)

inductive IsField (xs : List Extracted) (d : Direction) : FieldShape → Value → Prop
  | scalar (v : Value) : IsField xs d .scalar v
  | direct {v : Value} (h : IsValue xs d v) : IsField xs d .direct v
  | absent : IsField xs d .optional .absent
  | present {v : Value} (h : IsValue xs d v) : IsField xs d .optional (.present v)
  | array {vs : List Value} (h : AreValues xs d vs) : IsField xs d .array (.list vs)
  | noArray : IsField xs d .optionalArray .absent
  | someArray {vs : List Value} (h : AreValues xs d vs) :
      IsField xs d .optionalArray (.present (.list vs))

inductive AreValues (xs : List Extracted) (d : Direction) : List Value → Prop
  | nil : AreValues xs d []
  | cons {v : Value} {vs : List Value} (h : IsValue xs d v) (hs : AreValues xs d vs) :
      AreValues xs d (v :: vs)
end

/-! ## Images -/

/-- The value of a field and its image, by the form of the field, where nested values are converted
as a relation says. -/
inductive FieldImage (convert : Value → Value → Prop) : FieldShape → Value → Value → Prop
  | scalar (v : Value) : FieldImage convert .scalar v v
  | direct {v w : Value} (h : convert v w) : FieldImage convert .direct v w
  | absent : FieldImage convert .optional .absent .absent
  | present {v w : Value} (h : convert v w) :
      FieldImage convert .optional (.present v) (.present w)
  | array {vs ws : List Value} (h : List.Forall₂ convert vs ws) :
      FieldImage convert .array (.list vs) (.list ws)
  | noArray : FieldImage convert .optionalArray .absent .absent
  | someArray {vs ws : List Value} (h : List.Forall₂ convert vs ws) :
      FieldImage convert .optionalArray (.present (.list vs)) (.present (.list ws))

/-- The fields of a value and their images, in order and by the same names. -/
inductive FieldsImage (convert : Value → Value → Prop) :
    List (String × FieldShape) → List (String × Value) → List (String × Value) → Prop
  | nil : FieldsImage convert [] [] []
  | cons {name : String} {shape : FieldShape} {v w : Value} {spec : List (String × FieldShape)}
      {fs gs : List (String × Value)} (h : FieldImage convert shape v w)
      (hs : FieldsImage convert spec fs gs) :
      FieldsImage convert ((name, shape) :: spec) ((name, v) :: fs) ((name, w) :: gs)

section
variable {R S : Value → Value → Prop} {shape : FieldShape} {spec : List (String × FieldShape)}
  {v w : Value} {vs ws : List Value} {fs gs : List (String × Value)}

theorem forall₂_imp_of_depth (h : List.Forall₂ R vs ws)
    (hrs : ∀ a b, a.depth ≤ Value.depthList vs → R a b → S a b) : List.Forall₂ S vs ws := by
  induction h with
  | nil => exact .nil
  | cons ha _ ih =>
    refine .cons (hrs _ _ (Nat.le_max_left _ _) ha) (ih ?_)
    intro a b hab
    exact hrs a b (Nat.le_trans hab (Nat.le_max_right _ _))

/-- Nested values lie no deeper than the value of the field. -/
theorem FieldImage.imp (h : FieldImage R shape v w)
    (hrs : ∀ a b, a.depth ≤ v.depth → R a b → S a b) : FieldImage S shape v w := by
  cases h with
  | scalar => exact .scalar _
  | direct h => exact .direct (hrs _ _ (Nat.le_refl _) h)
  | absent => exact .absent
  | present h => exact .present (hrs _ _ (Nat.le_succ _) h)
  | array h => exact .array (forall₂_imp_of_depth h fun a b hab => hrs a b (Nat.le_succ_of_le hab))
  | noArray => exact .noArray
  | someArray h =>
    refine .someArray (forall₂_imp_of_depth h fun a b hab => hrs a b ?_)
    exact Nat.le_succ_of_le (Nat.le_succ_of_le hab)

theorem FieldsImage.imp (h : FieldsImage R spec fs gs)
    (hrs : ∀ a b, a.depth ≤ Value.depthFields fs → R a b → S a b) : FieldsImage S spec fs gs := by
  induction h with
  | nil => exact .nil
  | cons h _ ih =>
    refine .cons (h.imp fun a b hab => hrs a b (Nat.le_trans hab (Nat.le_max_left _ _))) (ih ?_)
    intro a b hab
    exact hrs a b (Nat.le_trans hab (Nat.le_max_right _ _))

theorem FieldImage.swap (h : FieldImage R shape v w) : FieldImage (fun a b => R b a) shape w v := by
  cases h with
  | scalar => exact .scalar _
  | direct h => exact .direct h
  | absent => exact .absent
  | present h => exact .present h
  | array h => exact .array h.flip
  | noArray => exact .noArray
  | someArray h => exact .someArray h.flip

theorem FieldsImage.swap (h : FieldsImage R spec fs gs) :
    FieldsImage (fun a b => R b a) spec gs fs := by
  induction h with
  | nil => exact .nil
  | cons h _ ih => exact .cons h.swap ih

theorem depthList_eq (hd : ∀ a b, R a b → a.depth = b.depth) (h : List.Forall₂ R vs ws) :
    Value.depthList vs = Value.depthList ws := by
  induction h with
  | nil => rfl
  | cons ha _ ih => simp only [Value.depthList, hd _ _ ha, ih]

theorem FieldImage.depth_eq (hd : ∀ a b, R a b → a.depth = b.depth) (h : FieldImage R shape v w) :
    v.depth = w.depth := by
  cases h with
  | scalar => rfl
  | direct h => exact hd _ _ h
  | absent => rfl
  | present h => simp only [Value.depth, hd _ _ h]
  | array h => simp only [Value.depth, depthList_eq hd h]
  | noArray => rfl
  | someArray h => simp only [Value.depth, depthList_eq hd h]

theorem FieldsImage.depth_eq (hd : ∀ a b, R a b → a.depth = b.depth)
    (h : FieldsImage R spec fs gs) : Value.depthFields fs = Value.depthFields gs := by
  induction h with
  | nil => rfl
  | cons h _ ih => simp only [Value.depthFields, h.depth_eq hd, ih]

theorem FieldsImage.map_fst (h : FieldsImage R spec fs gs) : fs.map Prod.fst = spec.map Prod.fst := by
  induction h with
  | nil => rfl
  | cons _ _ ih => simp only [List.map_cons, ih]

end

/-! ## Evaluation -/

section
variable {meaning : Meaning} {scope : Scope} {convert : FunctionName}

theorem mapM_of_forall₂ {f : Value → Option Value} {vs ws : List Value}
    (h : List.Forall₂ (fun a b => f a = some b) vs ws) : vs.mapM f = some ws := by
  induction h with
  | nil => rfl
  | cons ha _ ih => simp [List.mapM_cons, ha, ih]

theorem eval_converted {shape : FieldShape} {v w : Value} {e : Expr}
    (he : e.eval meaning scope = some v)
    (h : FieldImage (fun a b => meaning convert [a] = some b) shape v w) :
    (converted shape convert e).eval meaning scope = some w := by
  cases h with
  | scalar => simp [converted, Expr.eval, he, methodResult]
  | direct h => simp [converted, Expr.eval, he, h]
  | absent => simp [converted, Expr.eval, he, methodResult, mapElements]
  | present h => simp [converted, Expr.eval, he, methodResult, mapElements, h]
  | array h => simp [converted, Expr.eval, he, methodResult, mapElements, mapM_of_forall₂ h]
  | noArray => simp [converted, Expr.eval, he, methodResult, mapElements]
  | someArray h => simp [converted, Expr.eval, he, methodResult, mapElements, mapM_of_forall₂ h]

theorem lookup_of_nodup {fs : List (String × Value)} (hn : (fs.map Prod.fst).Nodup)
    {f : String × Value} (hf : f ∈ fs) : fs.lookup f.1 = some f.2 := by
  induction fs with
  | nil => cases hf
  | cons g fs ih =>
    rw [List.map_cons, List.nodup_cons] at hn
    rcases List.mem_cons.1 hf with rfl | hf
    · exact List.lookup_cons_self
    · have hne : f.1 ≠ g.1 := fun e => hn.1 (e ▸ List.mem_map_of_mem hf)
      rw [List.lookup_cons, beq_false_of_ne hne]
      exact ih hn.2 hf

/-- The initializers for the fields of a record give their images. -/
theorem eval_initializers {d : Direction} {runtime : Code.Tree}
    {spec : List (String × FieldShape)} {all fs gs : List (String × Value)} (type : String)
    (hl : ∀ f ∈ fs, all.lookup f.1 = some f.2)
    (h : FieldsImage (fun a b => meaning (d.convert runtime) [a] = some b) spec fs gs) :
    (spec.map fun f => initializerOf d runtime f.2 f.1).mapM
      (Initializer.eval meaning [(d.source, .record type all)]) = some gs := by
  induction h with
  | nil => rfl
  | cons h _ ih =>
    rename_i name _ v _ _ _ _ _
    have he : (Expr.field (.variable d.source) name).eval meaning [(d.source, .record type all)] =
        some v := by
      simpa [Expr.eval, Value.field?] using hl _ (List.mem_cons_self ..)
    have hs := ih fun f hf => hl f (List.mem_cons_of_mem _ hf)
    rw [List.map_cons, List.mapM_cons, hs]
    simp [Initializer.eval, initializerOf, eval_converted he h]

end

/-! ## There and back -/

/-- Models for which code is emitted, and in it no two types share a name and no two fields of a
type do. -/
structure Compatible (o : Options) (xs : List Extracted) : Prop where
  expands : ∀ x ∈ xs, ∃ p, (expand x o).result = .ok p
  types : (xs.flatMap typeNames).Nodup
  fields : ∀ x ∈ xs, (x.fields.map fun f => identifier? f.name).Nodup

/-- A value and its conversion, which leads back to the value. Two calls for each level of the
value are enough. -/
structure Paired (o : Options) (xs : List Extracted) (d : Direction) (v w : Value) : Prop where
  source : IsValue xs d v
  target : IsValue xs d.reverse w
  depth : v.depth = w.depth
  there : ∀ k, 2 * v.depth ≤ k →
    meaningOf (emitted o xs) k (d.convert o.runtime) [v] = some w
  back : ∀ k, 2 * w.depth ≤ k →
    meaningOf (emitted o xs) k (d.reverse.convert o.runtime) [w] = some v

variable {o : Options} {xs : List Extracted} {d : Direction} {x : Extracted} {n : Names}

theorem Compatible.parts (h : Compatible o xs) (hx : x ∈ xs) (hn : names x = .ok n) :
    ∃ q, Emit.parts x = .ok q ∧ q.names = n := by
  obtain ⟨p, hp⟩ := h.expands x hx
  obtain ⟨q, hq, -⟩ := expand_eq_ok.1 hp
  cases hn.symm.trans (names_of_parts hq)
  exact ⟨q, hq, rfl⟩

theorem Compatible.nodup (h : Compatible o xs) (hx : x ∈ xs) (hn : names x = .ok n) :
    (n.fields.map Prod.fst).Nodup := by
  obtain ⟨model, -, hn⟩ := bind_eq_ok.1 hn
  obtain ⟨transfer, -, hn⟩ := bind_eq_ok.1 hn
  obtain ⟨fs, hfs, hn⟩ := bind_eq_ok.1 hn
  cases hn
  have he : (fs.map Prod.fst).map some = x.fields.map fun f => identifier? f.name := by
    rw [mapM_eq_ok, Extracted.classified, List.forall₂_map_left_iff] at hfs
    rw [List.map_map, ← List.forall₂_eq_eq_eq, List.forall₂_map_left_iff,
      List.forall₂_map_right_iff]
    refine hfs.flip.imp ?_
    intro g f hf
    obtain ⟨name, hname, hf⟩ := bind_eq_ok.1 hf
    cases hf
    rw [identifier_eq_ok, classify_field] at hname
    exact hname.symm
  exact List.Nodup.of_map some (he ▸ h.fields x hx)

theorem Paired.swap {v w : Value} (h : Paired o xs d v w) : Paired o xs d.reverse w v :=
  ⟨h.target, d.reverse_reverse.symm ▸ h.source, h.depth.symm, h.back,
    d.reverse_reverse.symm ▸ h.there⟩

theorem areValues_of_paired {vs ws : List Value} (h : List.Forall₂ (Paired o xs d) vs ws) :
    AreValues xs d vs := by
  induction h with
  | nil => exact .nil
  | cons h _ ih => exact .cons h.source ih

theorem FieldsImage.areFields {spec : List (String × FieldShape)} {fs gs : List (String × Value)}
    (h : FieldsImage (Paired o xs d) spec fs gs) : AreFields xs d spec fs := by
  induction h with
  | nil => exact .nil
  | cons h _ ih =>
    refine .cons ?_ ih
    cases h with
    | scalar => exact .scalar _
    | direct h => exact .direct h.source
    | absent => exact .absent
    | present h => exact .present h.source
    | array h => exact .array (areValues_of_paired h)
    | noArray => exact .noArray
    | someArray h => exact .someArray (areValues_of_paired h)

theorem FieldsImage.back {spec : List (String × FieldShape)} {fs gs : List (String × Value)}
    (h : FieldsImage (Paired o xs d) spec fs gs) :
    FieldsImage (Paired o xs d.reverse) spec gs fs :=
  h.swap.imp fun _ _ _ p => p.swap

/-- Every way to convert a record builds the images of its fields. -/
theorem meaningOf_record (h : Compatible o xs) (hx : x ∈ xs) (hn : names x = .ok n)
    {fs gs : List (String × Value)} (hi : FieldsImage (Paired o xs d) n.fields fs gs)
    {f : FunctionName} (hf : f ∈ d.entryPoints o.runtime n) {k : Nat}
    (hk : 2 * (Value.depthFields fs + 1) ≤ k) :
    meaningOf (emitted o xs) k f [.record (d.sourceType n) fs] =
      some (.record (d.targetType n) gs) := by
  obtain ⟨q, hq, rfl⟩ := h.parts hx hn
  have build : ∀ k, 2 * Value.depthFields fs ≤ k →
      meaningOf (emitted o xs) (k + 1) (d.builder o.runtime q.names)
        [.record (d.sourceType q.names) fs] = some (.record (d.targetType q.names) gs) := by
    intro k hk
    have hl : ∀ f ∈ fs, fs.lookup f.1 = some f.2 :=
      fun f => lookup_of_nodup (hi.map_fst ▸ h.nodup hx hn)
    have he := eval_initializers (d.sourceType q.names) hl
      (hi.imp fun a b hab p => p.there k (by omega))
    rw [meaningOf_builder h.types hx hq, Names.initializers, he]
    rfl
  -- A delegate only calls the builder, so a record takes at most two calls more than its fields.
  obtain ⟨k, rfl⟩ : ∃ j, k = j + 2 := ⟨k - 2, by omega⟩
  rcases List.mem_cons.1 hf with rfl | hf
  · exact build (k + 1) (by omega)
  · rw [meaningOf_delegate h.types hx hq hf]
    exact build k (by omega)

theorem paired_record (h : Compatible o xs) (hx : x ∈ xs) (hn : names x = .ok n)
    {fs gs : List (String × Value)} (hi : FieldsImage (Paired o xs d) n.fields fs gs) :
    Paired o xs d (.record (d.sourceType n) fs) (.record (d.targetType n) gs) := by
  have hc : ∀ d : Direction, d.convert o.runtime ∈ d.entryPoints o.runtime n :=
    fun d => List.mem_cons_of_mem _ (d.convert_mem_delegates o.runtime n)
  refine ⟨.record hx hn hi.areFields, .record hx hn hi.back.areFields, ?_, ?_, ?_⟩
  · simp only [Value.depth, hi.depth_eq fun _ _ p => p.depth]
  · intro k hk
    exact meaningOf_record h hx hn hi (hc d) hk
  · intro k hk
    have hm := meaningOf_record h hx hn hi.back (hc d.reverse) hk
    rwa [Direction.targetType, d.reverse_reverse] at hm

mutual
/-- Every value has a conversion that leads back to it. -/
theorem IsValue.paired (h : Compatible o xs) {v : Value} (hv : IsValue xs d v) :
    ∃ w, Paired o xs d v w := by
  match hv with
  | .record hx hn hfs =>
    obtain ⟨gs, hgs⟩ := AreFields.paired h hfs
    exact ⟨_, paired_record h hx hn hgs⟩

theorem AreFields.paired (h : Compatible o xs) {spec : List (String × FieldShape)}
    {fs : List (String × Value)} (hfs : AreFields xs d spec fs) :
    ∃ gs, FieldsImage (Paired o xs d) spec fs gs := by
  match hfs with
  | .nil => exact ⟨[], .nil⟩
  | .cons hf hfs =>
    obtain ⟨w, hw⟩ := IsField.paired h hf
    obtain ⟨gs, hgs⟩ := AreFields.paired h hfs
    exact ⟨_, .cons hw hgs⟩

theorem IsField.paired (h : Compatible o xs) {shape : FieldShape} {v : Value}
    (hv : IsField xs d shape v) : ∃ w, FieldImage (Paired o xs d) shape v w := by
  match hv with
  | .scalar _ => exact ⟨_, .scalar _⟩
  | .direct hv =>
    obtain ⟨w, hw⟩ := IsValue.paired h hv
    exact ⟨_, .direct hw⟩
  | .absent => exact ⟨_, .absent⟩
  | .present hv =>
    obtain ⟨w, hw⟩ := IsValue.paired h hv
    exact ⟨_, .present hw⟩
  | .array hvs =>
    obtain ⟨ws, hws⟩ := AreValues.paired h hvs
    exact ⟨_, .array hws⟩
  | .noArray => exact ⟨_, .noArray⟩
  | .someArray hvs =>
    obtain ⟨ws, hws⟩ := AreValues.paired h hvs
    exact ⟨_, .someArray hws⟩

theorem AreValues.paired (h : Compatible o xs) {vs : List Value} (hvs : AreValues xs d vs) :
    ∃ ws, List.Forall₂ (Paired o xs d) vs ws := by
  match hvs with
  | .nil => exact ⟨[], .nil⟩
  | .cons hv hvs =>
    obtain ⟨w, hw⟩ := IsValue.paired h hv
    obtain ⟨ws, hws⟩ := AreValues.paired h hvs
    exact ⟨_, .cons hw hws⟩
end

/-! ## Runs -/

theorem Paired.run {v w : Value} (h : Paired o xs d v w) :
    Emit.run (emitted o xs) (d.convert o.runtime) [v] = some w := by
  refine h.there _ ?_
  simp only [Value.depthList, Nat.max_zero]
  omega

theorem run_record (h : Compatible o xs) (hx : x ∈ xs) (hn : names x = .ok n)
    {fs gs : List (String × Value)} (hi : FieldsImage (Paired o xs d) n.fields fs gs)
    {f : FunctionName} (hf : f ∈ d.entryPoints o.runtime n) :
    run (emitted o xs) f [.record (d.sourceType n) fs] = some (.record (d.targetType n) gs) := by
  refine meaningOf_record h hx hn hi hf ?_
  simp only [Value.depthList, Value.depth, Nat.max_zero]
  omega

/-- In either direction, all functions that convert a value of a model give the same result, the
image of the value field by field, and all functions that convert back lead from it to the value. -/
theorem conversions_inverse (h : Compatible o xs) (hx : x ∈ xs) (hn : names x = .ok n)
    {fs : List (String × Value)} (hfs : AreFields xs d n.fields fs) :
    ∃ gs, AreFields xs d.reverse n.fields gs ∧
      FieldsImage (fun v w => run (emitted o xs) (d.convert o.runtime) [v] = some w) n.fields fs gs ∧
      (∀ f ∈ d.entryPoints o.runtime n,
        run (emitted o xs) f [.record (d.sourceType n) fs] = some (.record (d.targetType n) gs)) ∧
      (∀ f ∈ d.reverse.entryPoints o.runtime n,
        run (emitted o xs) f [.record (d.targetType n) gs] = some (.record (d.sourceType n) fs)) := by
  obtain ⟨gs, hi⟩ := AreFields.paired h hfs
  refine ⟨gs, hi.back.areFields, hi.imp fun _ _ _ p => p.run,
    fun f hf => run_record h hx hn hi hf, ?_⟩
  intro f hf
  have hr := run_record h hx hn hi.back hf
  rwa [Direction.targetType, d.reverse_reverse] at hr

/-- An article holds tags in fields of all forms, and a node is a model of itself. -/
theorem conversions_inverse_of_article :
    let xs := [Sample.article, Sample.tag, Sample.node].map Sample.extracted
    let n : Names := ⟨"Article", "ArticleDTO", [("title", .scalar), ("views", .scalar),
      ("primary", .direct), ("secondary", .optional), ("tags", .array),
      ("archived_tags", .optionalArray)]⟩
    let tag : Value := .record "Tag" [("label", .text "new"), ("weight", .number 1)]
    let fs : List (String × Value) := [("title", .text "News"), ("views", .number 3),
      ("primary", tag), ("secondary", .present tag), ("tags", .list [tag, tag]),
      ("archived_tags", .present (.list []))]
    Compatible .default xs ∧ Sample.article.extracted ∈ xs ∧
      names Sample.article.extracted = .ok n ∧ AreFields xs .toTransfer n.fields fs ∧
      ∃ gs, ∀ f ∈ Direction.toTransfer.entryPoints defaultRuntime n,
        run (emitted .default xs) f [.record "Article" fs] = some (.record "ArticleDTO" gs) := by
  intro xs n tag fs
  have hc : Compatible .default xs := by
    refine ⟨?_, by decide +kernel, by decide +kernel⟩
    have hp : ∀ x ∈ xs, ((expand x .default).result.toOption).isSome = true := by decide +kernel
    intro x hx
    cases he : (expand x .default).result with
    | ok p => exact ⟨p, rfl⟩
    | error e => exact absurd (hp x hx) (by simp [he, Except.toOption])
  have hx : Sample.article.extracted ∈ xs := List.mem_cons_self ..
  have hn : names Sample.article.extracted = .ok n := by decide +kernel
  have ht : IsValue xs .toTransfer tag :=
    .record (x := Sample.tag.extracted) (List.mem_cons_of_mem _ (List.mem_cons_self ..))
      (n := ⟨"Tag", "TagDTO", [("label", .scalar), ("weight", .scalar)]⟩) (by decide +kernel)
      (.cons (.scalar _) (.cons (.scalar _) .nil))
  have hfs : AreFields xs .toTransfer n.fields fs :=
    .cons (.scalar _) (.cons (.scalar _) (.cons (.direct ht) (.cons (.present ht)
      (.cons (.array (.cons ht (.cons ht .nil))) (.cons (.someArray .nil) .nil)))))
  obtain ⟨gs, -, -, hgs, -⟩ := conversions_inverse hc hx hn hfs
  exact ⟨hc, hx, hn, hfs, gs, hgs⟩

end Courier.Emit
