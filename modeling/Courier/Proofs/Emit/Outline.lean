import Courier.Proofs.Code.Enclosed
import Courier.Proofs.Code.Plain
import Courier.Proofs.Emit.Linking

/-!
The outline of emitted code. Names are single tokens, and types and conversions hold no comma of
their own, so each list is cut where it was put together, and each item ends at its own braces.
-/
namespace Courier.Emit
open Code

/-! ## Lists -/

section
variable {ts : List Tokens}

theorem cut_comma (ts : Tokens) : Outline.cut 0 false (comma ++ ts) = [] :: Outline.cut 0 false ts := by
  simp [comma, Tokens.sign, Tokens.joined, Outline.cut]

theorem cut_listed (h : ∀ t ∈ ts, Outline.Uncut 0 t) :
    Outline.cut 0 false (listed ts) = ts ++ [[]] := by
  induction ts with
  | nil => rfl
  | cons t ts ih =>
    rw [List.forall_mem_cons] at h
    have htokens : listed (t :: ts) = t ++ (comma ++ listed ts) := by
      rw [listed, List.flatMap_cons, List.append_assoc, ← listed]
    rw [htokens, h.1 0 (Nat.le_refl 0), cut_comma, ih h.2, Outline.attach, List.append_nil,
      List.cons_append]

theorem cut_separated (h : ∀ t ∈ ts, Outline.Uncut 0 t) (hne : ts ≠ []) :
    Outline.cut 0 false (separated ts) = ts := by
  fun_induction separated ts with
  | case1 => exact absurd rfl hne
  | case2 t =>
    have := h t (List.mem_singleton_self t) 0 (Nat.le_refl 0) []
    rwa [List.append_nil, Outline.cut, Outline.attach, List.append_nil] at this
  | case3 t ts hts ih =>
    rw [List.forall_mem_cons] at h
    rw [List.append_assoc, h.1 0 (Nat.le_refl 0), cut_comma, ih h.2 hts, Outline.attach,
      List.append_nil]

theorem elements_listed (h : ∀ t ∈ ts, Outline.Uncut 0 t) : Outline.elements (listed ts) = ts := by
  simp [Outline.elements, cut_listed h]

theorem elements_separated (h : ∀ t ∈ ts, Outline.Uncut 0 t) (hne : ∀ t ∈ ts, t ≠ []) :
    Outline.elements (separated ts) = ts := by
  by_cases hts : ts = []
  · rw [hts]
    rfl
  · have hlast : ts.getLast? ≠ some [] := fun hl => hne [] (List.mem_of_getLast? hl) rfl
    rw [Outline.elements, cut_separated h hts, if_neg hlast]

end

/-! ## Names and paths -/

theorem inner_word (name : String) : Outline.Inner (Tokens.word name) := by
  simp [Outline.Inner, Outline.isInner, Tokens.word]

theorem inner_sign {s : String} (h : (Tokens.sign s).all Outline.isInner = true) :
    Outline.Inner (Tokens.sign s) := List.all_eq_true.1 h

theorem inner_path (p : PlainPath) : Outline.Inner p.tokens := by
  have hbehind : ∀ names, Outline.Inner (PlainPath.behind names) := by
    intro names
    induction names with
    | nil => exact .nil
    | cons name names ih => simpa [Outline.Inner, Outline.isInner] using ih
  have hlead : Outline.Inner (if p.lead then Tokens.sign "::" else []) := by
    split
    · exact inner_sign (by decide)
    · exact .nil
  refine hlead.append ?_
  exact (inner_word p.first).append (hbehind p.others)

theorem inner_trait (p : PlainPath) (t : Trait) : Outline.Inner (TraitPath.tokens ⟨p.tree, t⟩) := by
  rw [TraitPath.tokens, PlainPath.tree_tokens]
  exact ((inner_path p).append (inner_sign (by decide))).append (inner_word _)

/-! ## Conversions -/

section
variable {f : FunctionName} {e : Expr} {ts : Tokens}

theorem uncut_typed (name : String) (h : Outline.Uncut 0 ts) :
    Outline.Uncut 0 (Tokens.word name ++ Tokens.sign ":" ++ ts) :=
  ((inner_word name).append (inner_sign (by decide))).uncut.append h

theorem uncut_method (h : Outline.Uncut 0 ts) (name : String) (arguments : Tokens) :
    Outline.Uncut 0 (ts ++ Tokens.sign "." ++ Tokens.word name ++ [.group .paren arguments]) :=
  ((h.append (inner_sign (by decide)).uncut).append (.ident name)).append (.group _ _)

theorem uncut_converted (shape : FieldShape) (hf : Outline.Uncut 0 f.tokens)
    (he : Outline.Uncut 0 e.tokens) : Outline.Uncut 0 (converted shape f e).tokens := by
  cases shape with
  | scalar => exact uncut_method he "clone" []
  | direct => exact hf.append (.group _ _)
  | optional => exact uncut_method (uncut_method he "as_ref" []) "map" f.tokens
  | array => exact uncut_method (uncut_method (uncut_method he "iter" []) "map" f.tokens) "collect" []
  | optionalArray => exact uncut_method (uncut_method he "as_ref" []) "map" _

theorem uncut_convert (p : PlainPath) (d : Direction) : Outline.Uncut 0 (d.convert p.tree).tokens := by
  have hname : ∀ t name, Outline.Inner (FunctionName.ofTrait ⟨p.tree, t⟩ name).tokens := fun t name =>
    ((inner_trait p t).append (inner_sign (by decide))).append (inner_word name)
  cases d with
  | toTransfer => exact (hname .convertible "to_dto").uncut
  | toModel => exact (hname .dto "to_model").uncut

/-- What is read of an initializer. -/
def Initializer.binding (i : Initializer) : Outline.Binding :=
  ⟨i.name, (i.value.map Expr.tokens).getD []⟩

theorem binding?_typed (name : String) (ts : Tokens) :
    Outline.binding? (Tokens.word name ++ Tokens.sign ":" ++ ts) = some ⟨name, ts⟩ := by
  simp [Tokens.word, Tokens.sign, Tokens.joined, Outline.binding?]

theorem binding?_initializer (i : Initializer) : Outline.binding? i.tokens = some i.binding := by
  obtain ⟨name, value⟩ := i
  cases value with
  | none => rfl
  | some e => exact binding?_typed name e.tokens

theorem uncut_initializer (p : PlainPath) (d : Direction) (shape : FieldShape) (name : String) :
    Outline.Uncut 0 (initializerOf d p.tree shape name).tokens := by
  have hsource : Outline.Inner (Expr.field (.variable d.source) name).tokens :=
    ((inner_word _).append (inner_sign (by decide))).append (inner_word name)
  exact uncut_typed name (uncut_converted shape (uncut_convert p d) hsource.uncut)

end

/-! ## Functions -/

section
variable {α : Type}

theorem bindings?_map {g : α → Tokens} {b : α → Outline.Binding} {as : List α}
    (h : ∀ a ∈ as, Outline.binding? (g a) = some (b a)) :
    Outline.bindings? (as.map g) = some (as.map b) := by
  induction as with
  | nil => rfl
  | cons a as ih =>
    rw [List.forall_mem_cons] at h
    have hrest : (as.map g).mapM Outline.binding? = some (as.map b) := ih h.2
    rw [Outline.bindings?, List.map_cons, List.mapM_cons, h.1, hrest]
    rfl

theorem fieldsOf_build {is : List Initializer} (h : ∀ i ∈ is, Outline.Uncut 0 i.tokens) :
    Outline.fieldsOf (Body.build is).tokens = some (is.map Initializer.binding) := by
  have hlisted : Outline.elements (listed (is.map Initializer.tokens)) = is.map Initializer.tokens :=
    elements_listed (List.forall_mem_map.2 h)
  show Outline.bindings? (Outline.elements (listed _)) = _
  rw [hlisted]
  exact bindings?_map fun i _ => binding?_initializer i

/-- A call has no fields, even of a type whose name is that of the type itself. -/
theorem fieldsOf_inherent (type name : String) (e : Expr) :
    Outline.fieldsOf (Body.expr (.call (.inherent type name) e)).tokens = none := by
  have htokens : (Expr.call (.inherent type name) e).tokens = .ident type :: .punct ':' true ::
      .punct ':' false :: .ident name :: [.group .paren e.tokens] := by
    simp [Expr.tokens, FunctionName.tokens, path, Tokens.word, Tokens.sign_separator]
  rw [Body.tokens, htokens]
  unfold Outline.fieldsOf
  split
  · rename_i heq
    cases heq
  · rfl

theorem inputs?_variables {g : α → String × SignatureType} {as : List α}
    (h : ∀ a ∈ as, Outline.Uncut 0 (g a).2.tokens) :
    Outline.inputs? (separated ((as.map fun a => Input.variable (g a).1 (g a).2).map Input.tokens)) =
      some (false, as.map fun a => ⟨(g a).1, (g a).2.tokens⟩) := by
  have huncut : ∀ a ∈ as, Outline.Uncut 0 (Input.variable (g a).1 (g a).2).tokens :=
    fun a ha => uncut_typed (g a).1 (h a ha)
  have helements : Outline.elements (separated
      (as.map fun a => (Input.variable (g a).1 (g a).2).tokens)) =
      as.map fun a => (Input.variable (g a).1 (g a).2).tokens := by
    refine elements_separated (List.forall_mem_map.2 huncut) (List.forall_mem_map.2 fun a _ => ?_)
    simp [Input.tokens, Tokens.word]
  have hbindings : Outline.bindings? (as.map fun a => (Input.variable (g a).1 (g a).2).tokens) =
      some (as.map fun a => ⟨(g a).1, (g a).2.tokens⟩) :=
    bindings?_map fun a _ => binding?_typed (g a).1 (g a).2.tokens
  rw [List.map_map, Function.comp_def, Outline.inputs?, helements]
  cases as with
  | nil => rfl
  | cons a as =>
    split
    · rename_i heq
      exact absurd (List.cons.inj heq).1 (by simp [Input.tokens, Tokens.word])
    · exact congrArg (Option.map (false, ·)) hbindings

theorem inputs?_self : Outline.inputs? (separated [Input.self.tokens]) = some (true, []) := by
  decide

theorem endless_notes (notes : List Note) : Outline.Endless (notes.flatMap Note.tokens) := by
  intro t ht
  obtain ⟨n, -, ht⟩ := List.mem_flatMap.1 ht
  have hnote : Outline.Inner n.tokens :=
    (inner_sign (by decide)).append (by simp [Outline.Inner, Outline.isInner])
  exact hnote.endless t ht

theorem withoutAttributes_notes (notes : List Note) (ts : Tokens) :
    Outline.withoutAttributes (notes.flatMap Note.tokens ++ ts) = Outline.withoutAttributes ts := by
  induction notes with
  | nil => rfl
  | cons n notes ih =>
    rw [List.flatMap_cons, List.append_assoc, ← ih]
    simp [Note.tokens, Tokens.sign, Tokens.joined, Outline.withoutAttributes]

end

section
variable {f : Function}

/-- A function without its attributes, up to its body. -/
def Function.head (f : Function) : Tokens :=
  (if f.isPublic then Tokens.word "pub" else []) ++ (Tokens.word "fn" ++ (Tokens.word f.name ++
    ([.group .paren (separated (f.inputs.map Input.tokens))] ++
      (Tokens.sign "->" ++ f.result.tokens))))

theorem Function.tokens_head (f : Function) :
    f.tokens = f.notes.flatMap Note.tokens ++ f.head ++ [.group .brace f.body.tokens] := by
  simp only [Function.tokens, Function.head, List.append_assoc]

theorem endless_head (hr : Outline.Inner f.result.tokens) : Outline.Endless f.head := by
  have hpub : Outline.Inner (if f.isPublic then Tokens.word "pub" else []) := by
    split
    · exact inner_word "pub"
    · exact .nil
  have hgroup : Outline.Inner [.group .paren (separated (f.inputs.map Input.tokens))] := by
    simp [Outline.Inner, Outline.isInner]
  have harrow : Outline.Endless (Tokens.sign "->") := by
    simp [Outline.Endless, Outline.ending?, Tokens.sign, Tokens.joined]
  exact hpub.endless.append ((inner_word "fn").endless.append ((inner_word f.name).endless.append
    (hgroup.endless.append (harrow.append hr.endless))))

theorem withoutPub_head (f : Function) : Outline.withoutPub (Outline.withoutAttributes f.head) =
    .ident "fn" :: .ident f.name :: .group .paren (separated (f.inputs.map Input.tokens)) ::
      (Tokens.sign "->" ++ f.result.tokens) := by
  rw [Function.head]
  cases f.isPublic <;> rfl

theorem readAs_function {receiver : Bool} {inputs : List Outline.Binding}
    {fields : Option (List Outline.Binding)} (hr : Outline.Inner f.result.tokens)
    (hi : Outline.inputs? (separated (f.inputs.map Input.tokens)) = some (receiver, inputs))
    (hb : Outline.fieldsOf f.body.tokens = fields) :
    Outline.ReadAs Outline.member? f.tokens [.function f.name receiver inputs fields] := by
  rw [Function.tokens_head]
  refine .one ((endless_notes f.notes).append (endless_head hr)) rfl ?_
  rw [Outline.member?, withoutAttributes_notes, withoutPub_head]
  simp only [hi, hb, Option.map_some]

theorem readAs_functions {fs : List Function} {ms : List Outline.Member}
    (h : List.Forall₂ (fun f m => Outline.ReadAs Outline.member? f.tokens [m]) fs ms) :
    Outline.ReadAs Outline.member? (fs.flatMap Function.tokens) ms := by
  induction h with
  | nil => exact .nil
  | cons hf _ ih => exact hf.append ih

theorem readAs_type (name target : String) : Outline.ReadAs Outline.member?
    (Tokens.word "type" ++ Tokens.word name ++ Tokens.sign "=" ++ Tokens.word target ++
      Tokens.sign ";") [.type name [.ident target]] := by
  have hhead : Outline.Inner
      (Tokens.word "type" ++ Tokens.word name ++ Tokens.sign "=" ++ Tokens.word target) :=
    (((inner_word _).append (inner_word _)).append (inner_sign (by decide))).append (inner_word _)
  exact .one hhead.endless rfl rfl

end

/-! ## Items -/

section
variable {type name target : String} {fs : List Function} {ms : List Outline.Member}

theorem readAs_impl {head body : Tokens} (hh : Outline.Inner head)
    (hb : Outline.ReadAs Outline.member? body ms) :
    Outline.ReadAs Outline.item? (Tokens.word "impl" ++ head ++ [.group .brace body])
      [.impl head ms] := by
  refine .one ((inner_word "impl").append hh).endless rfl ?_
  show (Outline.read Outline.member? body).map _ = _
  rw [hb.eq]
  rfl

theorem readAs_own
    (h : List.Forall₂ (fun f m => Outline.ReadAs Outline.member? f.tokens [m]) fs ms) :
    Outline.ReadAs Outline.item? (Item.impl none type none fs).tokens [.impl [.ident type] ms] :=
  readAs_impl (inner_word type) (readAs_functions h)

theorem readAs_trait (p : PlainPath) (t : Trait)
    (h : List.Forall₂ (fun f m => Outline.ReadAs Outline.member? f.tokens [m]) fs ms) :
    Outline.ReadAs Outline.item? (Item.impl (some ⟨p.tree, t⟩) type (some (name, target)) fs).tokens
      [.impl (TraitPath.tokens ⟨p.tree, t⟩ ++ [.ident "for", .ident type])
        (.type name [.ident target] :: ms)] := by
  have hhead := ((inner_trait p t).append (inner_word "for")).append (inner_word type)
  have hsplit : TraitPath.tokens ⟨p.tree, t⟩ ++ [.ident "for", .ident type] =
      TraitPath.tokens ⟨p.tree, t⟩ ++ Tokens.word "for" ++ Tokens.word type :=
    (List.append_assoc _ (Tokens.word "for") (Tokens.word type)).symm
  rw [hsplit]
  exact readAs_impl hhead ((readAs_type name target).append (readAs_functions h))

/-- A struct all of whose fields are public. -/
theorem readAs_struct {notes : List Note} {visibility : Code.Tree} {name : String}
    {fields : List (String × Code.Tree)} (hv : Outline.IsVisibility visibility.tokens)
    (hf : ∀ f ∈ fields, f.2.Intact) :
    Outline.ReadAs Outline.item? (Item.struct notes visibility name fields).tokens
      [.struct visibility.tokens name (fields.map fun f => ⟨f.1, f.2.tokens⟩)] := by
  have hhead : Outline.visibilityAnd (Outline.withoutAttributes (notes.flatMap Note.tokens ++
      visibility.tokens ++ Tokens.word "struct" ++ Tokens.word name)) =
      (visibility.tokens, [.ident "struct", .ident name]) := by
    rw [List.append_assoc, List.append_assoc, withoutAttributes_notes, hv.apart]
  have hfield : ∀ f ∈ fields, Outline.Uncut 0
      (Tokens.word "pub" ++ Tokens.word f.1 ++ Tokens.sign ":" ++ f.2.tokens) := fun f h =>
    (((inner_word _).append (inner_word _)).append (inner_sign (by decide))).uncut.append (hf f h)
  have hbindings : Outline.bindings? (fields.map fun f => Outline.withoutPub
      (Tokens.word "pub" ++ Tokens.word f.1 ++ Tokens.sign ":" ++ f.2.tokens)) =
      some (fields.map fun f => ⟨f.1, f.2.tokens⟩) :=
    bindings?_map fun f _ => binding?_typed f.1 f.2.tokens
  refine .one (((endless_notes notes).append hv.inner.endless).append (inner_word _).endless |>.append
    (inner_word _).endless) rfl ?_
  rw [Outline.item?, hhead]
  show (Outline.bindings? ((Outline.elements (listed _)).map Outline.withoutPub)).map _ = _
  rw [elements_listed (List.forall_mem_map.2 hfield), List.map_map]
  exact congrArg (Option.map _) hbindings

end

/-! ## The code of a model -/

/-- A path of names provides the traits, and the visibility is one. -/
structure Options.Plain (o : Options) : Prop where
  runtime : ∃ p : PlainPath, o.runtime = p.tree
  visibility : ∃ ts, parseVisibility ts = .ok o.visibility

/-- The items of a model by the names of its types and the elements of its lists. The fields of the
transfer type are the inputs of its constructor, too, and give the names of the values there. -/
def outlineOf (o : Options) (model transfer : String) (fields up down : List Outline.Binding) :
    List Outline.Item :=
  let trait (t : Trait) (type : String) : Tokens :=
    TraitPath.tokens ⟨o.runtime, t⟩ ++ [.ident "for", .ident type]
  let borrowed (name type : String) : Outline.Binding := ⟨name, [.punct '&' false, .ident type]⟩
  [.struct o.visibility.tokens transfer fields,
    .impl [.ident transfer]
      [.function "new" false fields (some (fields.map fun b => ⟨b.name, []⟩))],
    .impl (trait .dto transfer)
      [.type "Model" [.ident model],
        .function "from_model" false [borrowed "model" model] (some up),
        .function "to_model" true [] none],
    .impl [.ident model] [.function "from_dto" false [borrowed "dto" transfer] (some down)],
    .impl (trait .convertible model)
      [.type "Dto" [.ident transfer],
        .function "to_dto" true [] none,
        .function "from_dto" false [borrowed "dto" transfer] none]]

namespace Parts
variable {q : Parts} {o : Options} {p : PlainPath}

/-- The fields of the transfer type. -/
def bindings (q : Parts) : List Outline.Binding := q.fields.map fun f => ⟨f.1, f.2.1.tokens⟩

/-- The initializers in a direction. -/
def conversions (q : Parts) (d : Direction) (runtime : Code.Tree) : List Outline.Binding :=
  (q.names.initializers d runtime).map Initializer.binding

theorem readAs_struct (h : ∀ f ∈ q.fields, f.2.1.Intact)
    (hv : Outline.IsVisibility o.visibility.tokens) :
    Outline.ReadAs Outline.item? (q.struct o.visibility).tokens
      [.struct o.visibility.tokens q.transfer q.bindings] := by
  have hbindings : q.bindings =
      (q.fields.map fun f => (f.1, f.2.1)).map fun f => ⟨f.1, f.2.tokens⟩ := by
    rw [bindings, List.map_map]
    rfl
  rw [hbindings]
  exact Emit.readAs_struct hv (List.forall_mem_map.2 h)

theorem readAs_new (h : ∀ f ∈ q.fields, f.2.1.Intact) :
    Outline.ReadAs Outline.item? q.new.tokens [.impl [.ident q.transfer]
      [.function "new" false q.bindings (some (q.bindings.map fun b => ⟨b.name, []⟩))]] := by
  let input (f : String × Code.Tree × FieldShape) : String × SignatureType := (f.1, .written f.2.1)
  have hinputs : Outline.inputs? (separated ((q.fields.map fun f =>
      Input.variable (input f).1 (input f).2).map Input.tokens)) = some (false, q.bindings) :=
    inputs?_variables h
  have huncut : ∀ i ∈ q.fields.map fun f => (⟨f.1, none⟩ : Initializer), Outline.Uncut 0 i.tokens :=
    List.forall_mem_map.2 fun f _ => (inner_word f.1).uncut
  have hbuild := fieldsOf_build huncut
  rw [List.map_map] at hbuild
  rw [bindings, List.map_map]
  exact readAs_own (.cons (readAs_function (inner_word "Self") hinputs hbuild) .nil)

/-- The only input of a function: a variable of a borrowed type. -/
theorem inputs?_borrowed (name type : String) :
    Outline.inputs? (separated [(Input.variable name (.borrowed type)).tokens]) =
      some (false, [⟨name, [.punct '&' false, .ident type]⟩]) := rfl

theorem fieldsOf_conversions (p : PlainPath) (d : Direction) :
    Outline.fieldsOf (Body.build (q.names.initializers d p.tree)).tokens =
      some (q.conversions d p.tree) :=
  fieldsOf_build (List.forall_mem_map.2 fun f _ => uncut_initializer p d f.2 f.1)

theorem readAs_link (p : PlainPath) : Outline.ReadAs Outline.item? (q.names.link p.tree).tokens
    [.impl (TraitPath.tokens ⟨p.tree, .dto⟩ ++ [.ident "for", .ident q.transfer])
      [.type "Model" [.ident q.model],
        .function "from_model" false [⟨"model", [.punct '&' false, .ident q.model]⟩]
          (some (q.conversions .toTransfer p.tree)),
        .function "to_model" true [] none]] :=
  readAs_trait p .dto
    (.cons (readAs_function (inner_word "Self") (inputs?_borrowed "model" q.model)
        (fieldsOf_conversions p .toTransfer))
      (.cons (readAs_function (inner_word q.model) inputs?_self (fieldsOf_inherent ..)) .nil))

theorem readAs_constructor (p : PlainPath) :
    Outline.ReadAs Outline.item? (q.names.constructor p.tree).tokens
      [.impl [.ident q.model]
        [.function "from_dto" false [⟨"dto", [.punct '&' false, .ident q.transfer]⟩]
          (some (q.conversions .toModel p.tree))]] :=
  readAs_own (.cons (readAs_function (inner_word "Self") (inputs?_borrowed "dto" q.transfer)
    (fieldsOf_conversions p .toModel)) .nil)

theorem readAs_conformance (p : PlainPath) :
    Outline.ReadAs Outline.item? (q.names.conformance p.tree).tokens
      [.impl (TraitPath.tokens ⟨p.tree, .convertible⟩ ++ [.ident "for", .ident q.model])
        [.type "Dto" [.ident q.transfer],
          .function "to_dto" true [] none,
          .function "from_dto" false [⟨"dto", [.punct '&' false, .ident q.transfer]⟩] none]] :=
  readAs_trait p .convertible
    (.cons (readAs_function (inner_word q.transfer) inputs?_self rfl)
      (.cons (readAs_function (inner_word "Self") (inputs?_borrowed "dto" q.transfer)
        (fieldsOf_inherent ..)) .nil))

theorem readAs (h : ∀ f ∈ q.fields, f.2.1.Intact) (ho : o.Plain) :
    Outline.ReadAs Outline.item? (q.pair o).tokens (outlineOf o q.model q.transfer q.bindings
      (q.conversions .toTransfer o.runtime) (q.conversions .toModel o.runtime)) := by
  obtain ⟨⟨p, hp⟩, ts, hts⟩ := ho
  obtain ⟨runtime, visibility⟩ := o
  obtain rfl : runtime = p.tree := hp
  have hv := isVisibility_of_parseVisibility hts
  exact (readAs_struct (o := ⟨p.tree, visibility⟩) h hv).append ((readAs_new h).append
    ((readAs_link p).append ((readAs_constructor p).append ((readAs_conformance p).append .nil))))

end Parts

/-- The bindings are those of all fields in order, each under the identifier of its field. -/
def ListsFields (x : Extracted) (bs : List Outline.Binding) : Prop :=
  List.Forall₂ (fun f b => identifier? f.name = some b.name) x.fields bs

/-- The items are those of a model: each list in them is that of all fields, with the types of the
transfer type and the initializers of both directions. -/
def Outlines (x : Extracted) (o : Options) (items : List Outline.Item) : Prop :=
  ∃ model transfer fields up down, identifier? x.name = some model ∧
    identifier? x.transferName = some transfer ∧
    ListsFields x fields ∧ ListsFields x up ∧ ListsFields x down ∧
    List.Forall₂ (fun c b => ∃ t, transferField c = .ok (b.name, t) ∧ b.content = t.tokens)
      x.classified fields ∧
    List.Forall₂ (fun c b => (initializer .toTransfer o.runtime c).map Initializer.binding = .ok b)
      x.classified up ∧
    List.Forall₂ (fun c b => (initializer .toModel o.runtime c).map Initializer.binding = .ok b)
      x.classified down ∧
    items = outlineOf o model transfer fields up down

section
variable {x : Extracted} {q : Parts} {o : Options} {p : Pair}

theorem PartOf.transferField {nested : NestedNames} {f : Field} {g : String × Code.Tree × FieldShape}
    (h : PartOf nested f g) : transferField (classify f nested) = .ok (g.1, g.2.1) := by
  obtain ⟨hname, htype, -⟩ := h
  rw [Emit.transferField, classify_field, identifier_eq_ok.2 hname, ok_bind, htype]
  rfl

theorem PartOf.initializer {nested : NestedNames} {f : Field} {g : String × Code.Tree × FieldShape}
    (h : PartOf nested f g) (d : Direction) (runtime : Code.Tree) :
    initializer d runtime (classify f nested) = .ok (initializerOf d runtime g.2.2 g.1) := by
  obtain ⟨hname, -, hshape⟩ := h
  rw [Emit.initializer, classify_field, identifier_eq_ok.2 hname, ok_bind, hshape]
  rfl

theorem PartOf.intact {nested : NestedNames} {f : Field} {g : String × Code.Tree × FieldShape}
    (h : PartOf nested f g) : g.2.1.Intact := by
  obtain ⟨-, htype, -⟩ := h
  rw [fieldType] at htype
  split at htype
  · rename_i t ht
    cases htype
    obtain ⟨ts, -, hts⟩ := Option.bind_eq_some_iff.1 ht
    cases hp : parseType ts with
    | error =>
      rw [hp] at hts
      cases hts
    | ok t =>
      rw [hp] at hts
      cases hts
      exact intact_of_parseType hp
  · cases htype

theorem outlines_of_parts (hq : parts x = .ok q) (o : Options) :
    Outlines x o (outlineOf o q.model q.transfer q.bindings (q.conversions .toTransfer o.runtime)
      (q.conversions .toModel o.runtime)) := by
  obtain ⟨-, hmodel, htransfer, hfields⟩ := parts_eq_ok.1 hq
  have hconversions : ∀ d, q.conversions d o.runtime =
      q.fields.map fun g => (initializerOf d o.runtime g.2.2 g.1).binding := by
    intro d
    rw [Parts.conversions, Names.initializers, Parts.names, List.map_map, List.map_map]
    rfl
  have hlists : ∀ b : String × Code.Tree × FieldShape → Outline.Binding,
      (∀ g, (b g).name = g.1) → ListsFields x (q.fields.map b) := fun b hb =>
    List.forall₂_map_right_iff.2 (hfields.imp fun f g h => by rw [hb]; exact h.1)
  have hdirection : ∀ d, List.Forall₂
      (fun c b => (initializer d o.runtime c).map Initializer.binding = .ok b) x.classified
      (q.conversions d o.runtime) := by
    intro d
    rw [hconversions, Extracted.classified, List.forall₂_map_left_iff, List.forall₂_map_right_iff]
    exact hfields.imp fun f g h => by rw [h.initializer]; rfl
  have htypes : List.Forall₂ (fun c b => ∃ t, transferField c = .ok (b.name, t) ∧
      b.content = t.tokens) x.classified q.bindings := by
    rw [Parts.bindings, Extracted.classified, List.forall₂_map_left_iff, List.forall₂_map_right_iff]
    exact hfields.imp fun f g h => ⟨g.2.1, h.transferField, rfl⟩
  refine ⟨_, _, _, _, _, hmodel, htransfer, hlists _ fun _ => rfl, ?_, ?_, htypes, hdirection _,
    hdirection _, rfl⟩
  · rw [hconversions]
    exact hlists _ fun _ => rfl
  · rw [hconversions]
    exact hlists _ fun _ => rfl

/-- The code of a model is its five items. -/
theorem readAs_pair (ho : o.Plain) (h : (expand x o).result = .ok p) :
    ∃ items, Outline.ReadAs Outline.item? p.tokens items ∧ Outlines x o items := by
  obtain ⟨q, hq, rfl⟩ := expand_eq_ok.1 h
  obtain ⟨-, -, -, hfields⟩ := parts_eq_ok.1 hq
  have hintact : ∀ g ∈ q.fields, g.2.1.Intact := by
    intro g hg
    obtain ⟨f, -, hf⟩ := forall₂_mem_right hfields g hg
    exact hf.intact
  exact ⟨_, Parts.readAs hintact ho, outlines_of_parts hq o⟩

end

end Courier.Emit
