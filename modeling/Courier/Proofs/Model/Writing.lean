import Courier.Proofs.Model.Elements
import Courier.Proofs.Xml.Writing
import Mathlib.Data.List.Permutation

/-!
Schemas as they are written: one element for each model, directive, argument and member, in their
order. A text that is written for a schema is read as that schema.
-/
namespace Courier
open Xml Reading

/-! ## Texts of a schema -/

namespace Member

def element : Member → String
  | .stored .. => "property"
  | .computed _ => "computed"
  | .method _ => "method"
  | .nested _ => "nested"

/-- The attributes of the element. A member without a type has no attribute for it. -/
def attributes : Member → List (String × String)
  | .stored name (some type) => [("name", name), ("type", type)]
  | x => [("name", x.name)]

def Writes (x : Member) (cs : List Char) : Prop := WritesElement x.element x.attributes Gap cs

end Member

namespace Argument

def attributes (a : Argument) : List (String × String) := a.label.toList.map (("label", ·))

/-- The content of an argument element: the text of its value, as it is. -/
def WritesText (text body : List Char) : Prop :=
  ∃ front back, Gap front ∧ Gap back ∧
    body = front ++ (('<' :: ("![CDATA[".toList ++ (text ++ "]]>".toList))) ++ back)

def Writes (a : Argument) (cs : List Char) : Prop :=
  ∃ text, ¬ "]]>".toList <:+: text ∧ a.value = .parse (String.ofList text) ∧
    WritesElement "argument" a.attributes (WritesText text) cs

/-- A directive for arguments. It may be left out when there are none. -/
def WritesDirective (as : List Argument) (cs : List Char) : Prop :=
  as = [] ∧ cs = [] ∨ WritesElement "directive" [] (WritesAll Argument.Writes as) cs

end Argument

namespace Model

def attributes (m : Model) (kind : String) : List (String × String) :=
  [("name", m.declaration.name), ("kind", kind)]

def WritesContent (m : Model) (body : List Char) : Prop :=
  ∃ gap directive members, Gap gap ∧ Argument.WritesDirective m.arguments directive ∧
    WritesAll Member.Writes m.declaration.members members ∧ body = gap ++ (directive ++ members)

/-- A model element, with any tag of its kind. -/
def Writes (m : Model) (cs : List Char) : Prop :=
  ∃ kind, DeclarationKind.parse kind = some m.declaration.kind ∧
    WritesElement "model" (m.attributes kind) m.WritesContent cs

end Model

/-- A document for a schema. -/
def Schema.Writes (s : Schema) (text : String) : Prop :=
  ∃ front body back, Gap front ∧ Gap back ∧
    WritesElement "dtoSchema" [("package", s.package)] (WritesAll Model.Writes s.models) body ∧
      text = String.ofList (front ++ (body ++ back))

/-- A schema that a document can describe: its kinds have tags, its types are not blank, and its
arguments are the values of texts that can stand in a document. -/
structure Schema.Writable (s : Schema) : Prop where
  kinds : ∀ m ∈ s.models, m.declaration.kind ≠ .item
  types : ∀ m ∈ s.models, ∀ name type, .stored name (some type) ∈ m.declaration.members →
    Text.trim type.toList ≠ []
  arguments : ∀ m ∈ s.models, ∀ a ∈ m.arguments, ∃ text, ¬ "]]>".toList <:+: text ∧
    a.value = .parse (String.ofList text)

/-! ## Attributes are read back -/

theorem mapError_unescape (value : String) :
    (unescape (escape value.toList)).mapError ParseError.xml = .ok value.toList := by
  rw [unescape_escape]
  rfl

theorem valuesUntil_cons {stop : String → Bool} {key value : String} {as : List Attribute} :
    valuesUntil stop (⟨key, escape value.toList⟩ :: as) =
      if stop key then .ok [(key, value)]
      else valuesUntil stop as >>= fun vs => .ok ((key, value) :: vs) := by
  rw [valuesUntil, mapError_unescape]
  show (if stop key then (.ok [(key, String.ofList value.toList)] : Except _ _)
    else valuesUntil stop as >>= fun vs => .ok ((key, String.ofList value.toList) :: vs)) = _
  rw [String.ofList_toList]

theorem modelAttributes_name {name : Option String} {kind : DeclarationKind} {value : String}
    {as : List Attribute} : modelAttributes name kind (⟨"name", escape value.toList⟩ :: as) =
      modelAttributes (some value) kind as := by
  simp [modelAttributes, mapError_unescape]

theorem modelAttributes_kind {name : Option String} {kind k : DeclarationKind} {value : String}
    {as : List Attribute} (h : DeclarationKind.parse value = some k) :
    modelAttributes name kind (⟨"kind", escape value.toList⟩ :: as) =
      modelAttributes name k as := by
  simp [modelAttributes, mapError_unescape, h]

section
variable {tag : Tag} {name : String} {kvs : List (String × String)}

theorem values_of_says (h : tag.Says name kvs) :
    ∃ written, List.Perm written kvs ∧ values tag = .ok written := by
  obtain ⟨written, hp, ha⟩ := h.attributes
  refine ⟨written, hp, ?_⟩
  rw [values, ha]
  clear hp ha
  induction written with
  | nil => rfl
  | cons kv kvs ih =>
    rw [List.map_cons, valuesUntil_cons, if_neg Bool.false_ne_true, ih]
    rfl

theorem openSchema_of_says {package : String} (h : tag.Says name [("package", package)]) :
    openSchema tag = .ok ⟨package, []⟩ := by
  obtain ⟨written, hp, hv⟩ := values_of_says h
  cases List.perm_singleton.1 hp
  rw [openSchema, hv]
  simp [lastValue]

theorem openModel_of_says {m : Model} {kind : String}
    (hk : DeclarationKind.parse kind = some m.declaration.kind)
    (h : tag.Says name (m.attributes kind)) :
    openModel tag = .ok ⟨⟨m.declaration.kind, m.declaration.name, []⟩, []⟩ := by
  obtain ⟨written, hp, ha⟩ := h.attributes
  have hm : modelAttributes none .classType tag.attributes =
      .ok (some m.declaration.name, m.declaration.kind) := by
    rw [ha]
    rcases List.perm_pair.1 hp with rfl | rfl
    · rw [List.map_cons, modelAttributes_name, List.map_cons, modelAttributes_kind hk]
      rfl
    · rw [List.map_cons, modelAttributes_kind hk, List.map_cons, modelAttributes_name]
      rfl
  rw [openModel, hm]
  rfl

theorem label_of_says {a : Argument} (h : tag.Says name a.attributes) : label tag = .ok a.label := by
  obtain ⟨written, hp, ha⟩ := h.attributes
  rw [label, ha]
  cases hl : a.label with
  | none =>
    rw [Argument.attributes, hl] at hp
    cases List.perm_nil.1 hp
    rfl
  | some l =>
    rw [Argument.attributes, hl] at hp
    cases List.perm_singleton.1 hp
    rw [List.map_cons, valuesUntil_cons]
    simp [lastValue]

theorem member_of_says {x : Member}
    (ht : ∀ name type, x = .stored name (some type) → Text.trim type.toList ≠ [])
    (h : tag.Says x.element x.attributes) : member tag = .ok (some x) := by
  obtain ⟨written, hp, hv⟩ := values_of_says h
  cases x with
  | stored name type =>
    cases type with
    | none =>
      cases List.perm_singleton.1 hp
      simp [member, hv, h.name, Member.element, lastValue, Member.name]
      rfl
    | some type =>
      have hf : Option.filter (fun t => !(Text.trim t.toList).isEmpty) (some type) = some type :=
        Option.filter_some_pos (by simpa using ht name type rfl)
      rcases List.perm_pair.1 hp with rfl | rfl <;>
        simp [member, hv, h.name, Member.element, lastValue, hf] <;> rfl
  | computed name | method name | nested name =>
    cases List.perm_singleton.1 hp
    simp [member, hv, h.name, Member.element, lastValue, Member.name]
    rfl

end

/-! ## Elements are read back -/

section
variable {cs : List Char} {ns : List Node} {s : Schema}

theorem Member.writable (x : Member) : Xml.Writable x.element x.attributes := by
  cases x with
  | stored name type =>
    cases type with
    | none => exact writable_of_keys "property" ["name"] rfl (by decide)
    | some type => exact writable_of_keys "property" ["name", "type"] rfl (by decide)
  | computed => exact writable_of_keys "computed" ["name"] rfl (by decide)
  | method => exact writable_of_keys "method" ["name"] rfl (by decide)
  | nested => exact writable_of_keys "nested" ["name"] rfl (by decide)

theorem Argument.writable (a : Argument) : Xml.Writable "argument" a.attributes := by
  obtain ⟨label, value⟩ := a
  cases label with
  | none => exact writable_of_keys "argument" [] rfl (by decide)
  | some label => exact writable_of_keys "argument" ["label"] rfl (by decide)

theorem Model.writable (m : Model) (kind : String) : Xml.Writable "model" (m.attributes kind) :=
  writable_of_keys "model" ["name", "kind"] rfl (by decide)

theorem Member.Writes.yields {x : Member}
    (ht : ∀ name type, x = .stored name (some type) → Text.trim type.toList ≠ [])
    (h : x.Writes cs) : ∃ n e, Yields cs [n] ∧ n.element? = some e ∧
      e.tag.name ≠ "directive" ∧ member e.tag = .ok (some x) := by
  have hg : ∀ body, Gap body → ∃ ns, Yields body ns ∧ True := by
    intro body hb
    obtain ⟨k, hk⟩ := hb.yields
    exact ⟨_, hk, trivial⟩
  obtain ⟨n, e, hn, he, hs, -⟩ := WritesElement.yields h x.writable hg
  refine ⟨n, e, hn, he, ?_, member_of_says ht hs⟩
  rw [hs.name]
  cases x <;> simp [element]

/-- Nodes among which there are only member elements contain these members. -/
theorem contains_members {xs : List Member} (h : List.Forall₂
    (fun x e => e.tag.name ≠ "directive" ∧ member e.tag = .ok (some x)) xs (elements ns)) :
    Contains ns xs [] ∧ AreFlat (directedElements ns) := by
  induction ns generalizing xs with
  | nil =>
    cases h
    exact ⟨.nil, List.forall_mem_nil _⟩
  | cons n ns ih =>
    cases he : n.element? with
    | none =>
      have hn : elements (n :: ns) = elements ns := by simp [elements, he]
      rw [hn] at h
      obtain ⟨hc, hf⟩ := ih h
      exact ⟨.other he hc, by rwa [directedElements, hn]⟩
    | some e =>
      have hn : elements (n :: ns) = e :: elements ns := by simp [elements, he]
      rw [hn] at h
      cases h with
      | cons hx h =>
        obtain ⟨hc, hf⟩ := ih h
        refine ⟨?_, ?_⟩
        · cases n with
          | element tag content =>
            cases he
            exact .element hx.1 hx.2 hc
          | empty tag =>
            cases he
            exact .empty hx.2 hc
          | _ => cases he
        · rwa [directedElements, hn, List.filter_cons_of_neg (by simpa using hx.1)]

theorem Argument.WritesText.yields {text : List Char} (ht : ¬ "]]>".toList <:+: text)
    (h : Argument.WritesText text cs) : ∃ ns, Yields cs ns ∧ (∀ n ∈ ns, n.isLeaf) ∧
      ∃ texts, List.Forall₂ (fun n t => nodeText n = .ok t) ns texts ∧ texts.flatten = text := by
  obtain ⟨front, back, hf, hb, rfl⟩ := h
  obtain ⟨j, hj⟩ := hf.yields
  obtain ⟨k, hk⟩ := hb.yields
  have hasides : ∀ i, List.Forall₂ (fun n t => nodeText n = .ok t) (List.replicate i .aside)
      (List.replicate i []) := by
    intro i
    induction i with
    | zero => exact .nil
    | succ i ih => exact .cons rfl ih
  have htext : List.Forall₂ (fun n t => nodeText n = .ok t) [.cdata text] [text] := .cons rfl .nil
  refine ⟨_, hj.append ((Yields.cdata ht).append hk), ?_, _,
    List.rel_append (hasides j) (List.rel_append htext (hasides k)), ?_⟩
  · intro n hn
    simp only [List.mem_append, List.mem_replicate, List.mem_singleton] at hn
    rcases hn with ⟨-, rfl⟩ | rfl | ⟨-, rfl⟩ <;> rfl
  · simp

theorem Argument.Writes.yields {a : Argument} (h : a.Writes cs) :
    ∃ n e, Yields cs [n] ∧ n.element? = some e ∧
      e.tag.name = "argument" ∧ (∀ n ∈ e.content, n.isLeaf) ∧ e.Spells a := by
  obtain ⟨text, ht, hv, h⟩ := h
  obtain ⟨n, e, hn, he, hs, hl, texts, hts, rfl⟩ :=
    WritesElement.yields h a.writable fun body hb => hb.yields ht
  refine ⟨n, e, hn, he, hs.name, hl, a.label, texts, label_of_says hs, hts, ?_⟩
  rw [← hv]

theorem member_of_directive {tag : Tag} (h : tag.Says "directive" []) : member tag = .ok none := by
  obtain ⟨written, hp, hv⟩ := values_of_says h
  cases List.perm_nil.1 hp
  simp [member, hv, h.name]

theorem spells_arguments {as : List Argument} (h : List.Forall₂
    (fun a e => e.tag.name = "argument" ∧ (∀ n ∈ e.content, n.isLeaf) ∧ e.Spells a)
      as (elements ns)) :
    List.Forall₂ Element.Spells (argumentElements ns) as ∧ AreFlat (argumentElements ns) := by
  unfold argumentElements
  generalize elements ns = es at h
  induction h with
  | nil => exact ⟨.nil, List.forall_mem_nil _⟩
  | cons ha _ ih =>
    rw [List.filter_cons_of_pos (by simpa using ha.1)]
    exact ⟨.cons ha.2.2 ih.1, List.forall_mem_cons.2 ⟨ha.2.1, ih.2⟩⟩

/-- The nodes of a directive put its arguments in front of other content. -/
theorem Argument.WritesDirective.yields {as : List Argument} (h : WritesDirective as cs) :
    ∃ ds, Yields cs ds ∧ ∀ ns xs, Contains ns xs [] → AreFlat (directedElements ns) →
      Contains (ds ++ ns) xs as ∧ AreFlat (directedElements (ds ++ ns)) := by
  rcases h with ⟨rfl, rfl⟩ | h
  · exact ⟨[], .nil, fun ns xs hc hf => ⟨hc, hf⟩⟩
  · obtain ⟨n, e, hn, he, hs, ha⟩ := WritesElement.yields h (writable_of_keys _ [] rfl (by decide))
      fun body hb => hb.yields fun a _ cs h => h.yields
    refine ⟨[n], hn, fun ns xs hc hf => ?_⟩
    rw [List.singleton_append, directedElements_cons, areFlat_append]
    cases n with
    | element tag content =>
      cases he
      obtain ⟨has, hflat⟩ := spells_arguments ha
      rw [directedElements_directive hs.name]
      have h := Contains.directive hs.name has hc
      rw [List.append_nil] at h
      exact ⟨h, hflat, hf⟩
    | empty tag =>
      cases he
      cases ha
      have hd : directedElements [.empty tag] = [] := by
        simp [directedElements, elements, Node.element?, argumentElements]
      rw [hd]
      exact ⟨.empty (member_of_directive hs) hc, List.forall_mem_nil _, hf⟩
    | _ => cases he

theorem contains_asides {xs : List Member} {as : List Argument} (h : Contains ns xs as) (k : Nat) :
    Contains (List.replicate k .aside ++ ns) xs as := by
  induction k with
  | zero => exact h
  | succ k ih => exact .other rfl ih

theorem directedElements_asides (k : Nat) :
    directedElements (List.replicate k .aside ++ ns) = directedElements ns := by
  rw [directedElements, elements_append, elements_replicate_aside, List.nil_append]
  rfl

theorem Model.WritesContent.yields {m : Model}
    (ht : ∀ name type, .stored name (some type) ∈ m.declaration.members →
      Text.trim type.toList ≠ []) (h : m.WritesContent cs) :
    ∃ ns, Yields cs ns ∧ AreFlat (directedElements ns) ∧
      Contains ns m.declaration.members m.arguments := by
  obtain ⟨gap, directive, members, hg, hd, hm, rfl⟩ := h
  obtain ⟨k, hk⟩ := hg.yields
  obtain ⟨ds, hds, hdir⟩ := hd.yields
  obtain ⟨ns, hns, hx⟩ := hm.yields fun x hx cs h =>
    h.yields fun name type he => ht name type (he ▸ hx)
  obtain ⟨hc, hf⟩ := contains_members hx
  obtain ⟨hc, hf⟩ := hdir ns _ hc hf
  exact ⟨_, hk.append (hds.append hns), by rwa [directedElements_asides], contains_asides hc k⟩

theorem Model.Writes.yields {m : Model}
    (ht : ∀ name type, .stored name (some type) ∈ m.declaration.members →
      Text.trim type.toList ≠ []) (h : m.Writes cs) :
    ∃ n e, Yields cs [n] ∧ n.element? = some e ∧
      e.tag.name = "model" ∧ AreFlat (directedElements e.content) ∧ e.Describes m := by
  obtain ⟨kind, hk, h⟩ := h
  obtain ⟨n, e, hn, he, hs, hf, hc⟩ :=
    WritesElement.yields h (m.writable kind) fun body hb => hb.yields ht
  exact ⟨n, e, hn, he, hs.name, hf, _, _, _, openModel_of_says hk hs, hc, rfl⟩

theorem read_asides {r : Reading} (k : Nat) : r.read (List.replicate k .aside) = .ok r := by
  induction k with
  | zero => rfl
  | succ k ih => exact read_cons_eq_ok.2 ⟨r, rfl, ih⟩

/-- Outside of models, nodes are read as the models that their elements describe. -/
theorem read_models {ms : List Model} (h : List.Forall₂ (fun m e =>
    e.tag.name = "model" ∧ AreFlat (directedElements e.content) ∧ e.Describes m) ms (elements ns)) :
    read ⟨some s, .outside⟩ ns = .ok ⟨some (s.add ms), .outside⟩ := by
  induction ns generalizing s ms with
  | nil =>
    cases h
    rw [Schema.add_nil]
    rfl
  | cons n ns ih =>
    rw [read_cons_eq_ok]
    cases n with
    | element tag content =>
      cases h with
      | cons hm h =>
        obtain ⟨ht, hf, hd⟩ := hm
        exact ⟨_, (readNode_flat ht hf).2 ⟨_, hd, rfl⟩, (ih h).trans (by rw [Schema.add_add]; rfl)⟩
    | empty tag =>
      cases h with
      | cons hm h =>
        obtain ⟨ht, -, m₀, xs, as, hm, hc, rfl⟩ := hm
        cases hc
        refine ⟨⟨some (s.add [m₀.append [] []]), .outside⟩, ?_,
          (ih h).trans (by rw [Schema.add_add]; rfl)⟩
        rw [readNode_of_events rfl, step_empty_model ht, hm, Model.append_nil]
        rfl
    | _ => exact ⟨_, rfl, ih h⟩

/-! ## Documents are read back -/

theorem readNode_schema {n : Node} {e : Element} (he : n.element? = some e)
    (hs : e.tag.Says "dtoSchema" [("package", s.package)])
    (hm : List.Forall₂ (fun m e => e.tag.name = "model" ∧ AreFlat (directedElements e.content) ∧
      e.Describes m) s.models (elements e.content)) :
    readNode ⟨none, .outside⟩ n = .ok ⟨some s, .outside⟩ := by
  have hopen : ∀ e', e' = .start e.tag ∨ e' = .empty e.tag →
      step ⟨none, .outside⟩ e' = .ok ⟨some ⟨s.package, []⟩, .outside⟩ := by
    intro e' he'
    rw [step_schema he' hs.name, openSchema_of_says hs]
    rfl
  cases n with
  | element tag content =>
    cases he
    exact readNode_element_eq_ok.2 ⟨_, hopen _ (.inl rfl), _, read_models hm, rfl⟩
  | empty tag =>
    cases he
    obtain ⟨package, models⟩ := s
    cases hm
    exact (readNode_of_events rfl).trans (hopen _ (.inr rfl))
  | _ => cases he

end

/-! ## Every schema that can be described has documents -/

theorem exists_writesContent {m : Model} (h : ∀ a ∈ m.arguments, ∃ text,
    ¬ "]]>".toList <:+: text ∧ a.value = .parse (String.ofList text)) : ∃ cs, m.WritesContent cs := by
  have hargument : ∀ a ∈ m.arguments, ∃ cs, a.Writes cs := by
    intro a ha
    obtain ⟨text, ht, hv⟩ := h a ha
    obtain ⟨cs, hcs⟩ := exists_writesElement "argument" a.attributes (Argument.WritesText text)
      ⟨[], [], .nil, .nil, rfl⟩
    exact ⟨cs, text, ht, hv, hcs⟩
  have hmember : ∀ x ∈ m.declaration.members, ∃ cs, x.Writes cs :=
    fun x _ => exists_writesElement x.element x.attributes Gap .nil
  obtain ⟨arguments, ha⟩ := exists_writesAll Argument.Writes hargument
  obtain ⟨directive, hd⟩ := exists_writesElement "directive" [] _ ha
  obtain ⟨members, hm⟩ := exists_writesAll Member.Writes hmember
  exact ⟨_, [], directive, members, .nil, .inr hd, hm, rfl⟩

theorem exists_writes {s : Schema} (h : s.Writable) : ∃ text, s.Writes text := by
  have hmodel : ∀ m ∈ s.models, ∃ cs, m.Writes cs := by
    intro m hm
    obtain ⟨content, hc⟩ := exists_writesContent (h.arguments m hm)
    obtain ⟨cs, hcs⟩ := exists_writesElement "model" (m.attributes m.declaration.kind.tag) _ hc
    exact ⟨cs, _, DeclarationKind.parse_tag (h.kinds m hm), hcs⟩
  obtain ⟨models, hm⟩ := exists_writesAll Model.Writes hmodel
  obtain ⟨body, hb⟩ := exists_writesElement "dtoSchema" [("package", s.package)] _ hm
  exact ⟨_, [], body, [], .nil, .nil, hb, rfl⟩

/-- Every schema that a document can describe has documents, and each of them is read as that
schema. -/
theorem readSchema_writes {s : Schema} (h : s.Writable) :
    (∃ text, s.Writes text) ∧ ∀ text, s.Writes text → (readSchema text).result = .ok s := by
  refine ⟨exists_writes h, ?_⟩
  rintro _ ⟨front, body, back, hf, hb, hbody, rfl⟩
  obtain ⟨j, hj⟩ := hf.yields
  obtain ⟨k, hk⟩ := hb.yields
  obtain ⟨n, e, hn, he, hs, hm⟩ :=
    WritesElement.yields hbody (writable_of_keys _ ["package"] rfl (by decide)) fun cs hcs =>
      hcs.yields fun m hm cs hw => hw.yields fun name type ht => h.types m hm name type ht
  have hread : read ⟨none, .outside⟩ (List.replicate j .aside ++ ([n] ++ List.replicate k .aside)) =
      .ok ⟨some s, .outside⟩ := by
    rw [read_append, read_asides, ok_bind, List.singleton_append, read_cons,
      readNode_schema he hs hm, ok_bind, read_asides]
  rw [result_readSchema, (hj.append (hn.append hk)).ofText (head_ne_mark hf hbody),
    readDocument_ofNodes]
  exact ⟨_, hread, rfl⟩

/-- Orders of a shop, with lines. -/
def shopSchema : Schema :=
  ⟨"shop", [⟨⟨.struct, "Line", [.stored "count" (some "i32")]⟩, []⟩,
    ⟨⟨.classType, "Order", [.stored "lines" (some "[Line]"), .stored "note" none, .method "total"]⟩,
      [⟨some "nestedDTOs", .list [.text "Line"]⟩]⟩]⟩

theorem readSchema_writes_of_shop : shopSchema.Writable ∧ (∃ text, shopSchema.Writes text) ∧
    ∀ text, shopSchema.Writes text → (readSchema text).result = .ok shopSchema := by
  have hv : ArgumentValue.list [.text "Line"] = .parse (String.ofList "[\"Line\"]".toList) := by
    decide +kernel
  have h : shopSchema.Writable := by
    refine ⟨by decide, ?_, ?_⟩
    · intro m hm name type hx
      simp only [shopSchema, List.mem_cons, List.not_mem_nil, or_false] at hm
      rcases hm with rfl | rfl
      · simp only [List.mem_singleton, Member.stored.injEq, Option.some.injEq] at hx
        rw [hx.2]
        decide
      · simp at hx
        rw [hx.2]
        decide
    · intro m hm a ha
      simp only [shopSchema, List.mem_cons, List.not_mem_nil, or_false] at hm
      rcases hm with rfl | rfl
      · cases ha
      · cases List.mem_singleton.1 ha
        exact ⟨"[\"Line\"]".toList, by decide, hv⟩
  exact ⟨h, readSchema_writes h⟩

end Courier
