import Courier.Proofs.Model.Depth

/-!
The models of a document. A model whose arguments are flat is what its element describes; any other
ends inside the first directive with an argument that is not flat.
-/
namespace Courier
open Xml Reading

/-! ## Model elements -/

mutual
/-- The outermost model elements in a node, from the first schema element on, and whether that was
found. -/
def modelsInNode (found : Bool) : Node → Bool × List Element
  | .element tag content =>
    if found && tag.name == "model" then (true, [⟨tag, content⟩])
    else modelsIn (found || tag.name == "dtoSchema") content
  | .empty tag =>
    if found && tag.name == "model" then (true, [⟨tag, []⟩])
    else (found || tag.name == "dtoSchema", [])
  | _ => (found, [])

def modelsIn (found : Bool) : List Node → Bool × List Element
  | [] => (found, [])
  | n :: ns =>
    let p := modelsInNode found n
    let q := modelsIn p.1 ns
    (q.1, p.2 ++ q.2)
end

def modelElements (ns : List Node) : List Element := (modelsIn false ns).2

/-- Models that are read of an element whose model is cut short: it ends in one of its directives,
and what stands behind that directive is read as though it stood outside of any model. -/
def CutShort (e : Element) (ms : List Model) : Prop :=
  ∃ before directive after m inner outer, e.content = before ++ directive :: after ∧
    AreFlat (directedElements before) ∧ ¬ AreFlat (directedElements [directive]) ∧
    (∃ m₀ xs as, Element.Matches ⟨e.tag, before⟩ m₀ ∧ m = m₀.append xs as) ∧
    Leads .outside (.start e.tag :: eventsOf (before ++ [directive])) (m :: inner) .outside ∧
    Leads .outside (eventsOf after ++ [.close]) outer .outside ∧ ms = m :: inner ++ outer

/-- The models that are read of a model element. -/
def ReadAs (e : Element) (ms : List Model) : Prop :=
  (AreFlat (directedElements e.content) → ∃ m, ms = [m] ∧ e.Matches m) ∧
    (¬ AreFlat (directedElements e.content) → CutShort e ms)

namespace Reading

variable {r : Reading} {s : Schema} {tag : Tag} {content ns : List Node}

theorem readNode_flat (ht : tag.name = "model") (hf : AreFlat (directedElements content)) :
    readNode ⟨some s, .outside⟩ (.element tag content) = .ok r ↔
      ∃ m, Element.Describes ⟨tag, content⟩ m ∧ r = ⟨some (s.add [m]), .outside⟩ := by
  simp only [readNode_element_eq_ok, step_start_model ht, bind_eq_ok]
  constructor
  · rintro ⟨_, ⟨m₀, hm, h₁⟩, r₂, h₂, h₃⟩
    cases h₁
    obtain ⟨xs, as, hc, rfl⟩ := (read_model hf).1 h₂
    cases h₃
    exact ⟨_, ⟨m₀, xs, as, hm, hc, rfl⟩, rfl⟩
  · rintro ⟨m, ⟨m₀, xs, as, hm, hc, rfl⟩, rfl⟩
    exact ⟨_, ⟨m₀, hm, rfl⟩, _, (read_model hf).2 ⟨xs, as, hc, rfl⟩, rfl⟩

/-- Content outside of any model leaves the reader there. -/
theorem read_outside (h : read ⟨some s, .outside⟩ ns = .ok r) :
    ∃ ms, r = ⟨some (s.add ms), .outside⟩ ∧ Leads .outside (eventsOf ns) ms .outside := by
  obtain ⟨ms, p, rfl, hl, -⟩ := run_found h
  obtain ⟨_, _, he, hp⟩ := read_below ⟨s, .outside, rfl, Nat.le_refl _⟩ ns h
  cases he
  cases Place.eq_outside (Nat.le_zero.1 hp)
  exact ⟨ms, rfl, hl⟩

theorem readNode_cutShort (ht : tag.name = "model") (hf : ¬ AreFlat (directedElements content))
    (h : readNode ⟨some s, .outside⟩ (.element tag content) = .ok r) :
    ∃ ms, CutShort ⟨tag, content⟩ ms ∧ r = ⟨some (s.add ms), .outside⟩ := by
  obtain ⟨before, directive, after, rfl, hb, hd⟩ := exists_not_flat hf
  obtain ⟨_, h₁, r₂, h₂, h₃⟩ := readNode_element_eq_ok.1 h
  obtain ⟨m₀, hm, h₁⟩ := bind_eq_ok.1 ((step_start_model ht).symm.trans h₁)
  cases h₁
  rw [read_append] at h₂
  obtain ⟨_, h₁, h₂⟩ := bind_eq_ok.1 h₂
  obtain ⟨xs, as, hc, rfl⟩ := (read_model hb).1 h₁
  obtain ⟨r₃, hdir, h₂⟩ := read_cons_eq_ok.1 h₂
  -- The directive takes the reader out of the model, which is added to the schema there.
  obtain ⟨ms, p, rfl, hl, hk⟩ := run_found hdir
  obtain ⟨_, _, he, hp⟩ := readNode_model_below hd hdir
  cases he
  cases Place.eq_outside (Nat.le_zero.1 hp)
  obtain ⟨ys, bs, hh⟩ := hk _ rfl
  rw [Place.model?, Option.or_none] at hh
  obtain ⟨inner, rfl⟩ := List.head?_eq_some_iff.1 hh
  obtain ⟨outer, rfl, hout⟩ := read_outside h₂
  cases h₃
  have hstart : Leads .outside [.start tag] [] (.model m₀) :=
    leads_of_run fun s => by
      rw [List.foldlM_cons, step_start_model ht, hm]
      rfl
  have hbefore : Leads (.model m₀) (eventsOf before) [] (.model (m₀.append xs as)) :=
    leads_of_run fun s => (read_model hb).2 ⟨xs, as, hc, rfl⟩
  have hclose : Leads .outside [.close] [] .outside := leads_of_run fun s => rfl
  refine ⟨_, ⟨before, directive, after, _, inner, outer, rfl, hb, hd,
    ⟨_, ys, bs, Element.Describes.matches ⟨m₀, xs, as, hm, hc, rfl⟩, rfl⟩, ?_, ?_, rfl⟩,
    by rw [Schema.add_add]⟩
  · rw [eventsOf_append, eventsOf, eventsOf, List.append_nil]
    exact hstart.trans (hbefore.trans hl)
  · have h := hout.trans hclose
    rwa [List.append_nil] at h

theorem readNode_modelElement (ht : tag.name = "model")
    (h : readNode ⟨some s, .outside⟩ (.element tag content) = .ok r) :
    ∃ ms, ReadAs ⟨tag, content⟩ ms ∧ r = ⟨some (s.add ms), .outside⟩ := by
  by_cases hf : AreFlat (directedElements content)
  · obtain ⟨m, hm, rfl⟩ := (readNode_flat ht hf).1 h
    exact ⟨[m], ⟨fun _ => ⟨m, rfl, hm.matches⟩, fun hn => absurd hf hn⟩, rfl⟩
  · obtain ⟨ms, hc, rfl⟩ := readNode_cutShort ht hf h
    exact ⟨ms, ⟨fun hn => absurd hn hf, fun _ => hc⟩, rfl⟩

/-! ## Documents -/

def models (r : Reading) : List Model := (r.schema.map Schema.models).getD []

/-- The reading behind nodes outside of models, among which the given model elements are. -/
structure Adds (r : Reading) (p : Bool × List Element) (r' : Reading) : Prop where
  place : r'.place = .outside
  found : r'.schema.isSome = p.1
  models : ∃ mss, List.Forall₂ ReadAs p.2 mss ∧ r'.models = r.models ++ mss.flatten

theorem adds_nothing (hp : r.place = .outside) : Adds r (r.schema.isSome, []) r :=
  ⟨hp, rfl, [], .nil, by simp⟩

theorem models_openSchema {s : Schema} (h : openSchema tag = .ok s) : s.models = [] := by
  obtain ⟨vs, -, h⟩ := bind_eq_ok.1 h
  cases h
  rfl

theorem step_schema {e : Xml.Event} (he : e = .start tag ∨ e = .empty tag)
    (ht : tag.name = "dtoSchema") :
    step ⟨none, .outside⟩ e = openSchema tag >>= fun s => .ok ⟨some s, .outside⟩ := by
  rcases he with rfl | rfl <;> simp only [step, ht] <;> rfl

/-- A tag that opens no model: at most it opens the schema. -/
theorem step_tag {e : Xml.Event} (he : e = .start tag ∨ e = .empty tag) {r' : Reading}
    (hp : r.place = .outside) (hm : (r.schema.isSome && tag.name == "model") = false)
    (h : step r e = .ok r') : Adds r (r.schema.isSome || tag.name == "dtoSchema", []) r' := by
  obtain ⟨s, p⟩ := r
  cases hp
  cases s with
  | some s =>
    have ht : tag.name ≠ "model" := by simpa using hm
    have h' : step ⟨some s, .outside⟩ e = .ok ⟨some s, .outside⟩ := by
      rcases he with rfl | rfl
      · exact step_start_outside ht
      · exact step_empty_outside ht
    cases h'.symm.trans h
    exact adds_nothing rfl
  | none =>
    by_cases ht : tag.name = "dtoSchema"
    · obtain ⟨s, hs, h⟩ := bind_eq_ok.1 ((step_schema he ht).symm.trans h)
      cases h
      exact ⟨rfl, by simp [ht], [], .nil, by simp [models, models_openSchema hs]⟩
    · have h' : step ⟨none, .outside⟩ e = .ok ⟨none, .outside⟩ := by
        rcases he with rfl | rfl <;> simp [step, ht] <;> rfl
      cases h'.symm.trans h
      exact ⟨rfl, by simp [ht], [], .nil, by simp⟩

theorem Adds.trans {r₁ r₂ r₃ : Reading} {p q : Bool × List Element} (h : Adds r₁ p r₂)
    (h' : Adds r₂ q r₃) : Adds r₁ (q.1, p.2 ++ q.2) r₃ := by
  obtain ⟨ms, hm, e⟩ := h.models
  obtain ⟨ns, hn, e'⟩ := h'.models
  exact ⟨h'.place, h'.found, ms ++ ns, List.rel_append hm hn, by simp [e, e']⟩

theorem adds_element {r' : Reading} (hp : r.place = .outside)
    (hm : (r.schema.isSome && tag.name == "model") = true)
    (h : readNode r (.element tag content) = .ok r') : Adds r (true, [⟨tag, content⟩]) r' := by
  obtain ⟨s, p⟩ := r
  cases hp
  obtain ⟨hs, ht⟩ := Bool.and_eq_true_iff.1 hm
  obtain ⟨s, rfl⟩ := Option.isSome_iff_exists.1 hs
  obtain ⟨ms, hr, rfl⟩ := readNode_modelElement (beq_iff_eq.1 ht) h
  exact ⟨rfl, rfl, [ms], .cons hr .nil, by simp [models, Schema.add]⟩

theorem adds_empty {r' : Reading} (hp : r.place = .outside)
    (hm : (r.schema.isSome && tag.name == "model") = true)
    (h : step r (.empty tag) = .ok r') : Adds r (true, [⟨tag, []⟩]) r' := by
  obtain ⟨s, p⟩ := r
  cases hp
  obtain ⟨hs, ht⟩ := Bool.and_eq_true_iff.1 hm
  obtain ⟨s, rfl⟩ := Option.isSome_iff_exists.1 hs
  obtain ⟨m, hm', h⟩ := bind_eq_ok.1 ((step_empty_model (beq_iff_eq.1 ht)).symm.trans h)
  cases h
  refine ⟨rfl, rfl, [[m]], .cons ⟨fun _ => ⟨m, rfl, Element.Describes.matches ?_⟩, ?_⟩ .nil,
    by simp [models, Schema.add]⟩
  · exact ⟨m, [], [], hm', .nil, by rw [Model.append_nil]⟩
  · exact fun hn => absurd (List.forall_mem_nil _) hn

mutual
theorem readNode_adds {r r' : Reading} (hp : r.place = .outside) :
    (n : Node) → readNode r n = .ok r' → Adds r (modelsInNode r.schema.isSome n) r'
  | .element tag content, h => by
    cases hm : r.schema.isSome && tag.name == "model" with
    | true =>
      rw [modelsInNode, if_pos hm]
      exact adds_element hp hm h
    | false =>
      obtain ⟨r₁, h₁, r₂, h₂, h₃⟩ := readNode_element_eq_ok.1 h
      have ht := step_tag (.inl rfl) hp hm h₁
      have hc := read_adds ht.place content h₂
      rw [ht.found] at hc
      have he : r' = r₂ := by
        obtain ⟨s, p⟩ := r₂
        cases hc.place
        exact (Except.ok.inj h₃).symm
      rw [modelsInNode, if_neg (by simp [hm]), he]
      exact ht.trans hc
  | .empty tag, h => by
    rw [readNode_of_events rfl] at h
    cases hm : r.schema.isSome && tag.name == "model" with
    | true =>
      rw [modelsInNode, if_pos hm]
      exact adds_empty hp hm h
    | false =>
      rw [modelsInNode, if_neg (by simp [hm])]
      exact step_tag (.inr rfl) hp hm h
  | .text _, h | .cdata _, h | .reference _, h | .aside, h => by
    obtain ⟨s, p⟩ := r
    cases hp
    cases h
    exact adds_nothing rfl

theorem read_adds {r r' : Reading} (hp : r.place = .outside) :
    (ns : List Node) → read r ns = .ok r' → Adds r (modelsIn r.schema.isSome ns) r'
  | [], h => by
    cases h
    exact adds_nothing hp
  | n :: ns, h => by
    obtain ⟨r₁, h₁, h⟩ := read_cons_eq_ok.1 h
    have hn := readNode_adds hp n h₁
    have hns := read_adds hn.place ns h
    rw [hn.found] at hns
    rw [modelsIn]
    exact hn.trans hns
end

theorem schema_of_finish (h : r.finish = .ok s) : r = ⟨some s, .outside⟩ := by
  obtain ⟨schema, p⟩ := r
  cases p with
  | outside =>
    cases schema with
    | none => cases h
    | some s =>
      cases h
      rfl
  | _ => cases h

end Reading

theorem result_readSchema {text : String} :
    (readSchema text).result = readDocument (.ofText text) := by
  simp only [readSchema, Traced.result_bind, Traced.result_log, Traced.result_ofExcept,
    Traced.result_pure]
  cases readDocument (.ofText text) <;> rfl

theorem readDocument_ofNodes {ns : List Node} {s : Schema} :
    readDocument (.ofNodes ns) = .ok s ↔
      ∃ r, Reading.read ⟨none, .outside⟩ ns = .ok r ∧ r.finish = .ok s := bind_eq_ok

/-- Behind content the reader is in the element that it was in, so that the end that comes next is
taken for what it is, exactly when the arguments in the content are flat. What it skips it always
skips as a whole. -/
structure LeavesAtEnd (s : Schema) (m : Model) (ns : List Node) : Prop where
  skipped : ∀ d, read ⟨some s, .skipped m d⟩ ns = .ok ⟨some s, .skipped m d⟩
  skippedArgument : ∀ d, read ⟨some s, .skippedArgument m d⟩ ns = .ok ⟨some s, .skippedArgument m d⟩
  argument : ∀ l text r, read ⟨some s, .argument m l text⟩ ns = .ok r →
    ((∃ text', r = ⟨some s, .argument m l text'⟩) ↔ ∀ n ∈ ns, n.isLeaf)
  directive : ∀ r, read ⟨some s, .directive m⟩ ns = .ok r →
    ((∃ m', r = ⟨some s, .directive m'⟩) ↔ AreFlat (argumentElements ns))
  model : ∀ r, read ⟨some s, .model m⟩ ns = .ok r →
    ((∃ m', r = ⟨some s, .model m'⟩) ↔ AreFlat (directedElements ns))

theorem not_below {s : Option Schema} {p : Place} {h : Nat} (hp : h < p.height) :
    ¬ Below h ⟨s, p⟩ := by
  rintro ⟨s', p', he, hb⟩
  cases he
  exact absurd hb (Nat.not_le.2 hp)

theorem leavesAtEnd (s : Schema) (m : Model) (ns : List Node) : LeavesAtEnd s m ns where
  skipped d := read_skip skips_skipped _ d ns
  skippedArgument d := read_skip skips_skippedArgument _ d ns
  argument l text r hr := by
    constructor
    · rintro ⟨text', rfl⟩
      by_contra hn
      exact not_below (Nat.lt_succ_self 2) (argument_below hn hr)
    · intro hn
      obtain ⟨texts, -, rfl⟩ := (read_argument hn).1 hr
      exact ⟨_, rfl⟩
  directive r hr := by
    constructor
    · rintro ⟨m', rfl⟩
      by_contra hn
      exact not_below (Nat.lt_succ_self 1) (directive_below hn hr)
    · intro hn
      obtain ⟨as, -, rfl⟩ := (read_directive hn).1 hr
      exact ⟨_, rfl⟩
  model r hr := by
    constructor
    · rintro ⟨m', rfl⟩
      by_contra hn
      exact not_below (Nat.lt_succ_self 0) (model_below hn hr)
    · intro hn
      obtain ⟨xs, as, -, rfl⟩ := (read_model hn).1 hr
      exact ⟨_, rfl⟩

/-- The models of a well-formed document are read of its model elements in turn. One with flat
arguments is read as what it is, any other is cut short. -/
theorem readSchema_elements {text : String} {s : Schema}
    (hw : (Document.ofText text).WellFormed) (hs : (readSchema text).result = .ok s) :
    (∃ ns, Document.ofText text = .ofNodes ns ∧
      ∃ mss, List.Forall₂ ReadAs (modelElements ns) mss ∧ s.models = mss.flatten) ∧
    ∀ s m ns, LeavesAtEnd s m ns := by
  refine ⟨?_, leavesAtEnd⟩
  obtain ⟨ns, hn⟩ := hw.exists_nodes
  rw [result_readSchema, hn, readDocument_ofNodes] at hs
  obtain ⟨r, hr, hf⟩ := hs
  have ha := read_adds rfl ns hr
  obtain ⟨mss, hm, hr⟩ := ha.models
  refine ⟨ns, hn, mss, hm, ?_⟩
  obtain ⟨schema, p⟩ := r
  cases ha.place
  cases schema with
  | none => cases hf
  | some s' =>
    cases hf
    exact hr

/-- A schema in which an argument contains an element, with a member behind it. -/
def interruptedDocument : String :=
  "<dtoSchema package=\"p\"><model name=\"A\"><directive>" ++
    "<argument label=\"nestedDTOs\">[\"B\"]<b></b></argument></directive>" ++
    "<property name=\"x\" type=\"B\"/></model></dtoSchema>"

/-- The member behind the directive is lost. -/
theorem readSchema_elements_of_interrupted :
    ((readSchema interruptedDocument).result =
      .ok ⟨"p", [⟨⟨.classType, "A", []⟩, [⟨some "nestedDTOs", .list [.text "B"]⟩]⟩]⟩) ∧
    (∃ ns, Document.ofText interruptedDocument = .ofNodes ns ∧
      ∃ mss, List.Forall₂ ReadAs (modelElements ns) mss ∧
        [⟨⟨.classType, "A", []⟩, [⟨some "nestedDTOs", .list [.text "B"]⟩]⟩] = mss.flatten) ∧
    ∀ s m ns, LeavesAtEnd s m ns := by
  have hs : (readSchema interruptedDocument).result =
      .ok ⟨"p", [⟨⟨.classType, "A", []⟩, [⟨some "nestedDTOs", .list [.text "B"]⟩]⟩]⟩ := by
    decide +kernel
  exact ⟨hs, readSchema_elements (by decide +kernel) hs⟩

end Courier
