import Courier.Proofs.Model.Elements

/-!
Where models are read from. The reader finds the first schema element and takes every outermost model
from there on: the children of that element, but also models in other elements and behind it.
-/
namespace Courier
open Xml Reading

/-! ## The schema element -/

mutual
/-- The first schema element in a node, with the nodes that stand behind it there. -/
def schemaInNode : Node → Option (Element × List Node)
  | .element tag content =>
    if tag.name = "dtoSchema" then some (⟨tag, content⟩, []) else schemaIn content
  | .empty tag => if tag.name = "dtoSchema" then some (⟨tag, []⟩, []) else none
  | _ => none

def schemaIn : List Node → Option (Element × List Node)
  | [] => none
  | n :: ns =>
    match schemaInNode n with
    | some (e, behind) => some (e, behind ++ ns)
    | none => schemaIn ns
end

/-- The model elements in a content that are in no other model element. -/
def outermostModels (ns : List Node) : List Element := (modelsIn true ns).2

/-- The model elements among the children of an element. -/
def childModels (ns : List Node) : List Element :=
  (elements ns).filter (·.tag.name == "model")

/-- Is the node a model element? -/
def Xml.Node.isModel (n : Node) : Bool := n.element?.any (·.tag.name == "model")

/-- The outermost model elements in those children of an element that are no models. -/
def strayModels (ns : List Node) : List Element := outermostModels (ns.filter (!·.isModel))

mutual
theorem modelsInNode_found : (n : Node) → (modelsInNode true n).1 = true
  | .element tag content => by
    rw [modelsInNode, Bool.true_and, Bool.true_or]
    split
    · rfl
    · exact modelsIn_found content
  | .empty tag => by
    rw [modelsInNode, Bool.true_and, Bool.true_or]
    split <;> rfl
  | .text _ | .cdata _ | .reference _ | .aside => rfl

theorem modelsIn_found : (ns : List Node) → (modelsIn true ns).1 = true
  | [] => rfl
  | n :: ns => by
    rw [modelsIn, modelsInNode_found n]
    exact modelsIn_found ns
end

theorem outermostModels_cons (n : Node) (ns : List Node) :
    outermostModels (n :: ns) = (modelsInNode true n).2 ++ outermostModels ns := by
  rw [outermostModels, modelsIn, modelsInNode_found]
  rfl

theorem outermostModels_append (ns ms : List Node) :
    outermostModels (ns ++ ms) = outermostModels ns ++ outermostModels ms := by
  induction ns with
  | nil => rfl
  | cons n ns ih => rw [List.cons_append, outermostModels_cons, ih, outermostModels_cons,
      List.append_assoc]

mutual
theorem modelsInNode_schema : (n : Node) → modelsInNode false n =
    match schemaInNode n with
    | some (e, behind) => (true, outermostModels e.content ++ outermostModels behind)
    | none => (false, [])
  | .element tag content => by
    rw [modelsInNode, schemaInNode, Bool.false_and, if_neg Bool.false_ne_true, Bool.false_or]
    by_cases ht : tag.name = "dtoSchema"
    · rw [if_pos ht, beq_iff_eq.2 ht]
      exact Prod.ext (modelsIn_found content) (List.append_nil _).symm
    · rw [if_neg ht, beq_eq_false_iff_ne.2 ht]
      exact modelsIn_schema content
  | .empty tag => by
    rw [modelsInNode, schemaInNode, Bool.false_and, if_neg Bool.false_ne_true, Bool.false_or]
    by_cases ht : tag.name = "dtoSchema"
    · rw [if_pos ht, beq_iff_eq.2 ht]
      rfl
    · rw [if_neg ht, beq_eq_false_iff_ne.2 ht]
  | .text _ | .cdata _ | .reference _ | .aside => rfl

/-- The models are those in the schema element, and those behind it. -/
theorem modelsIn_schema : (ns : List Node) → modelsIn false ns =
    match schemaIn ns with
    | some (e, behind) => (true, outermostModels e.content ++ outermostModels behind)
    | none => (false, [])
  | [] => rfl
  | n :: ns => by
    rw [modelsIn, schemaIn, modelsInNode_schema n]
    cases schemaInNode n with
    | none => exact modelsIn_schema ns
    | some p =>
      obtain ⟨e, behind⟩ := p
      refine Prod.ext (modelsIn_found ns) ?_
      show _ = outermostModels e.content ++ outermostModels (behind ++ ns)
      rw [outermostModels_append, ← List.append_assoc]
      rfl
end

/-! ## Children -/

theorem outermostModels_model {n : Node} (h : n.isModel = true) (ns : List Node) :
    ∃ e, outermostModels (n :: ns) = e :: outermostModels ns ∧
      childModels (n :: ns) = e :: childModels ns := by
  obtain ⟨e, he, ht⟩ := (Option.any_eq_true ..).1 h
  refine ⟨e, ?_, by simp [childModels, elements, he, ht]⟩
  rw [outermostModels_cons]
  cases n with
  | element tag content =>
    cases he
    rw [modelsInNode, if_pos (by simpa using ht)]
    rfl
  | empty tag =>
    cases he
    rw [modelsInNode, if_pos (by simpa using ht)]
    rfl
  | _ => cases he

theorem childModels_other {n : Node} (h : n.isModel = false) (ns : List Node) :
    childModels (n :: ns) = childModels ns := by
  cases he : n.element? with
  | none => simp [childModels, elements, he]
  | some e =>
    have ht : (e.tag.name == "model") = false := by simpa [Node.isModel, he] using h
    simp [childModels, elements, he, ht]

theorem childModels_sublist (ns : List Node) : (childModels ns).Sublist (outermostModels ns) := by
  induction ns with
  | nil => exact List.Sublist.refl _
  | cons n ns ih =>
    cases h : n.isModel with
    | true =>
      obtain ⟨e, ho, hc⟩ := outermostModels_model h ns
      rw [ho, hc]
      exact ih.cons_cons e
    | false =>
      rw [childModels_other h, outermostModels_cons]
      exact ih.trans (List.sublist_append_right ..)

/-- An outermost model is a child or a stray. -/
theorem length_outermostModels (ns : List Node) :
    (outermostModels ns).length = (childModels ns).length + (strayModels ns).length := by
  induction ns with
  | nil => rfl
  | cons n ns ih =>
    cases h : n.isModel with
    | true =>
      obtain ⟨e, ho, hc⟩ := outermostModels_model h ns
      rw [ho, hc, List.length_cons, List.length_cons, ih, strayModels, strayModels,
        List.filter_cons_of_neg (by simp [h])]
      omega
    | false =>
      rw [childModels_other h, outermostModels_cons, strayModels,
        List.filter_cons_of_pos (by simp [h]), outermostModels_cons, List.length_append,
        List.length_append, ih, strayModels]
      omega

theorem outermostModels_eq {ns : List Node} (h : strayModels ns = []) :
    outermostModels ns = childModels ns := by
  refine ((childModels_sublist ns).eq_of_length ?_).symm
  rw [length_outermostModels, h]
  rfl

/-! ## Documents -/

theorem forall₂_matches {es : List Element} {mss : List (List Model)}
    (hf : ∀ e ∈ es, AreFlat (directedElements e.content)) (h : List.Forall₂ ReadAs es mss) :
    List.Forall₂ Element.Matches es mss.flatten := by
  induction h with
  | nil => exact .nil
  | cons h _ ih =>
    obtain ⟨he, hes⟩ := List.forall_mem_cons.1 hf
    obtain ⟨m, rfl, hm⟩ := h.1 he
    exact .cons hm (ih hes)

/-- The models of a well-formed document are read of its outermost model elements from the first
schema element on: those in it, at any depth, and those behind it; what stands in front of it does not
count. They are the models among its children exactly where no model stands in another element in it
and none behind it. -/
theorem readSchema_scope {text : String} {s : Schema}
    (hw : (Document.ofText text).WellFormed) (hs : (readSchema text).result = .ok s) :
    ∃ ns e behind, Document.ofText text = .ofNodes ns ∧ schemaIn ns = some (e, behind) ∧
      (∃ mss, List.Forall₂ ReadAs (outermostModels e.content ++ outermostModels behind) mss ∧
        s.models = mss.flatten) ∧
      (childModels e.content).Sublist (outermostModels e.content) ∧
      ((∀ e' ∈ outermostModels e.content ++ outermostModels behind,
          AreFlat (directedElements e'.content)) →
        (List.Forall₂ Element.Matches (childModels e.content) s.models ↔
          strayModels e.content = [] ∧ outermostModels behind = [])) := by
  obtain ⟨ns, hn⟩ := hw.exists_nodes
  rw [result_readSchema, hn, readDocument_ofNodes] at hs
  obtain ⟨r, hr, hf⟩ := hs
  have ha := read_adds rfl ns hr
  cases schema_of_finish hf
  obtain ⟨mss, hm, hr⟩ := ha.models
  have hfound : (modelsIn false ns).1 = true := ha.found.symm
  have hscope := modelsIn_schema ns
  cases hsc : schemaIn ns with
  | none =>
    rw [hscope, hsc] at hfound
    cases hfound
  | some p =>
    obtain ⟨e, behind⟩ := p
    rw [hsc] at hscope
    replace hm : List.Forall₂ ReadAs (modelsIn false ns).2 mss := hm
    rw [hscope] at hm
    replace hr : s.models = mss.flatten := hr
    refine ⟨ns, e, behind, hn, hsc, ⟨mss, hm, hr⟩, childModels_sublist _, fun hflat => ?_⟩
    have hmatches := forall₂_matches hflat hm
    rw [← hr] at hmatches
    constructor
    · intro hc
      have hl := hmatches.length_eq
      rw [List.length_append, length_outermostModels, ← hc.length_eq] at hl
      exact ⟨List.eq_nil_of_length_eq_zero (by omega), List.eq_nil_of_length_eq_zero (by omega)⟩
    · rintro ⟨hstray, hbehind⟩
      rwa [hbehind, List.append_nil, outermostModels_eq hstray] at hmatches

/-- A schema with a model in a note, and a model behind it. -/
def scatteredDocument : String :=
  "<dtoSchema package=\"p\"><model name=\"A\"/><note><model name=\"B\"/></note></dtoSchema>" ++
    "<model name=\"C\"/>"

/-- All three are read. -/
theorem readSchema_scope_of_scattered :
    (readSchema scatteredDocument).result = .ok ⟨"p",
      [⟨⟨.classType, "A", []⟩, []⟩, ⟨⟨.classType, "B", []⟩, []⟩, ⟨⟨.classType, "C", []⟩, []⟩]⟩ ∧
    ∃ ns e behind, Document.ofText scatteredDocument = .ofNodes ns ∧
      schemaIn ns = some (e, behind) ∧
      ∃ mss, List.Forall₂ ReadAs (outermostModels e.content ++ outermostModels behind) mss ∧
        [⟨⟨.classType, "A", []⟩, []⟩, ⟨⟨.classType, "B", []⟩, []⟩, ⟨⟨.classType, "C", []⟩, []⟩] =
          mss.flatten := by
  have hs : (readSchema scatteredDocument).result = .ok ⟨"p",
      [⟨⟨.classType, "A", []⟩, []⟩, ⟨⟨.classType, "B", []⟩, []⟩, ⟨⟨.classType, "C", []⟩, []⟩]⟩ := by
    decide +kernel
  obtain ⟨ns, e, behind, hn, hsc, hm, -⟩ := readSchema_scope (by decide +kernel) hs
  exact ⟨hs, ns, e, behind, hn, hsc, hm⟩

end Courier
