import Courier.Xml.Event

/-!
The tree that a well-formed document spells. The reader never sees it: it has only the events, in
which the end of an element does not say what it ends.
-/
namespace Courier.Xml

/-- A node of a document. -/
inductive Node where
  | element (tag : Tag) (content : List Node)
  /-- An element that is closed at once. -/
  | empty (tag : Tag)
  | text (content : List Char)
  | cdata (content : List Char)
  | reference (name : List Char)
  | aside

mutual
/-- The events that spell a node. -/
def Node.events : Node → List Event
  | .element tag content => .start tag :: (eventsOf content ++ [.close])
  | .empty tag => [.empty tag]
  | .text content => [.text content]
  | .cdata content => [.cdata content]
  | .reference name => [.reference name]
  | .aside => [.aside]

def eventsOf : List Node → List Event
  | [] => []
  | n :: ns => n.events ++ eventsOf ns
end

theorem eventsOf_append (ns ms : List Node) : eventsOf (ns ++ ms) = eventsOf ns ++ eventsOf ms := by
  induction ns with
  | nil => rfl
  | cons n ns ih => simp only [List.cons_append, eventsOf, ih, List.append_assoc]

/-- The document with the given nodes. -/
def Document.ofNodes (ns : List Node) : Document := ⟨eventsOf ns, none⟩

/-- The number of open elements behind some events, when every end ends one. -/
def openElements : Nat → List Event → Option Nat
  | n, [] => some n
  | n, .start _ :: es => openElements (n + 1) es
  | 0, .close :: _ => none
  | n + 1, .close :: es => openElements n es
  | n, _ :: es => openElements n es

/-- A document without a fault in which every element is ended. The ends have the names of the
elements, or there would be a fault. -/
def Document.WellFormed (d : Document) : Prop := d.fault = none ∧ openElements 0 d.events = some 0

instance (d : Document) : Decidable d.WellFormed := inferInstanceAs (Decidable (_ ∧ _))

/-- Events that end the elements open in front of them: the rest of the innermost content, and what
follows each of the ends. -/
theorem nodes_of_openElements {n : Nat} {es : List Event} (h : openElements n es = some 0) :
    ∃ (first : List Node) (rest : List (List Node)),
      es = eventsOf first ++ rest.flatMap (fun ns => .close :: eventsOf ns) ∧
        rest.length = n := by
  induction es generalizing n with
  | nil =>
    cases h
    exact ⟨[], [], rfl, rfl⟩
  | cons e es ih =>
    have leaf : ∀ m : Node, openElements n es = some 0 → m.events = [e] →
        ∃ (first : List Node) (rest : List (List Node)),
          e :: es = eventsOf first ++ rest.flatMap (fun ns => .close :: eventsOf ns) ∧
            rest.length = n := by
      intro m hn hm
      obtain ⟨first, rest, rfl, hl⟩ := ih hn
      refine ⟨m :: first, rest, ?_, hl⟩
      rw [eventsOf, hm]
      rfl
    cases e with
    | start tag =>
      -- What follows the element is what follows the first of the ends behind its content.
      obtain ⟨content, rest, rfl, hl⟩ := ih (n := n + 1) (by simpa [openElements] using h)
      cases rest with
      | nil => cases hl
      | cons first rest =>
        refine ⟨.element tag content :: first, rest, ?_, Nat.succ.inj hl⟩
        simp [eventsOf, Node.events]
    | close =>
      cases n with
      | zero => simp [openElements] at h
      | succ n =>
        obtain ⟨first, rest, rfl, hl⟩ := ih (n := n) (by simpa [openElements] using h)
        exact ⟨[], first :: rest, rfl, by rw [List.length_cons, hl]⟩
    | empty tag => exact leaf (.empty tag) (by simpa [openElements] using h) rfl
    | text content => exact leaf (.text content) (by simpa [openElements] using h) rfl
    | cdata content => exact leaf (.cdata content) (by simpa [openElements] using h) rfl
    | reference name => exact leaf (.reference name) (by simpa [openElements] using h) rfl
    | aside => exact leaf .aside (by simpa [openElements] using h) rfl

theorem Document.WellFormed.exists_nodes {d : Document} (h : d.WellFormed) :
    ∃ ns, d = .ofNodes ns := by
  obtain ⟨hf, ho⟩ := h
  obtain ⟨first, rest, he, hl⟩ := nodes_of_openElements ho
  cases List.length_eq_zero_iff.1 hl
  rw [List.flatMap_nil, List.append_nil] at he
  cases d
  cases hf
  cases he
  exact ⟨first, rfl⟩

/-! ## Elements -/

/-- An element: its tag, and its content. -/
structure Element where
  tag : Tag
  content : List Node

def Node.element? : Node → Option Element
  | .element tag content => some ⟨tag, content⟩
  | .empty tag => some ⟨tag, []⟩
  | _ => none

def elements (ns : List Node) : List Element := ns.filterMap Node.element?

/-- Does the node have a content of its own? -/
def Node.isLeaf : Node → Bool
  | .element .. => false
  | _ => true

end Courier.Xml
