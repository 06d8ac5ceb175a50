import Courier.Model.Document
import Courier.Proofs.Result
import Courier.Proofs.Xml.Tree

/-!
The reader of schema documents on trees. Where no argument contains an element, the reader is in
step with the tree: it leaves each element at its own end, with what its children say.
-/
namespace Courier
open Xml

/-! ## What elements say -/

namespace Reading

/-- The text that a node adds to the content it is in. Elements add nothing. -/
def nodeText : Node → Except ParseError (List Char)
  | .text content | .cdata content => .ok content
  | .reference name => return [← resolve name]
  | _ => .ok []

end Reading

open Reading

def argumentElements (ns : List Node) : List Element :=
  (elements ns).filter (·.tag.name == "argument")

/-- The argument elements in the directives in a content. -/
def directedElements (ns : List Node) : List Element :=
  ((elements ns).filter (·.tag.name == "directive")).flatMap (argumentElements ·.content)

def isMemberName (name : String) : Bool :=
  ["property", "computed", "method", "nested"].contains name

def memberElements (ns : List Node) : List Element := (elements ns).filter (isMemberName ·.tag.name)

/-- An argument that an element spells, with the whole text in it. -/
def Xml.Element.Spells (e : Element) (a : Argument) : Prop :=
  ∃ l texts, label e.tag = .ok l ∧ List.Forall₂ (fun n t => nodeText n = .ok t) e.content texts ∧
    a = ⟨l, .parse (String.ofList texts.flatten)⟩

/-- No element of a list contains another, unless that one is closed at once. -/
def AreFlat (es : List Element) : Prop := ∀ e ∈ es, ∀ n ∈ e.content, n.isLeaf

/-- The members and arguments that the content of a model spells. -/
inductive Contains : List Node → List Member → List Argument → Prop
  | nil : Contains [] [] []
  | directive {tag content ns xs as bs} : tag.name = "directive" →
      List.Forall₂ Element.Spells (argumentElements content) as → Contains ns xs bs →
        Contains (.element tag content :: ns) xs (as ++ bs)
  | element {tag content ns x xs as} : tag.name ≠ "directive" → member tag = .ok x →
      Contains ns xs as → Contains (.element tag content :: ns) (x.toList ++ xs) as
  | empty {tag ns x xs as} : member tag = .ok x → Contains ns xs as →
      Contains (.empty tag :: ns) (x.toList ++ xs) as
  | other {n ns xs as} : n.element? = none → Contains ns xs as → Contains (n :: ns) xs as

def Model.append (m : Model) (xs : List Member) (as : List Argument) : Model :=
  { m with
    declaration.members := m.declaration.members ++ xs
    arguments := m.arguments ++ as }

@[simp] theorem Model.append_nil (m : Model) : m.append [] [] = m := by simp [Model.append]

@[simp] theorem Model.append_append (m : Model) (xs ys : List Member) (as bs : List Argument) :
    (m.append xs as).append ys bs = m.append (xs ++ ys) (as ++ bs) := by simp [Model.append]

/-! ## Steps -/

namespace Reading

variable {r r' : Reading} {s : Option Schema} {m : Model} {tag : Tag} {n : Node}
  {content ns : List Node}

def readNode (r : Reading) (n : Node) : Except ParseError Reading := n.events.foldlM step r

def read (r : Reading) (ns : List Node) : Except ParseError Reading := (eventsOf ns).foldlM step r

theorem readNode_element : r.readNode (.element tag content) =
    step r (.start tag) >>= fun r => r.read content >>= fun r => step r .close := by
  simp only [readNode, Node.events, List.foldlM_cons, List.foldlM_append, List.foldlM_nil, read,
    bind_pure]

theorem readNode_of_events {e : Xml.Event} (h : n.events = [e]) : r.readNode n = step r e := by
  simp only [readNode, h, List.foldlM_cons, List.foldlM_nil, bind_pure]

theorem read_nil : r.read [] = .ok r := rfl

theorem read_cons : r.read (n :: ns) = r.readNode n >>= fun r => r.read ns := by
  simp only [read, readNode, eventsOf, List.foldlM_append]

theorem read_append {ms : List Node} : r.read (ns ++ ms) = r.read ns >>= fun r => r.read ms := by
  simp only [read, eventsOf_append, List.foldlM_append]

theorem read_cons_eq_ok :
    r.read (n :: ns) = .ok r' ↔ ∃ r₁, r.readNode n = .ok r₁ ∧ r₁.read ns = .ok r' := by
  rw [read_cons, bind_eq_ok]

theorem readNode_element_eq_ok : r.readNode (.element tag content) = .ok r' ↔
    ∃ r₁, step r (.start tag) = .ok r₁ ∧
      ∃ r₂, r₁.read content = .ok r₂ ∧ step r₂ .close = .ok r' := by
  simp only [readNode_element, bind_eq_ok]

/-! ## Skipping -/

/-- Places that only count how deep the reader is. -/
structure Skips (p : Nat → Place) : Prop where
  start : ∀ s d tag, step ⟨s, p d⟩ (.start tag) = .ok ⟨s, p (d + 1)⟩
  close : ∀ s d, step ⟨s, p (d + 1)⟩ .close = .ok ⟨s, p d⟩
  other : ∀ s d (n : Node), n.isLeaf → readNode ⟨s, p d⟩ n = .ok ⟨s, p d⟩

theorem skips_skipped : Skips (.skipped m) where
  start _ _ _ := rfl
  close _ _ := rfl
  other _ _ n h := by cases n <;> first | rfl | cases h

theorem skips_skippedArgument : Skips (.skippedArgument m) where
  start _ _ _ := rfl
  close _ _ := rfl
  other _ _ n h := by cases n <;> first | rfl | cases h

mutual
theorem readNode_skip {p : Nat → Place} (hp : Skips p) (s : Option Schema) (d : Nat) :
    (n : Node) → readNode ⟨s, p d⟩ n = .ok ⟨s, p d⟩
  | .element tag content => by
    rw [readNode_element, hp.start]
    show read _ content >>= _ = _
    rw [read_skip hp s (d + 1) content]
    exact hp.close s d
  | .empty _ | .text _ | .cdata _ | .reference _ | .aside => hp.other s d _ rfl

/-- Content that is skipped is skipped as a whole. -/
theorem read_skip {p : Nat → Place} (hp : Skips p) (s : Option Schema) (d : Nat) :
    (ns : List Node) → read ⟨s, p d⟩ ns = .ok ⟨s, p d⟩
  | [] => rfl
  | n :: ns => by
    rw [read_cons, readNode_skip hp s d n]
    exact read_skip hp s d ns
end

/-! ## Arguments -/

section
variable {label : Option String} {text : List Char}

theorem readNode_argument (hn : n.isLeaf) :
    readNode ⟨s, .argument m label text⟩ n = .ok r ↔
      ∃ t, nodeText n = .ok t ∧ r = ⟨s, .argument m label (text ++ t)⟩ := by
  have h : readNode ⟨s, .argument m label text⟩ n =
      nodeText n >>= fun t => .ok ⟨s, .argument m label (text ++ t)⟩ := by
    cases n with
    | element => cases hn
    | reference name =>
      rw [readNode_of_events rfl]
      simp only [step, nodeText]
      cases resolve name <;> rfl
    | text | cdata => rfl
    | empty | aside =>
      simp only [nodeText]
      rw [readNode_of_events rfl]
      show _ = (.ok _ : Except ParseError Reading)
      rw [List.append_nil]
      rfl
  rw [h, bind_eq_ok]
  simp only [Except.ok.injEq, eq_comm]

theorem read_argument (h : ∀ n ∈ ns, n.isLeaf) :
    read ⟨s, .argument m label text⟩ ns = .ok r ↔
      ∃ texts, List.Forall₂ (fun n t => nodeText n = .ok t) ns texts ∧
        r = ⟨s, .argument m label (text ++ texts.flatten)⟩ := by
  induction ns generalizing text with
  | nil => simp [read_nil, eq_comm]
  | cons n ns ih =>
    obtain ⟨hn, hns⟩ := List.forall_mem_cons.1 h
    simp only [read_cons_eq_ok, readNode_argument hn, List.forall₂_cons_left_iff]
    constructor
    · rintro ⟨_, ⟨t, ht, rfl⟩, hr⟩
      obtain ⟨texts, hts, rfl⟩ := (ih hns).1 hr
      exact ⟨t :: texts, ⟨t, texts, ht, hts, rfl⟩, by simp⟩
    · rintro ⟨_, ⟨t, texts, ht, hts, rfl⟩, rfl⟩
      exact ⟨_, ⟨t, ht, rfl⟩, (ih hns).2 ⟨texts, hts, by simp⟩⟩

end

/-! ## Directives -/

theorem argumentElements_cons_argument {e : Element} (he : n.element? = some e)
    (hn : e.tag.name = "argument") :
    argumentElements (n :: ns) = e :: argumentElements ns := by
  simp [argumentElements, elements, he, hn]

theorem argumentElements_cons_other (h : ∀ e, n.element? = some e → e.tag.name ≠ "argument") :
    argumentElements (n :: ns) = argumentElements ns := by
  cases he : n.element? with
  | none => simp [argumentElements, elements, he]
  | some e => simp [argumentElements, elements, he, h e he]

theorem step_start_argument (h : tag.name = "argument") : step ⟨s, .directive m⟩ (.start tag) =
    label tag >>= fun l => .ok ⟨s, .argument m l []⟩ := by
  simp [step, h]
  rfl

theorem step_empty_argument (h : tag.name = "argument") : step ⟨s, .directive m⟩ (.empty tag) =
    label tag >>= fun l => .ok ⟨s, .directive (addArgument m l [])⟩ := by
  simp [step, h]
  rfl

theorem step_start_ignored (h : tag.name ≠ "argument") :
    step ⟨s, .directive m⟩ (.start tag) = .ok ⟨s, .skippedArgument m 0⟩ := by
  simp [step, h]
  rfl

theorem step_empty_ignored (h : tag.name ≠ "argument") :
    step ⟨s, .directive m⟩ (.empty tag) = .ok ⟨s, .directive m⟩ := by
  simp [step, h]
  rfl

theorem addArgument_eq {l : Option String} {text : List Char} :
    addArgument m l text = m.append [] [⟨l, .parse (String.ofList text)⟩] := by
  simp [addArgument, Model.append]

theorem readNode_directive_argument {e : Element} (he : n.element? = some e)
    (hn : e.tag.name = "argument") (hf : ∀ n ∈ e.content, n.isLeaf) :
    readNode ⟨s, .directive m⟩ n = .ok r ↔
      ∃ a, e.Spells a ∧ r = ⟨s, .directive (m.append [] [a])⟩ := by
  have hr : readNode ⟨s, .directive m⟩ n = .ok r ↔
      ∃ l texts, label e.tag = .ok l ∧
        List.Forall₂ (fun n t => nodeText n = .ok t) e.content texts ∧
          r = ⟨s, .directive (addArgument m l texts.flatten)⟩ := by
    cases n with
    | element tag content =>
      cases he
      simp only [readNode_element_eq_ok, step_start_argument hn, bind_eq_ok]
      constructor
      · rintro ⟨_, ⟨l, hl, h₁⟩, r₂, h₂, h₃⟩
        cases h₁
        obtain ⟨texts, ht, rfl⟩ := (read_argument hf).1 h₂
        cases h₃
        exact ⟨l, texts, hl, ht, rfl⟩
      · rintro ⟨l, texts, hl, ht, rfl⟩
        exact ⟨_, ⟨l, hl, rfl⟩, _, (read_argument hf).2 ⟨texts, ht, rfl⟩, rfl⟩
    | empty tag =>
      cases he
      rw [readNode_of_events rfl, step_empty_argument hn]
      simp only [bind_eq_ok, List.forall₂_nil_left_iff]
      constructor
      · rintro ⟨l, hl, h⟩
        cases h
        exact ⟨l, [], hl, rfl, rfl⟩
      · rintro ⟨l, _, hl, rfl, rfl⟩
        exact ⟨l, hl, rfl⟩
    | _ => cases he
  simp only [hr, addArgument_eq]
  constructor
  · rintro ⟨l, texts, hl, ht, rfl⟩
    exact ⟨_, ⟨l, texts, hl, ht, rfl⟩, rfl⟩
  · rintro ⟨_, ⟨l, texts, hl, ht, rfl⟩, rfl⟩
    exact ⟨l, texts, hl, ht, rfl⟩

theorem readNode_directive_other (h : ∀ e, n.element? = some e → e.tag.name ≠ "argument") :
    readNode ⟨s, .directive m⟩ n = .ok ⟨s, .directive m⟩ := by
  cases n with
  | element tag content =>
    rw [readNode_element, step_start_ignored (h ⟨tag, content⟩ rfl)]
    show read _ content >>= _ = _
    rw [read_skip skips_skippedArgument]
    rfl
  | empty tag =>
    rw [readNode_of_events rfl]
    exact step_empty_ignored (h ⟨tag, []⟩ rfl)
  | _ => rfl

theorem read_directive (h : AreFlat (argumentElements ns)) :
    read ⟨s, .directive m⟩ ns = .ok r ↔
      ∃ as, List.Forall₂ Element.Spells (argumentElements ns) as ∧
        r = ⟨s, .directive (m.append [] as)⟩ := by
  induction ns generalizing m with
  | nil => simp [read_nil, argumentElements, elements, eq_comm]
  | cons n ns ih =>
    by_cases hn : ∃ e, n.element? = some e ∧ e.tag.name = "argument"
    · obtain ⟨e, he, hn⟩ := hn
      rw [argumentElements_cons_argument he hn] at h ⊢
      obtain ⟨hf, h⟩ := List.forall_mem_cons.1 h
      simp only [read_cons_eq_ok, readNode_directive_argument he hn hf, List.forall₂_cons_left_iff]
      constructor
      · rintro ⟨_, ⟨a, ha, rfl⟩, hr⟩
        obtain ⟨as, has, rfl⟩ := (ih h).1 hr
        exact ⟨a :: as, ⟨a, as, ha, has, rfl⟩, by simp⟩
      · rintro ⟨_, ⟨a, as, ha, has, rfl⟩, rfl⟩
        exact ⟨_, ⟨a, ha, rfl⟩, (ih h).2 ⟨as, has, by simp⟩⟩
    · have hn : ∀ e, n.element? = some e → e.tag.name ≠ "argument" :=
        fun e he ha => hn ⟨e, he, ha⟩
      rw [argumentElements_cons_other hn] at h ⊢
      rw [read_cons, readNode_directive_other hn]
      exact ih h

/-! ## Models -/

theorem step_start_directive (h : tag.name = "directive") :
    step ⟨s, .model m⟩ (.start tag) = .ok ⟨s, .directive m⟩ := by
  simp [step, h]
  rfl

theorem step_start_member (h : tag.name ≠ "directive") : step ⟨s, .model m⟩ (.start tag) =
    member tag >>= fun x => .ok ⟨s, .skipped (addMember m x) 0⟩ := by
  simp [step, h]
  rfl

theorem step_empty_member : step ⟨s, .model m⟩ (.empty tag) =
    member tag >>= fun x => .ok ⟨s, .model (addMember m x)⟩ := rfl

theorem addMember_eq {x : Option Member} : addMember m x = m.append x.toList [] := by
  cases x <;> simp [addMember, Model.append]

theorem areFlat_append {es fs : List Element} : AreFlat (es ++ fs) ↔ AreFlat es ∧ AreFlat fs :=
  List.forall_mem_append

theorem directedElements_cons :
    directedElements (n :: ns) = directedElements [n] ++ directedElements ns := by
  cases h : n.element? with
  | none => simp [directedElements, elements, h]
  | some e => by_cases hd : e.tag.name = "directive" <;> simp [directedElements, elements, h, hd]

theorem directedElements_directive (h : tag.name = "directive") :
    directedElements [.element tag content] = argumentElements content := by
  simp [directedElements, elements, Node.element?, h]

theorem readNode_model_directive (h : tag.name = "directive")
    (hf : AreFlat (argumentElements content)) :
    readNode ⟨s, .model m⟩ (.element tag content) = .ok r ↔
      ∃ as, List.Forall₂ Element.Spells (argumentElements content) as ∧
        r = ⟨s, .model (m.append [] as)⟩ := by
  simp only [readNode_element_eq_ok, step_start_directive h]
  constructor
  · rintro ⟨_, h₁, r₂, h₂, h₃⟩
    cases h₁
    obtain ⟨as, has, rfl⟩ := (read_directive hf).1 h₂
    cases h₃
    exact ⟨as, has, rfl⟩
  · rintro ⟨as, has, rfl⟩
    exact ⟨_, rfl, _, (read_directive hf).2 ⟨as, has, rfl⟩, rfl⟩

theorem readNode_model_element (h : tag.name ≠ "directive") :
    readNode ⟨s, .model m⟩ (.element tag content) = .ok r ↔
      ∃ x, member tag = .ok x ∧ r = ⟨s, .model (m.append x.toList [])⟩ := by
  simp only [readNode_element_eq_ok, step_start_member h, bind_eq_ok, ← addMember_eq]
  constructor
  · rintro ⟨_, ⟨x, hx, h₁⟩, r₂, h₂, h₃⟩
    cases h₁
    rw [read_skip skips_skipped] at h₂
    cases h₂
    cases h₃
    exact ⟨x, hx, rfl⟩
  · rintro ⟨x, hx, rfl⟩
    exact ⟨_, ⟨x, hx, rfl⟩, _, read_skip skips_skipped _ _ _, rfl⟩

theorem readNode_model_empty : readNode ⟨s, .model m⟩ (.empty tag) = .ok r ↔
    ∃ x, member tag = .ok x ∧ r = ⟨s, .model (m.append x.toList [])⟩ := by
  rw [readNode_of_events rfl, step_empty_member, bind_eq_ok]
  simp only [addMember_eq, Except.ok.injEq, eq_comm]

theorem readNode_model_other (h : n.element? = none) :
    readNode ⟨s, .model m⟩ n = .ok ⟨s, .model m⟩ := by
  cases n <;> first | rfl | cases h

theorem contains_of_read (h : AreFlat (directedElements ns)) (hr : read ⟨s, .model m⟩ ns = .ok r) :
    ∃ xs as, Contains ns xs as ∧ r = ⟨s, .model (m.append xs as)⟩ := by
  induction ns generalizing m with
  | nil =>
    cases hr
    exact ⟨[], [], .nil, by rw [Model.append_nil]⟩
  | cons n ns ih =>
    rw [directedElements_cons, areFlat_append] at h
    obtain ⟨r₁, h₁, hr⟩ := read_cons_eq_ok.1 hr
    cases n with
    | element tag content =>
      by_cases hd : tag.name = "directive"
      · rw [directedElements_directive hd] at h
        obtain ⟨as, has, rfl⟩ := (readNode_model_directive hd h.1).1 h₁
        obtain ⟨xs, bs, hc, rfl⟩ := ih h.2 hr
        exact ⟨xs, as ++ bs, .directive hd has hc, by simp⟩
      · obtain ⟨x, hx, rfl⟩ := (readNode_model_element hd).1 h₁
        obtain ⟨xs, as, hc, rfl⟩ := ih h.2 hr
        exact ⟨x.toList ++ xs, as, .element hd hx hc, by simp⟩
    | empty tag =>
      obtain ⟨x, hx, rfl⟩ := readNode_model_empty.1 h₁
      obtain ⟨xs, as, hc, rfl⟩ := ih h.2 hr
      exact ⟨x.toList ++ xs, as, .empty hx hc, by simp⟩
    | text | cdata | reference | aside =>
      cases h₁
      obtain ⟨xs, as, hc, rfl⟩ := ih h.2 hr
      exact ⟨xs, as, .other rfl hc, rfl⟩

theorem read_of_contains {xs : List Member} {as : List Argument}
    (h : AreFlat (directedElements ns)) (hc : Contains ns xs as) :
    read ⟨s, .model m⟩ ns = .ok ⟨s, .model (m.append xs as)⟩ := by
  induction hc generalizing m with
  | nil => rw [Model.append_nil]; rfl
  | directive hd has _ ih =>
    rw [directedElements_cons, areFlat_append, directedElements_directive hd] at h
    refine read_cons_eq_ok.2 ⟨_, (readNode_model_directive hd h.1).2 ⟨_, has, rfl⟩, ?_⟩
    simpa using ih (m := m.append [] _) h.2
  | element hd hx _ ih =>
    rw [directedElements_cons, areFlat_append] at h
    refine read_cons_eq_ok.2 ⟨_, (readNode_model_element hd).2 ⟨_, hx, rfl⟩, ?_⟩
    simpa using ih (m := m.append _ []) h.2
  | empty hx _ ih =>
    rw [directedElements_cons, areFlat_append] at h
    refine read_cons_eq_ok.2 ⟨_, readNode_model_empty.2 ⟨_, hx, rfl⟩, ?_⟩
    simpa using ih (m := m.append _ []) h.2
  | other he _ ih =>
    rw [directedElements_cons, areFlat_append] at h
    exact read_cons_eq_ok.2 ⟨_, readNode_model_other he, ih h.2⟩

/-- Where arguments are flat, content is read as what it spells, and the reader is still in the
model behind it. -/
theorem read_model (h : AreFlat (directedElements ns)) :
    read ⟨s, .model m⟩ ns = .ok r ↔
      ∃ xs as, Contains ns xs as ∧ r = ⟨s, .model (m.append xs as)⟩ := by
  constructor
  · exact contains_of_read h
  · rintro ⟨xs, as, hc, rfl⟩
    exact read_of_contains h hc

end Reading

/-! ## What content contains -/

variable {tag : Tag} {n : Node} {ns : List Node} {xs : List Member} {as : List Argument}

/-- The model that an element spells: what its tag says, with what its content contains. -/
def Xml.Element.Describes (e : Element) (m : Model) : Prop :=
  ∃ m₀ xs as, openModel e.tag = .ok m₀ ∧ Contains e.content xs as ∧ m = m₀.append xs as

theorem member_isSome {x : Option Member} (h : member tag = .ok x) :
    x.isSome = isMemberName tag.name := by
  obtain ⟨vs, -, h⟩ := bind_eq_ok.1 h
  simp only at h
  split at h
  · rename_i hm
    cases h
    split at hm <;> simp_all [isMemberName]
  · rename_i hm _
    cases h
    split at hm <;> simp_all [isMemberName]
  · cases h

theorem openModel_eq {m : Model} (h : openModel tag = .ok m) :
    m = ⟨⟨m.declaration.kind, m.declaration.name, []⟩, []⟩ := by
  obtain ⟨⟨name, kind⟩, -, h⟩ := bind_eq_ok.1 h
  cases name with
  | none => cases h
  | some name => cases h; rfl

theorem memberElements_cons {e : Element} (he : n.element? = some e) {x : Option Member}
    (h : member e.tag = .ok x)
    (hs : List.Forall₂ (fun e x => member e.tag = .ok (some x)) (memberElements ns) xs) :
    List.Forall₂ (fun e x => member e.tag = .ok (some x)) (memberElements (n :: ns))
      (x.toList ++ xs) := by
  have hx := member_isSome h
  cases x with
  | none => simpa [memberElements, elements, he, ← hx] using hs
  | some x => simpa [memberElements, elements, he, ← hx, h] using hs

/-- The members are what the member elements say, in their order. -/
theorem Contains.members (h : Contains ns xs as) :
    List.Forall₂ (fun e x => member e.tag = .ok (some x)) (memberElements ns) xs := by
  induction h with
  | nil => exact .nil
  | directive hd _ _ ih =>
    simpa [memberElements, elements, Node.element?, isMemberName, hd] using ih
  | element _ hx _ ih => exact memberElements_cons rfl hx ih
  | empty hx _ ih => exact memberElements_cons rfl hx ih
  | other he _ ih => simpa [memberElements, elements, he] using ih

/-- The arguments are what the argument elements in directives say, in their order. -/
theorem Contains.arguments (h : Contains ns xs as) :
    List.Forall₂ Element.Spells (directedElements ns) as := by
  induction h with
  | nil => exact .nil
  | directive hd has _ ih =>
    rw [directedElements_cons, directedElements_directive hd]
    exact List.rel_append has ih
  | element hd _ _ ih => simpa [directedElements, elements, Node.element?, hd] using ih
  | @empty tag ns _ _ _ _ _ ih =>
    have h : directedElements [.empty tag] = [] := by
      by_cases hd : tag.name = "directive" <;>
        simp [directedElements, elements, Node.element?, hd, argumentElements]
    rwa [directedElements_cons, h]
  | other he _ ih => simpa [directedElements, elements, he] using ih

/-- A model whose lists are those of an element: each member is what a member element says, and each
argument is what an argument element in a directive says, in their order. -/
structure Xml.Element.Matches (e : Element) (m : Model) : Prop where
  opened : openModel e.tag = .ok ⟨⟨m.declaration.kind, m.declaration.name, []⟩, []⟩
  members : List.Forall₂ (fun e x => member e.tag = .ok (some x)) (memberElements e.content)
    m.declaration.members
  arguments : List.Forall₂ Element.Spells (directedElements e.content) m.arguments

theorem Xml.Element.Describes.matches {e : Element} {m : Model} (h : e.Describes m) :
    e.Matches m := by
  obtain ⟨m₀, xs, as, hm, hc, rfl⟩ := h
  have h₀ := openModel_eq hm
  have hx : m₀.declaration.members = [] := by rw [h₀]
  have ha : m₀.arguments = [] := by rw [h₀]
  refine ⟨hm.trans (congrArg _ h₀), ?_, ?_⟩
  · rw [Model.append, hx]
    exact hc.members
  · rw [Model.append, ha]
    exact hc.arguments

end Courier
