import Courier.Proofs.Model.Reading

/-!
How deep the reader takes itself to be. It does not count the elements in an argument, so one of
them makes it leave the argument, the directive and the model too early.
-/
namespace Courier
open Xml Reading

def Schema.add (s : Schema) (ms : List Model) : Schema := { s with models := s.models ++ ms }

@[simp] theorem Schema.add_nil (s : Schema) : s.add [] = s := by simp [Schema.add]

@[simp] theorem Schema.add_add (s : Schema) (ms ns : List Model) :
    (s.add ms).add ns = s.add (ms ++ ns) := by simp [Schema.add]

namespace Place

/-- The number of elements that the reader takes to be open, from the model on. -/
def height : Place → Nat
  | .outside => 0
  | .model _ => 1
  | .skipped _ depth => depth + 2
  | .directive _ => 2
  | .skippedArgument _ depth => depth + 3
  | .argument .. => 3

theorem eq_outside {p : Place} (h : p.height = 0) : p = .outside := by
  cases p <;> simp [height] at h ⊢

def model? : Place → Option Model
  | .outside => none
  | .model m | .skipped m _ | .directive m | .skippedArgument m _ | .argument m _ _ => some m

end Place

/-- The number of open elements behind an event, at most. -/
def heightAfter (h : Nat) : Xml.Event → Nat
  | .start _ => h + 1
  | .close => h - 1
  | _ => h

/-- The model the reader was in is still read, with more in it, or it is the first one added. -/
def Keeps (current : Option Model) (added : List Model) (next : Option Model) : Prop :=
  ∀ m, current = some m → ∃ xs as, (added.head?.or next) = some (m.append xs as)

theorem Keeps.rfl {c : Option Model} : Keeps c [] c := by
  intro m hm
  exact ⟨[], [], by simpa using hm⟩

theorem Keeps.trans {a b c : Option Model} {ms ns : List Model} (h : Keeps a ms b)
    (h' : Keeps b ns c) : Keeps a (ms ++ ns) c := by
  intro m hm
  obtain ⟨xs, as, hx⟩ := h m hm
  cases ms with
  | cons m' ms => exact ⟨xs, as, hx⟩
  | nil =>
    obtain ⟨ys, bs, hy⟩ := h' _ hx
    exact ⟨xs ++ ys, as ++ bs, by simpa using hy⟩

/-- Events that add models to any schema, on the way from one place to another. -/
def Leads (p : Place) (es : List Xml.Event) (ms : List Model) (p' : Place) : Prop :=
  ∀ s, es.foldlM step ⟨some s, p⟩ = .ok ⟨some (s.add ms), p'⟩

theorem Leads.trans {p q p' : Place} {es fs : List Xml.Event} {ms ns : List Model}
    (h : Leads p es ms q) (h' : Leads q fs ns p') : Leads p (es ++ fs) (ms ++ ns) p' := by
  intro s
  rw [List.foldlM_append, h s, ← Schema.add_add]
  exact h' (s.add ms)

/-- What a step does once the schema is found. -/
structure Moves (p : Place) (e : Xml.Event) (ms : List Model) (p' : Place) : Prop where
  step : ∀ s, Reading.step ⟨some s, p⟩ e = .ok ⟨some (s.add ms), p'⟩
  height : p'.height ≤ heightAfter p.height e
  keeps : Keeps p.model? ms p'.model?

namespace Reading

variable {r : Reading} {s : Schema} {p p' : Place} {e : Xml.Event} {tag : Tag}

/-- A step that adds no model. -/
theorem moves_of_step (p' : Place) (hs : ∀ s, step ⟨some s, p⟩ e = .ok ⟨some s, p'⟩)
    (hh : p'.height ≤ heightAfter p.height e) (hk : Keeps p.model? [] p'.model?)
    (h : step ⟨some s, p⟩ e = .ok r) : ∃ ms p', r = ⟨some (s.add ms), p'⟩ ∧ Moves p e ms p' := by
  cases (hs _).symm.trans h
  exact ⟨[], p', by rw [Schema.add_nil], ⟨fun s => by rw [Schema.add_nil, hs], hh, hk⟩⟩

theorem keeps_append {m : Model} {xs : List Member} {as : List Argument} :
    Keeps (some m) [] (some (m.append xs as)) := by
  intro m' hm
  cases hm
  exact ⟨xs, as, rfl⟩

theorem keeps_none {ms : List Model} {next : Option Model} : Keeps none ms next :=
  fun _ hm => by cases hm

theorem step_start_model (h : tag.name = "model") : step ⟨some s, .outside⟩ (.start tag) =
    openModel tag >>= fun m => .ok ⟨some s, .model m⟩ := by
  simp only [step, h]
  rfl

theorem step_empty_model (h : tag.name = "model") : step ⟨some s, .outside⟩ (.empty tag) =
    openModel tag >>= fun m => .ok ⟨some (s.add [m]), .outside⟩ := by
  simp only [step, h]
  rfl

theorem step_start_outside (h : tag.name ≠ "model") :
    step ⟨some s, .outside⟩ (.start tag) = .ok ⟨some s, .outside⟩ := by
  simp [step, h]
  rfl

theorem step_empty_outside (h : tag.name ≠ "model") :
    step ⟨some s, .outside⟩ (.empty tag) = .ok ⟨some s, .outside⟩ := by
  simp [step, h]
  rfl

theorem step_outside (h : step ⟨some s, .outside⟩ e = .ok r) :
    ∃ ms p', r = ⟨some (s.add ms), p'⟩ ∧ Moves .outside e ms p' := by
  have other : (∀ s, step ⟨some s, .outside⟩ e = .ok ⟨some s, .outside⟩) →
      ∃ ms p', r = ⟨some (s.add ms), p'⟩ ∧ Moves .outside e ms p' :=
    fun hs => moves_of_step .outside hs (Nat.zero_le _) keeps_none h
  cases e with
  | start tag =>
    by_cases ht : tag.name = "model"
    · obtain ⟨m, hm, h⟩ := bind_eq_ok.1 ((step_start_model ht).symm.trans h)
      cases h
      refine ⟨[], .model m, by rw [Schema.add_nil], fun s => ?_, Nat.le_refl _, keeps_none⟩
      rw [step_start_model ht, hm, Schema.add_nil]
      rfl
    · exact other fun s => step_start_outside ht
  | empty tag =>
    by_cases ht : tag.name = "model"
    · obtain ⟨m, hm, h⟩ := bind_eq_ok.1 ((step_empty_model ht).symm.trans h)
      cases h
      refine ⟨[m], .outside, rfl, fun s => ?_, Nat.le_refl _, keeps_none⟩
      rw [step_empty_model ht, hm]
      rfl
    · exact other fun s => step_empty_outside ht
  | _ => exact other fun _ => rfl

theorem step_model {m : Model} (h : step ⟨some s, .model m⟩ e = .ok r) :
    ∃ ms p', r = ⟨some (s.add ms), p'⟩ ∧ Moves (.model m) e ms p' := by
  cases e with
  | start tag =>
    by_cases ht : tag.name = "directive"
    · exact moves_of_step (.directive m) (fun s => step_start_directive ht) (Nat.le_refl _) .rfl h
    · obtain ⟨x, hx, -⟩ := bind_eq_ok.1 ((step_start_member ht).symm.trans h)
      refine moves_of_step (.skipped (addMember m x) 0) (fun s => ?_) (Nat.le_refl _) ?_ h
      · rw [step_start_member ht, hx]
        rfl
      · rw [addMember_eq]
        exact keeps_append
  | empty tag =>
    obtain ⟨x, hx, -⟩ := bind_eq_ok.1 (step_empty_member.symm.trans h)
    refine moves_of_step (.model (addMember m x)) (fun s => ?_) (Nat.le_refl _) ?_ h
    · rw [step_empty_member, hx]
      rfl
    · rw [addMember_eq]
      exact keeps_append
  | close =>
    cases h
    refine ⟨[m], .outside, rfl, fun _ => rfl, Nat.le_refl _, ?_⟩
    intro m' hm
    cases hm
    exact ⟨[], [], by simp⟩
  | _ => exact moves_of_step (.model m) (fun _ => rfl) (Nat.le_refl _) .rfl h

theorem step_directive {m : Model} (h : step ⟨some s, .directive m⟩ e = .ok r) :
    ∃ ms p', r = ⟨some (s.add ms), p'⟩ ∧ Moves (.directive m) e ms p' := by
  cases e with
  | start tag =>
    by_cases ht : tag.name = "argument"
    · obtain ⟨l, hl, -⟩ := bind_eq_ok.1 ((step_start_argument ht).symm.trans h)
      refine moves_of_step (.argument m l []) (fun s => ?_) (Nat.le_refl _) .rfl h
      rw [step_start_argument ht, hl]
      rfl
    · exact moves_of_step (.skippedArgument m 0) (fun _ => step_start_ignored ht) (Nat.le_refl _)
        .rfl h
  | empty tag =>
    by_cases ht : tag.name = "argument"
    · obtain ⟨l, hl, -⟩ := bind_eq_ok.1 ((step_empty_argument ht).symm.trans h)
      refine moves_of_step (.directive (addArgument m l [])) (fun s => ?_) (Nat.le_refl _) ?_ h
      · rw [step_empty_argument ht, hl]
        rfl
      · rw [addArgument_eq]
        exact keeps_append
    · exact moves_of_step (.directive m) (fun _ => step_empty_ignored ht) (Nat.le_refl _) .rfl h
  | close => exact moves_of_step (.model m) (fun _ => rfl) (Nat.le_refl _) .rfl h
  | _ => exact moves_of_step (.directive m) (fun _ => rfl) (Nat.le_refl _) .rfl h

theorem step_reference {m : Model} {l : Option String} {text name : List Char} :
    step ⟨some s, .argument m l text⟩ (.reference name) =
      resolve name >>= fun c => .ok ⟨some s, .argument m l (text ++ [c])⟩ := rfl

theorem step_argument {m : Model} {l : Option String} {text : List Char}
    (h : step ⟨some s, .argument m l text⟩ e = .ok r) :
    ∃ ms p', r = ⟨some (s.add ms), p'⟩ ∧ Moves (.argument m l text) e ms p' := by
  cases e with
  | start | empty | aside =>
    exact moves_of_step (.argument m l text) (fun _ => rfl) (by simp [Place.height, heightAfter])
      .rfl h
  | close =>
    refine moves_of_step (.directive (addArgument m l text)) (fun _ => rfl) (Nat.le_refl _) ?_ h
    rw [addArgument_eq]
    exact keeps_append
  | text content | cdata content =>
    exact moves_of_step (.argument m l (text ++ content)) (fun _ => rfl) (Nat.le_refl _) .rfl h
  | reference name =>
    obtain ⟨c, hc, -⟩ := bind_eq_ok.1 (step_reference.symm.trans h)
    refine moves_of_step (.argument m l (text ++ [c])) (fun s => ?_) (Nat.le_refl _) .rfl h
    rw [step_reference, hc]
    rfl

/-- The place in front of an event and the event decide what the step does. -/
theorem step_found (h : step ⟨some s, p⟩ e = .ok r) :
    ∃ ms p', r = ⟨some (s.add ms), p'⟩ ∧ Moves p e ms p' := by
  cases p with
  | outside => exact step_outside h
  | model m => exact step_model h
  | directive m => exact step_directive h
  | argument m l text => exact step_argument h
  | skipped m d =>
    cases e with
    | start => exact moves_of_step (.skipped m (d + 1)) (fun _ => rfl) (Nat.le_refl _) .rfl h
    | close =>
      cases d with
      | zero => exact moves_of_step (.model m) (fun _ => rfl) (Nat.le_refl _) .rfl h
      | succ d => exact moves_of_step (.skipped m d) (fun _ => rfl) (Nat.le_refl _) .rfl h
    | _ => exact moves_of_step (.skipped m d) (fun _ => rfl) (Nat.le_refl _) .rfl h
  | skippedArgument m d =>
    cases e with
    | start =>
      exact moves_of_step (.skippedArgument m (d + 1)) (fun _ => rfl) (Nat.le_refl _) .rfl h
    | close =>
      cases d with
      | zero => exact moves_of_step (.directive m) (fun _ => rfl) (Nat.le_refl _) .rfl h
      | succ d => exact moves_of_step (.skippedArgument m d) (fun _ => rfl) (Nat.le_refl _) .rfl h
    | _ => exact moves_of_step (.skippedArgument m d) (fun _ => rfl) (Nat.le_refl _) .rfl h

/-! ## Runs -/

/-- What a run adds does not depend on the schema read before it. -/
theorem run_found {es : List Xml.Event} (h : es.foldlM step ⟨some s, p⟩ = .ok r) :
    ∃ ms p', r = ⟨some (s.add ms), p'⟩ ∧ Leads p es ms p' ∧ Keeps p.model? ms p'.model? := by
  induction es generalizing s p with
  | nil =>
    cases h
    exact ⟨[], p, by rw [Schema.add_nil], fun s => by rw [Schema.add_nil]; rfl, .rfl⟩
  | cons e es ih =>
    rw [List.foldlM_cons] at h
    obtain ⟨_, h₁, h⟩ := bind_eq_ok.1 h
    obtain ⟨ms, p₁, rfl, hm⟩ := step_found h₁
    obtain ⟨ns, p', rfl, hl, hk⟩ := ih h
    refine ⟨ms ++ ns, p', by rw [Schema.add_add], fun s => ?_, hm.keeps.trans hk⟩
    rw [List.foldlM_cons, hm.step]
    exact (hl _).trans (by rw [Schema.add_add])

/-- A run that is seen to add no models to one schema adds none to any. -/
theorem leads_of_run {es : List Xml.Event} (h : ∀ s, es.foldlM step ⟨some s, p⟩ = .ok ⟨some s, p'⟩) :
    Leads p es [] p' := by
  intro s
  rw [Schema.add_nil]
  exact h s

/-- A reading with a found schema that is at most so high. -/
def Below (h : Nat) (r : Reading) : Prop := ∃ s p, r = ⟨some s, p⟩ ∧ p.height ≤ h

theorem step_below {h : Nat} {r r' : Reading} (hr : Below h r) (hs : step r e = .ok r') :
    Below (heightAfter h e) r' := by
  obtain ⟨s, p, rfl, hp⟩ := hr
  obtain ⟨ms, p', rfl, hm⟩ := step_found hs
  refine ⟨_, p', rfl, Nat.le_trans hm.height ?_⟩
  cases e with
  | start => exact Nat.succ_le_succ hp
  | close => exact Nat.sub_le_sub_right hp 1
  | _ => exact hp

mutual
theorem readNode_below {h : Nat} {r r' : Reading} (hr : Below h r) :
    (n : Node) → readNode r n = .ok r' → Below h r'
  | .element tag content, hn => by
    obtain ⟨r₁, h₁, r₂, h₂, h₃⟩ := readNode_element_eq_ok.1 hn
    exact step_below (read_below (step_below hr h₁) content h₂) h₃
  | .empty _, hn | .text _, hn | .cdata _, hn | .reference _, hn | .aside, hn => by
    rw [readNode_of_events rfl] at hn
    exact step_below hr hn

/-- Balanced content never leaves the reader higher than it was. -/
theorem read_below {h : Nat} {r r' : Reading} (hr : Below h r) :
    (ns : List Node) → read r ns = .ok r' → Below h r'
  | [], hn => by
    cases hn
    exact hr
  | n :: ns, hn => by
    obtain ⟨r₁, h₁, hn⟩ := read_cons_eq_ok.1 hn
    exact read_below (readNode_below hr n h₁) ns hn
end

/-! ## Elements that are left too early -/

section
variable {m : Model} {n : Node} {content ns : List Node}

theorem argument_below {l : Option String} {text : List Char} (hn : ¬ ∀ n ∈ ns, n.isLeaf)
    (h : read ⟨some s, .argument m l text⟩ ns = .ok r) : Below 2 r := by
  induction ns generalizing text with
  | nil => exact absurd (List.forall_mem_nil _) hn
  | cons n ns ih =>
    obtain ⟨r₁, h₁, hr⟩ := read_cons_eq_ok.1 h
    by_cases hl : n.isLeaf
    · obtain ⟨t, -, rfl⟩ := (readNode_argument hl).1 h₁
      exact ih (fun hns => hn (List.forall_mem_cons.2 ⟨hl, hns⟩)) hr
    · cases n with
      | element tag content =>
        -- The start of the element moves nothing, so its end is taken for that of the argument.
        obtain ⟨_, h₁, r₂, h₂, h₃⟩ := readNode_element_eq_ok.1 h₁
        cases h₁
        have hb : Below 3 r₂ := read_below ⟨s, _, rfl, Nat.le_refl _⟩ content h₂
        exact read_below (step_below hb h₃) ns hr
      | _ => exact absurd rfl hl

theorem readNode_argument_below {e : Element} (he : n.element? = some e)
    (hn : e.tag.name = "argument") (hf : ¬ ∀ n ∈ e.content, n.isLeaf)
    (h : readNode ⟨some s, .directive m⟩ n = .ok r) : Below 1 r := by
  cases n with
  | element tag content =>
    cases he
    obtain ⟨_, h₁, r₂, h₂, h₃⟩ := readNode_element_eq_ok.1 h
    obtain ⟨l, -, h₁⟩ := bind_eq_ok.1 ((step_start_argument hn).symm.trans h₁)
    cases h₁
    exact step_below (argument_below hf h₂) h₃
  | empty tag =>
    cases he
    exact absurd (List.forall_mem_nil _) hf
  | _ => cases he

theorem directive_below (hn : ¬ AreFlat (argumentElements ns))
    (h : read ⟨some s, .directive m⟩ ns = .ok r) : Below 1 r := by
  induction ns generalizing m with
  | nil => exact absurd (List.forall_mem_nil _) hn
  | cons n ns ih =>
    obtain ⟨r₁, h₁, h⟩ := read_cons_eq_ok.1 h
    by_cases ha : ∃ e, n.element? = some e ∧ e.tag.name = "argument"
    · obtain ⟨e, he, ha⟩ := ha
      rw [argumentElements_cons_argument he ha] at hn
      by_cases hf : ∀ n ∈ e.content, n.isLeaf
      · obtain ⟨a, -, rfl⟩ := (readNode_directive_argument he ha hf).1 h₁
        exact ih (fun hns => hn (List.forall_mem_cons.2 ⟨hf, hns⟩)) h
      · exact read_below (readNode_argument_below he ha hf h₁) ns h
    · have ha : ∀ e, n.element? = some e → e.tag.name ≠ "argument" :=
        fun e he hn => ha ⟨e, he, hn⟩
      rw [argumentElements_cons_other ha] at hn
      rw [readNode_directive_other ha] at h₁
      cases h₁
      exact ih hn h

/-- A node in a model whose arguments are not flat is a directive. -/
theorem directive_of_not_flat (hn : ¬ AreFlat (directedElements [n])) :
    ∃ tag content, n = .element tag content ∧ tag.name = "directive" ∧
      ¬ AreFlat (argumentElements content) := by
  cases n with
  | element tag content =>
    by_cases hd : tag.name = "directive"
    · rw [directedElements_directive hd] at hn
      exact ⟨tag, content, rfl, hd, hn⟩
    · refine absurd ?_ hn
      simp [directedElements, elements, Node.element?, hd, AreFlat]
  | empty tag =>
    refine absurd ?_ hn
    by_cases hd : tag.name = "directive" <;>
      simp [directedElements, elements, Node.element?, hd, argumentElements, AreFlat]
  | _ => exact absurd (List.forall_mem_nil _) hn

theorem readNode_model_below (hn : ¬ AreFlat (directedElements [n]))
    (h : readNode ⟨some s, .model m⟩ n = .ok r) : Below 0 r := by
  obtain ⟨tag, content, rfl, hd, hf⟩ := directive_of_not_flat hn
  obtain ⟨_, h₁, r₂, h₂, h₃⟩ := readNode_element_eq_ok.1 h
  cases (step_start_directive hd).symm.trans h₁
  exact step_below (directive_below hf h₂) h₃

/-- The first child of a model whose arguments are not flat. -/
theorem exists_not_flat (hn : ¬ AreFlat (directedElements ns)) :
    ∃ before n after, ns = before ++ n :: after ∧ AreFlat (directedElements before) ∧
      ¬ AreFlat (directedElements [n]) := by
  induction ns with
  | nil => exact absurd (List.forall_mem_nil _) hn
  | cons n ns ih =>
    rw [directedElements_cons, areFlat_append] at hn
    by_cases hf : AreFlat (directedElements [n])
    · obtain ⟨before, n', after, rfl, hb, hn'⟩ := ih fun h => hn ⟨hf, h⟩
      refine ⟨n :: before, n', after, rfl, ?_, hn'⟩
      rw [directedElements_cons, areFlat_append]
      exact ⟨hf, hb⟩
    · exact ⟨[], n, ns, rfl, List.forall_mem_nil _, hf⟩

theorem model_below (hn : ¬ AreFlat (directedElements ns))
    (h : read ⟨some s, .model m⟩ ns = .ok r) : Below 0 r := by
  obtain ⟨before, n, after, rfl, hb, hn⟩ := exists_not_flat hn
  rw [read_append] at h
  obtain ⟨_, h₁, h⟩ := bind_eq_ok.1 h
  obtain ⟨xs, as, -, rfl⟩ := (read_model hb).1 h₁
  -- The reader is in the model up to this directive, and behind it never gets back.
  obtain ⟨r₂, h₂, h⟩ := read_cons_eq_ok.1 h
  exact read_below (readNode_model_below hn h₂) after h

end

end Reading
end Courier
