import Courier.Proofs.Model.Elements
import Courier.Proofs.Xml.Cut

/-!
Schemas that are cut off. The reader misses the ends of a model and of what is in it, but neither
that of the schema element nor that of an element around the models.
-/
namespace Courier
open Xml Reading

/-! ## Open elements -/

/-- Whether the schema element was found, and the names of the elements that are open from the
outermost model on, the innermost first. -/
structure Standing where
  found : Bool
  opened : List String
  deriving DecidableEq, Repr

namespace Standing

def after (st : Standing) : Xml.Event → Standing
  | .start tag =>
    match st.opened with
    | [] =>
      if st.found && tag.name == "model" then ⟨true, [tag.name]⟩
      else ⟨st.found || tag.name == "dtoSchema", []⟩
    | names => ⟨st.found, tag.name :: names⟩
  | .empty tag =>
    match st.opened with
    | [] => ⟨st.found || tag.name == "dtoSchema", []⟩
    | names => ⟨st.found, names⟩
  | .close => ⟨st.found, st.opened.tail⟩
  | _ => st

/-- No event opens an element directly in an argument. -/
def flat (st : Standing) : List Xml.Event → Bool
  | [] => true
  | .start tag :: es =>
    st.opened != ["argument", "directive", "model"] && flat (st.after (.start tag)) es
  | e :: es => flat (st.after e) es

def start : Standing := ⟨false, []⟩

theorem opened_after_start {st : Standing} (h : st.opened ≠ []) (tag : Tag) :
    (st.after (.start tag)).opened = tag.name :: st.opened := by
  obtain ⟨found, opened⟩ := st
  cases opened with
  | nil => exact absurd rfl h
  | cons => rfl

theorem opened_after_empty (st : Standing) (tag : Tag) :
    (st.after (.empty tag)).opened = st.opened := by
  obtain ⟨found, opened⟩ := st
  cases opened <;> rfl

end Standing

/-- What is open behind events from the beginning of a document. -/
def standing (es : List Xml.Event) : Standing := es.foldl Standing.after .start

/-! ## The reader and what is open -/

/-- A reading behind events. The reader may have left elements too early, but none too late. -/
structure Stands (st : Standing) (r : Reading) : Prop where
  found : st.found = r.schema.isSome
  inside : st.opened ≠ [] → st.found
  height : r.place.height ≤ st.opened.length

/-- A place that belongs to the elements that are open. -/
inductive Fits : List String → Place → Prop
  | outside : Fits [] .outside
  | model {m} : Fits ["model"] (.model m)
  | skipped {names name m} : name ≠ "directive" →
      Fits (names ++ [name, "model"]) (.skipped m names.length)
  | directive {m} : Fits ["directive", "model"] (.directive m)
  | skippedArgument {names name m} : name ≠ "argument" →
      Fits (names ++ [name, "directive", "model"]) (.skippedArgument m names.length)
  | argument {m label text} : Fits ["argument", "directive", "model"] (.argument m label text)

variable {st : Standing} {r r' : Reading} {e : Xml.Event} {es : List Xml.Event}

theorem stands_start : Stands .start ⟨none, .outside⟩ :=
  ⟨rfl, fun h => absurd rfl h, Nat.le_refl 0⟩

namespace Stands

theorem outside (h : Stands st r) (ho : st.opened = []) : r = ⟨r.schema, .outside⟩ := by
  have hh := h.height
  rw [ho] at hh
  obtain ⟨schema, p⟩ := r
  cases Place.eq_outside (Nat.le_zero.1 hh)
  rfl

/-- A tag outside of models, unless it opens one. -/
theorem tag {tag : Tag} (he : e = .start tag ∨ e = .empty tag) (h : Stands st r)
    (ho : st.opened = []) (hm : (st.found && tag.name == "model") = false)
    (hs : step r e = .ok r') : Stands ⟨st.found || tag.name == "dtoSchema", []⟩ r' := by
  have ha := step_tag he (congrArg Reading.place (h.outside ho)) (h.found ▸ hm) hs
  refine ⟨?_, fun hn => absurd rfl hn, ?_⟩
  · rw [ha.found, h.found]
  · rw [ha.place]
    exact Nat.le_refl 0

/-- An event behind which as many elements are open as the reader takes to be open at most. -/
theorem moved {names : List String} (h : Stands st r) (hf : st.found) (hs : step r e = .ok r')
    (hn : heightAfter r.place.height e ≤ names.length) :
    Stands ⟨st.found, names⟩ r' := by
  obtain ⟨schema, p⟩ := r
  obtain ⟨s, rfl⟩ := Option.isSome_iff_exists.1 (h.found ▸ hf)
  obtain ⟨ms, p', rfl, hm⟩ := step_found hs
  exact ⟨hf, fun _ => hf, Nat.le_trans hm.height hn⟩

theorem start {tag : Tag} (h : Stands st r) (hs : Reading.step r (.start tag) = .ok r') :
    Stands (st.after (.start tag)) r' := by
  obtain ⟨found, opened⟩ := st
  cases opened with
  | nil =>
    cases hm : found && tag.name == "model" with
    | true =>
      rw [Standing.after, if_pos hm, ← (Bool.and_eq_true_iff.1 hm).1]
      exact h.moved (Bool.and_eq_true_iff.1 hm).1 hs (Nat.succ_le_succ h.height)
    | false =>
      rw [Standing.after, if_neg (by simp [hm])]
      exact h.tag (.inl rfl) rfl hm hs
  | cons name names => exact h.moved (h.inside (by simp)) hs (Nat.succ_le_succ h.height)

theorem empty {tag : Tag} (h : Stands st r) (hs : Reading.step r (.empty tag) = .ok r') :
    Stands (st.after (.empty tag)) r' := by
  obtain ⟨found, opened⟩ := st
  cases opened with
  | nil =>
    cases hm : found && tag.name == "model" with
    | true =>
      have hf := (Bool.and_eq_true_iff.1 hm).1
      rw [Standing.after, hf, Bool.true_or, ← hf]
      exact h.moved hf hs h.height
    | false => exact h.tag (.inr rfl) rfl hm hs
  | cons name names => exact h.moved (h.inside (by simp)) hs h.height

theorem step (h : Stands st r) (hs : step r e = .ok r') : Stands (st.after e) r' := by
  obtain ⟨found, opened⟩ := st
  cases e with
  | start tag => exact h.start hs
  | empty tag => exact h.empty hs
  | close =>
    cases opened with
    | nil =>
      rw [h.outside rfl] at hs
      cases hs
      rw [← h.outside rfl]
      exact h
    | cons name names =>
      exact h.moved (h.inside (by simp)) hs (Nat.sub_le_sub_right h.height 1)
  | text | cdata | reference | aside =>
    cases hf : found with
    | true => exact hf ▸ h.moved hf hs h.height
    | false =>
      -- nothing is open before the schema element, and there the reader takes no notice
      have ho : opened = [] := by
        by_contra hn
        cases hf ▸ h.inside hn
      subst ho
      rw [h.outside rfl] at hs
      cases hs
      rw [← h.outside rfl, ← hf]
      exact h

theorem run {st : Standing} {r : Reading} (h : Stands st r) (hr : es.foldlM Reading.step r = .ok r') :
    Stands (es.foldl Standing.after st) r' := by
  induction es generalizing st r with
  | nil =>
    cases hr
    exact h
  | cons e es ih =>
    rw [List.foldlM_cons] at hr
    obtain ⟨r₁, h₁, hr⟩ := bind_eq_ok.1 hr
    exact ih (h.step h₁) hr

end Stands

namespace Fits

variable {s : Option Schema} {p : Place} {names : List String} {found : Bool}

theorem step_model {m : Model} (h : step ⟨s, .model m⟩ e = .ok r') :
    Fits (Standing.after ⟨found, ["model"]⟩ e).opened r'.place := by
  cases e with
  | start tag =>
    by_cases ht : tag.name = "directive"
    · cases (step_start_directive ht).symm.trans h
      show Fits [tag.name, "model"] _
      rw [ht]
      exact .directive
    · obtain ⟨x, -, h⟩ := bind_eq_ok.1 ((step_start_member ht).symm.trans h)
      cases h
      exact @Fits.skipped [] _ _ ht
  | empty tag =>
    obtain ⟨x, -, h⟩ := bind_eq_ok.1 (step_empty_member.symm.trans h)
    cases h
    exact .model
  | close =>
    cases h
    exact .outside
  | text | cdata | reference | aside =>
    cases h
    exact .model

theorem step_directive {m : Model} (h : step ⟨s, .directive m⟩ e = .ok r') :
    Fits (Standing.after ⟨found, ["directive", "model"]⟩ e).opened r'.place := by
  cases e with
  | start tag =>
    by_cases ht : tag.name = "argument"
    · obtain ⟨l, -, h⟩ := bind_eq_ok.1 ((step_start_argument ht).symm.trans h)
      cases h
      show Fits [tag.name, "directive", "model"] _
      rw [ht]
      exact .argument
    · cases (step_start_ignored ht).symm.trans h
      exact @Fits.skippedArgument [] _ _ ht
  | empty tag =>
    by_cases ht : tag.name = "argument"
    · obtain ⟨l, -, h⟩ := bind_eq_ok.1 ((step_empty_argument ht).symm.trans h)
      cases h
      exact .directive
    · cases (step_empty_ignored ht).symm.trans h
      exact .directive
  | close =>
    cases h
    exact .model
  | text | cdata | reference | aside =>
    cases h
    exact .directive

theorem step_argument {m : Model} {label : Option String} {text : List Char}
    (hn : ∀ tag, e ≠ .start tag) (h : step ⟨s, .argument m label text⟩ e = .ok r') :
    Fits (Standing.after ⟨found, ["argument", "directive", "model"]⟩ e).opened r'.place := by
  cases e with
  | start tag => exact absurd rfl (hn tag)
  | close =>
    cases h
    exact .directive
  | reference name =>
    obtain ⟨c, -, h⟩ := bind_eq_ok.1 h
    cases h
    exact .argument
  | empty | text | cdata | aside =>
    cases h
    exact .argument

theorem step_skips {p : Nat → Place} {outer : List String} (hp : Skips p) (ho : outer ≠ [])
    (hf : ∀ names, Fits (names ++ outer) (p names.length))
    (hc : ∀ r', step ⟨s, p 0⟩ .close = .ok r' → Fits outer.tail r'.place)
    (h : step ⟨s, p names.length⟩ e = .ok r') :
    Fits (Standing.after ⟨found, names ++ outer⟩ e).opened r'.place := by
  have other : ∀ n : Node, n.isLeaf → n.events = [e] → Fits (names ++ outer) r'.place := by
    intro n hl hn
    have hs := hp.other s names.length n hl
    rw [readNode_of_events hn] at hs
    cases hs.symm.trans h
    exact hf names
  cases e with
  | start tag =>
    rw [Standing.opened_after_start (by simp [ho])]
    cases (hp.start s names.length tag).symm.trans h
    exact hf (tag.name :: names)
  | close =>
    cases names with
    | nil => exact hc r' h
    | cons name names =>
      cases (hp.close s names.length).symm.trans h
      exact hf names
  | empty tag =>
    rw [Standing.opened_after_empty]
    exact other (.empty tag) rfl rfl
  | text content => exact other (.text content) rfl rfl
  | cdata content => exact other (.cdata content) rfl rfl
  | reference name => exact other (.reference name) rfl rfl
  | aside => exact other .aside rfl rfl

theorem step_outside {tag : Tag} (h : Stands ⟨found, []⟩ r) (hm : found && tag.name == "model")
    (hs : step r (.start tag) = .ok r') : Fits [tag.name] r'.place := by
  obtain ⟨hf, ht⟩ := Bool.and_eq_true_iff.1 hm
  obtain ⟨s, hs'⟩ := Option.isSome_iff_exists.1 (h.found.symm.trans hf)
  rw [h.outside rfl, hs'] at hs
  obtain ⟨m, -, hs⟩ := bind_eq_ok.1 ((step_start_model (beq_iff_eq.1 ht)).symm.trans hs)
  cases hs
  rw [beq_iff_eq.1 ht]
  exact .model

theorem step (h : Stands st r) (hf : Fits st.opened r.place)
    (hn : ∀ tag, e = .start tag → st.opened ≠ ["argument", "directive", "model"])
    (hs : Reading.step r e = .ok r') : Fits (st.after e).opened r'.place := by
  obtain ⟨found, opened⟩ := st
  obtain ⟨schema, p⟩ := r
  cases hf with
  | outside =>
    by_cases ho : (Standing.after ⟨found, []⟩ e).opened = []
    · rw [ho, (h.step hs).outside ho]
      exact .outside
    · cases e with
      | start tag =>
        by_cases hm : (found && tag.name == "model") = true
        · rw [Standing.after, if_pos hm]
          exact step_outside h hm hs
        · rw [Standing.after, if_neg hm] at ho
          exact absurd rfl ho
      | _ => exact absurd rfl ho
  | model => exact step_model hs
  | directive => exact step_directive hs
  | argument =>
    exact step_argument (fun tag he => hn tag he rfl) hs
  | skipped hne =>
    refine step_skips skips_skipped (by simp) (fun names => .skipped hne) (fun r' hc => ?_) hs
    cases hc
    exact .model
  | skippedArgument hne =>
    refine step_skips skips_skippedArgument (by simp) (fun names => .skippedArgument hne)
      (fun r' hc => ?_) hs
    cases hc
    exact .directive

theorem run {st : Standing} {r : Reading} (h : Stands st r) (hf : Fits st.opened r.place)
    (hn : st.flat es) (hr : es.foldlM Reading.step r = .ok r') :
    Fits (es.foldl Standing.after st).opened r'.place := by
  induction es generalizing st r with
  | nil =>
    cases hr
    exact hf
  | cons e es ih =>
    rw [List.foldlM_cons] at hr
    obtain ⟨r₁, h₁, hr⟩ := bind_eq_ok.1 hr
    have hn' : (∀ tag, e = .start tag → st.opened ≠ ["argument", "directive", "model"]) ∧
        (st.after e).flat es := by
      cases e with
      | start tag => simpa [Standing.flat] using hn
      | _ => exact ⟨fun _ h => (nomatch h), hn⟩
    exact ih (h.step h₁) (hf.step h hn'.1 h₁) hn'.2 hr

theorem finish_eq_ok {s : Schema} (hf : Fits names r.place) (h : r.finish = .ok s) : names = [] := by
  obtain ⟨schema, p⟩ := r
  cases hf with
  | outside => rfl
  | _ => cases h

theorem finish_unterminated (hf : Fits names r.place) (hn : names ≠ []) :
    ∃ what, r.finish = .error (.malformed ("unterminated " ++ what)) := by
  obtain ⟨schema, p⟩ := r
  cases hf with
  | outside => exact absurd rfl hn
  | @model m | @skipped _ _ m =>
    refine ⟨"model '" ++ m.declaration.name ++ "'", ?_⟩
    rw [finish, ← String.append_assoc, ← String.append_assoc]
    rfl
  | directive | skippedArgument => exact ⟨"directive", rfl⟩
  | argument => exact ⟨"argument", rfl⟩

end Fits

/-! ## Texts in front of a cut -/

/-- What the reader makes of a text in front of a cut, where it reads a schema of the whole. -/
structure Truncated (s : Schema) (text : String) : Prop where
  fault : ∀ f, (Document.ofText text).fault = some f → (readSchema text).result = .error (.xml f)
  unfound : (Document.ofText text).fault = none →
    (standing (Document.ofText text).events).found = false →
    (readSchema text).result = .error (.malformed "No dtoSchema element found")
  unterminated : (Document.ofText text).fault = none →
    (standing (Document.ofText text).events).opened ≠ [] →
    Standing.start.flat (Document.ofText text).events →
    ∃ what, (readSchema text).result = .error (.malformed ("unterminated " ++ what))
  accepted : (Document.ofText text).fault = none →
    (standing (Document.ofText text).events).found →
    (standing (Document.ofText text).events).opened = [] →
    ∃ ms, (readSchema text).result = .ok ⟨s.package, ms⟩ ∧ ms <+: s.models

theorem readDocument_eq_ok {d : Document} {s : Schema} : readDocument d = .ok s ↔
    d.fault = none ∧ ∃ r, d.events.foldlM step ⟨none, .outside⟩ = .ok r ∧ r.finish = .ok s := by
  obtain ⟨es, f⟩ := d
  simp only [readDocument, bind_eq_ok]
  cases f with
  | none => simp
  | some f =>
    constructor
    · rintro ⟨r, -, h⟩
      cases h
    · rintro ⟨h, -⟩
      cases h

theorem readDocument_of_run {d : Document} (h : d.events.foldlM step ⟨none, .outside⟩ = .ok r) :
    readDocument d = match d.fault with
      | some f => .error (.xml f)
      | none => r.finish := by
  rw [readDocument, h]
  rfl

theorem step_text (r : Reading) (content : List Char) :
    ∃ r', step r (.text content) = .ok r' ∧ r'.schema = r.schema ∧ (r.place = .outside → r' = r) := by
  obtain ⟨schema, p⟩ := r
  cases p with
  | argument => exact ⟨_, rfl, rfl, fun h => nomatch h⟩
  | _ => exact ⟨_, rfl, rfl, fun _ => rfl⟩

theorem standing_of_readSchema {text : String} {s : Schema} (h : (readSchema text).result = .ok s) :
    (Document.ofText text).fault = none ∧ (standing (Document.ofText text).events).found ∧
      (Standing.start.flat (Document.ofText text).events →
        (standing (Document.ofText text).events).opened = []) := by
  rw [result_readSchema, readDocument_eq_ok] at h
  obtain ⟨hd, r, hr, hf⟩ := h
  refine ⟨hd, ?_, fun hn => (Fits.run stands_start .outside hn hr).finish_eq_ok hf⟩
  rw [standing, (stands_start.run hr).found, schema_of_finish hf]
  rfl

/-- The run over the events in front of a cut. Only a text at its end may not be in the whole. -/
theorem run_cut {p q : String} {s : Schema} (h : (readSchema (p ++ q)).result = .ok s) :
    ∃ r, (Document.ofText p).events.foldlM step ⟨none, .outside⟩ = .ok r ∧
      (r.schema.isSome → (standing (Document.ofText p).events).opened = [] →
        ∃ ms, r.finish = .ok ⟨s.package, ms⟩ ∧ ms <+: s.models) := by
  rw [result_readSchema, readDocument_eq_ok] at h
  obtain ⟨-, r', hr, hf⟩ := h
  obtain ⟨es, ⟨fs, he⟩, hp⟩ := ofText_cut p q
  rw [← he, List.foldlM_append] at hr
  obtain ⟨r, hr, hr'⟩ := bind_eq_ok.1 hr
  have hm : r.schema.isSome → (standing es).opened = [] →
      ∃ ms, r.finish = .ok ⟨s.package, ms⟩ ∧ ms <+: s.models := by
    intro hs ho
    obtain ⟨s₀, hs⟩ := Option.isSome_iff_exists.1 hs
    rw [(stands_start.run hr).outside ho, hs] at hr' ⊢
    obtain ⟨ms, p', rfl, -, -⟩ := run_found hr'
    cases schema_of_finish hf
    exact ⟨s₀.models, rfl, List.prefix_append ..⟩
  rcases hp with hp | ⟨content, hp⟩
  · rw [hp]
    exact ⟨r, hr, hm⟩
  · -- a text at the cut changes nothing outside of models
    obtain ⟨r₁, hs, hsame, hout⟩ := step_text r content
    have ho : standing (es ++ [.text content]) = standing es := by
      rw [standing, List.foldl_append]
      rfl
    rw [hp, List.foldlM_append, hr, ho]
    refine ⟨r₁, by simpa using hs, fun hf hn => ?_⟩
    rw [hout (congrArg Reading.place ((stands_start.run hr).outside hn))]
    exact hm (hsame ▸ hf) hn

/-- A text with a schema may end with its elements open, but inside of a model it may not. -/
theorem readSchema_truncated (p : String) :
    (∀ s, (readSchema p).result = .ok s →
      (Document.ofText p).fault = none ∧ (standing (Document.ofText p).events).found ∧
        (Standing.start.flat (Document.ofText p).events →
          (standing (Document.ofText p).events).opened = [])) ∧
    ∀ q s, (readSchema (p ++ q)).result = .ok s → Truncated s p := by
  refine ⟨fun s => standing_of_readSchema, fun q s h => ?_⟩
  obtain ⟨r, hr, ha⟩ := run_cut h
  have hs := stands_start.run hr
  have hd := readDocument_of_run hr
  constructor
  · intro f hf
    rw [result_readSchema, hd, hf]
  · intro hf hn
    have ho : (standing (Document.ofText p).events).opened = [] := by
      by_contra h
      cases hn.symm.trans (hs.inside h)
    have hr : r.schema = none := by
      rw [← Option.not_isSome_iff_eq_none, ← hs.found, ← standing, hn]
      exact Bool.false_ne_true
    rw [result_readSchema, hd, hf, hs.outside ho, hr]
    rfl
  · intro hf ho hn
    rw [result_readSchema, hd, hf]
    exact (Fits.run stands_start .outside hn hr).finish_unterminated ho
  · intro hf hn ho
    rw [result_readSchema, hd, hf]
    exact ha (hs.found ▸ hn) ho

/-- The beginning of a schema with two models. -/
def unclosedSchema : String := "<dtoSchema package=\"p\"><model name=\"A\"/>"

/-- The model behind the cut is lost, and nothing tells. -/
theorem readSchema_truncated_of_unclosed :
    ((readSchema (unclosedSchema ++ "<model name=\"B\"/></dtoSchema>")).result =
      .ok ⟨"p", [⟨⟨.classType, "A", []⟩, []⟩, ⟨⟨.classType, "B", []⟩, []⟩]⟩) ∧
    ((readSchema unclosedSchema).result = .ok ⟨"p", [⟨⟨.classType, "A", []⟩, []⟩]⟩) ∧
    (Document.ofText unclosedSchema).fault = none ∧
    standing (Document.ofText unclosedSchema).events = ⟨true, []⟩ ∧
    Truncated ⟨"p", [⟨⟨.classType, "A", []⟩, []⟩, ⟨⟨.classType, "B", []⟩, []⟩]⟩ unclosedSchema := by
  have whole : (readSchema (unclosedSchema ++ "<model name=\"B\"/></dtoSchema>")).result =
      .ok ⟨"p", [⟨⟨.classType, "A", []⟩, []⟩, ⟨⟨.classType, "B", []⟩, []⟩]⟩ := by
    decide +kernel
  have cut : (readSchema unclosedSchema).result = .ok ⟨"p", [⟨⟨.classType, "A", []⟩, []⟩]⟩ := by
    decide +kernel
  obtain ⟨hf, -, -⟩ := (readSchema_truncated unclosedSchema).1 _ cut
  exact ⟨whole, cut, hf, by decide +kernel, (readSchema_truncated unclosedSchema).2 _ _ whole⟩

end Courier
