import Courier.Proofs.Model.Bodies
import Courier.Proofs.Model.Truncation

/-!
The form of a schema document. Outside of arguments it does not matter whether an element without
content is closed at once, nor what stands in an element whose content is passed over. An element that
the reader does not know vanishes in a model; outside of models only its tags do.
-/
namespace Courier
open Xml Reading

/-! ## Places -/

namespace Place

def isArgument : Place → Bool
  | .argument .. => true
  | _ => false

/-- Is the content of an element with the name passed over? -/
def passes : Place → String → Bool
  | .outside, _ | .argument .., _ => false
  | .model _, name => name != "directive"
  | .directive _, name => name != "argument"
  | .skipped .., _ | .skippedArgument .., _ => true

/-- Is an element with the name passed over as a whole? -/
def ignores : Place → String → Bool
  | .model m, name => passes (.model m) name && !isMemberName name
  | p, name => p.passes name

end Place

/-- Is an element with the name, outside of models, the schema element or a model? -/
def Reading.opens (r : Reading) (name : String) : Bool :=
  if r.schema.isSome then name == "model" else name == "dtoSchema"

namespace Reading

variable {r r' : Reading} {s : Option Schema} {m : Model} {tag : Tag} {ns : List Node}
  {vs : List (String × String)}

/-! ## Nodes -/

theorem member_eq_none (hv : values tag = .ok vs) (hn : isMemberName tag.name = false) :
    member tag = .ok none := by
  simp only [isMemberName, List.contains_cons, List.contains_nil, Bool.or_false,
    Bool.or_eq_false_iff, beq_eq_false_iff_ne] at hn
  obtain ⟨h₁, h₂, h₃, h₄⟩ := hn
  simp [member, hv]

/-- An element without content is read alike in both of its forms. -/
theorem readNode_empty (ha : r.place.isArgument = false) (hv : values tag = .ok vs) :
    r.readNode (.empty tag) = r.readNode (.element tag []) := by
  rw [readNode_of_events rfl, readNode_element]
  show step r (.empty tag) = step r (.start tag) >>= fun r => step r .close
  obtain ⟨s, p⟩ := r
  cases p with
  | argument => cases ha
  | skipped | skippedArgument => rfl
  | directive m =>
    by_cases ht : tag.name = "argument"
    · rw [step_empty_argument ht, step_start_argument ht, bind_assoc]
      rfl
    · rw [step_empty_ignored ht, step_start_ignored ht]
      rfl
  | model m =>
    by_cases ht : tag.name = "directive"
    · -- the attributes of a directive are read only where it is closed at once
      rw [step_start_directive ht, step_empty_member, member_eq_none hv (by rw [ht]; decide)]
      rfl
    · rw [step_start_member ht, step_empty_member, bind_assoc]
      rfl
  | outside =>
    cases s with
    | none =>
      by_cases ht : tag.name = "dtoSchema"
      · rw [step_schema (.inr rfl) ht, step_schema (.inl rfl) ht, bind_assoc]
        rfl
      · simp [step, ht]
    | some s =>
      by_cases ht : tag.name = "model"
      · rw [step_empty_model ht, step_start_model ht, bind_assoc]
        rfl
      · rw [step_empty_outside ht, step_start_outside ht]
        rfl

/-- Content that is passed over does not matter. -/
theorem readNode_passes (h : r.place.passes tag.name) :
    r.readNode (.element tag ns) = r.readNode (.element tag []) := by
  simp only [readNode_element, read_nil]
  obtain ⟨s, p⟩ := r
  cases p with
  | outside | argument => cases h
  | model m =>
    rw [step_start_member (by simpa [Place.passes] using h), bind_assoc, bind_assoc]
    refine congrArg _ (funext fun x => ?_)
    show read _ ns >>= _ = _
    rw [read_skip skips_skipped]
    rfl
  | directive m =>
    rw [step_start_ignored (by simpa [Place.passes] using h)]
    show read _ ns >>= _ = _
    rw [read_skip skips_skippedArgument]
    rfl
  | skipped m d =>
    show read ⟨s, .skipped m (d + 1)⟩ ns >>= _ = _
    rw [read_skip skips_skipped]
    rfl
  | skippedArgument m d =>
    show read ⟨s, .skippedArgument m (d + 1)⟩ ns >>= _ = _
    rw [read_skip skips_skippedArgument]
    rfl

theorem passes_of_ignores {p : Place} {name : String} (h : p.ignores name) : p.passes name := by
  cases p with
  | model m => exact (Bool.and_eq_true_iff.1 h).1
  | _ => exact h

theorem not_argument_of_passes {p : Place} {name : String} (h : p.passes name) :
    p.isArgument = false := by
  cases p with
  | argument => cases h
  | _ => rfl

theorem readNode_ignores (h : r.place.ignores tag.name) (hv : values tag = .ok vs) :
    r.readNode (.element tag ns) = .ok r := by
  rw [readNode_passes (passes_of_ignores h), readNode_element]
  obtain ⟨s, p⟩ := r
  cases p with
  | outside | argument => cases h
  | model m =>
    obtain ⟨hd, hn⟩ := Bool.and_eq_true_iff.1 h
    rw [step_start_member (by simpa [Place.passes] using hd),
      member_eq_none hv (by simpa using hn)]
    rfl
  | directive m =>
    rw [step_start_ignored (by simpa [Place.ignores, Place.passes] using h)]
    rfl
  | skipped | skippedArgument => rfl

/-- Outside of models only the tags of an element are passed over. -/
theorem readNode_unopened (hp : r.place = .outside) (hn : r.opens tag.name = false) :
    r.readNode (.element tag ns) = r.read ns := by
  obtain ⟨s, p⟩ := r
  cases hp
  have hstart : step ⟨s, .outside⟩ (.start tag) = .ok ⟨s, .outside⟩ := by
    cases s with
    | none =>
      have ht : tag.name ≠ "dtoSchema" := by simpa [opens] using hn
      simp [step, ht]
      rfl
    | some s => exact step_start_outside (by simpa [opens] using hn)
  rw [readNode_element, hstart]
  show read _ ns >>= _ = _
  cases h : read ⟨s, .outside⟩ ns with
  | error e => rfl
  | ok r =>
    obtain ⟨s', p⟩ := r
    cases (read_adds rfl ns h).place
    rfl

/-! ## Open arguments -/

theorem not_isArgument_of_outside {s : Option Schema} {e : Xml.Event}
    (h : step ⟨s, .outside⟩ e = .ok r') : r'.place.isArgument = false := by
  cases e with
  | start tag | empty tag =>
    simp only [step] at h
    split at h
    · obtain ⟨s, -, h⟩ := bind_eq_ok.1 h
      cases h
      rfl
    · obtain ⟨m, -, h⟩ := bind_eq_ok.1 h
      cases h
      rfl
    · cases h
      rfl
  | _ =>
    cases h
    rfl

theorem not_isArgument_of_model {s : Option Schema} {m : Model} {e : Xml.Event}
    (h : step ⟨s, .model m⟩ e = .ok r') : r'.place.isArgument = false := by
  cases e with
  | start tag =>
    by_cases ht : tag.name = "directive"
    · cases (step_start_directive ht).symm.trans h
      rfl
    · obtain ⟨x, -, h⟩ := bind_eq_ok.1 ((step_start_member ht).symm.trans h)
      cases h
      rfl
  | empty tag =>
    obtain ⟨x, -, h⟩ := bind_eq_ok.1 (step_empty_member.symm.trans h)
    cases h
    rfl
  | _ =>
    cases h
    rfl

theorem start_argument_of_directive {s : Option Schema} {m : Model} {e : Xml.Event}
    (h : step ⟨s, .directive m⟩ e = .ok r') (ha : r'.place.isArgument) :
    ∃ tag, e = .start tag ∧ tag.name = "argument" := by
  cases e with
  | start tag =>
    by_cases ht : tag.name = "argument"
    · exact ⟨tag, rfl, ht⟩
    · cases (step_start_ignored ht).symm.trans h
      cases ha
  | empty tag =>
    by_cases ht : tag.name = "argument"
    · obtain ⟨l, -, h⟩ := bind_eq_ok.1 ((step_empty_argument ht).symm.trans h)
      cases h
      cases ha
    · cases (step_empty_ignored ht).symm.trans h
      cases ha
  | _ =>
    cases h
    cases ha

/-- Only the tag of an argument in a directive leads into an argument. -/
theorem argument_of_step {e : Xml.Event} (h : step r e = .ok r') (ha : r'.place.isArgument) :
    (r.place.isArgument ∧ e ≠ .close) ∨
      ∃ tag m, e = .start tag ∧ tag.name = "argument" ∧ r.place = .directive m := by
  obtain ⟨s, p⟩ := r
  cases p with
  | outside => exact absurd ha (by simp [not_isArgument_of_outside h])
  | model m => exact absurd ha (by simp [not_isArgument_of_model h])
  | directive m =>
    obtain ⟨tag, he, ht⟩ := start_argument_of_directive h ha
    exact .inr ⟨tag, m, he, ht, rfl⟩
  | argument =>
    refine .inl ⟨rfl, ?_⟩
    rintro rfl
    cases h
    cases ha
  | skipped m d | skippedArgument m d =>
    cases e with
    | close => cases d <;> cases h <;> cases ha
    | _ =>
      cases h
      cases ha

/-- The reader is in an argument only where one is open. -/
theorem argument_of_run {st : Standing} {es : List Xml.Event} (h : Stands st r)
    (hm : r.place.isArgument → "argument" ∈ st.opened) (hr : es.foldlM step r = .ok r')
    (ha : r'.place.isArgument) : "argument" ∈ (es.foldl Standing.after st).opened := by
  induction es generalizing st r with
  | nil =>
    cases hr
    exact hm ha
  | cons e es ih =>
    rw [List.foldlM_cons] at hr
    obtain ⟨r₁, h₁, hr⟩ := bind_eq_ok.1 hr
    refine ih (h.step h₁) (fun ha₁ => ?_) hr
    obtain ⟨found, opened⟩ := st
    rcases argument_of_step h₁ ha₁ with ⟨ha, hc⟩ | ⟨tag, m, rfl, ht, hp⟩
    · have hmem := hm ha
      cases e with
      | start tag =>
        rw [Standing.opened_after_start (List.ne_nil_of_mem hmem)]
        exact List.mem_cons_of_mem _ hmem
      | empty tag => rwa [Standing.opened_after_empty]
      | close => exact absurd rfl hc
      | _ => exact hmem
    · have ho : opened ≠ [] := fun ho => by
        rw [h.outside ho] at hp
        cases hp
      rw [Standing.opened_after_start ho, ht]
      exact List.mem_cons_self ..

/-! ## Texts in a document -/

variable {opened names : List (List Char)} {cs run w : List Char} {es : List Xml.Event} {d : Document}

theorem readRest_yields (h : Yields cs ns) (r : Reading) (opened : List (List Char))
    (rest : List Char) : r.readRest (documentFrom opened (cs ++ rest)) =
      r.read ns >>= fun r => r.readRest (documentFrom opened rest) := by
  rw [h, readRest_eq_bind]
  rfl

/-- Text counts only in an argument. -/
theorem read_textNodes (run : List Char) (r : Reading) :
    ∃ r', r.read (textNodes run) = .ok r' ∧ r'.place.isArgument = r.place.isArgument ∧
      (r.place.isArgument = false → r' = r) := by
  unfold textNodes
  split
  · exact ⟨r, rfl, rfl, fun _ => rfl⟩
  · obtain ⟨s, p⟩ := r
    cases p with
    | argument => exact ⟨_, rfl, rfl, fun h => nomatch h⟩
    | _ => exact ⟨_, rfl, rfl, fun _ => rfl⟩

theorem readRest_dropWhile (ha : r.place.isArgument = false) (opened : List (List Char))
    (cs : List Char) : r.readRest (documentFrom opened cs) =
      r.readRest (documentFrom opened (cs.dropWhile inText)) := by
  have hrun : ∀ x ∈ cs.takeWhile inText, inText x := fun x hx => List.mem_takeWhile_imp hx
  have hrest : ∀ x ∈ (cs.dropWhile inText).head?, inText x = false := by
    have h := List.head?_dropWhile_not inText cs
    intro x hx
    rw [Option.mem_def.1 hx] at h
    simpa using h
  obtain ⟨r', hr, -, he⟩ := read_textNodes (cs.takeWhile inText) r
  cases he ha
  conv => lhs; rw [← List.takeWhile_append_dropWhile (p := inText) (l := cs)]
  rw [documentFrom_run hrun hrest]
  exact readRest_append hr

theorem readRest_run (ha : r.place.isArgument = false) (hrun : ∀ x ∈ run, inText x)
    (opened : List (List Char)) (rest : List Char) :
    r.readRest (documentFrom opened (run ++ rest)) = r.readRest (documentFrom opened rest) := by
  rw [readRest_dropWhile ha, List.dropWhile_append_of_pos hrun, ← readRest_dropWhile ha]

/-- What stands behind a text is read where the text leaves the reader, unless that is an argument:
there it may be part of the text. -/
theorem readRest_goesOn (h : GoesOn opened cs es run names)
    (ha : ∀ r', (es ++ eventsOf (textNodes run)).foldlM step r = .ok r' → r'.place.isArgument = false)
    (more : List (List Char)) (rest : List Char) :
    r.readRest (documentFrom (opened ++ more) (cs ++ rest)) =
      (es ++ eventsOf (textNodes run)).foldlM step r >>= fun r =>
        r.readRest (documentFrom (names ++ more) rest) := by
  rw [h.append, readRest_eq_bind]
  rw [List.foldlM_append] at ha ⊢
  rw [bind_assoc]
  cases hr : es.foldlM step r with
  | error e => rfl
  | ok r₁ =>
    obtain ⟨r', hr', hp, he⟩ := read_textNodes run r₁
    have ha₁ : r₁.place.isArgument = false := hp.symm.trans (ha r' (by rw [hr]; exact hr'))
    cases he ha₁
    show r₁.readRest _ = r₁.read (textNodes run) >>= _
    rw [hr', readRest_run ha₁ h.text]
    rfl

/-- Outside of models a well-formed text is read by itself, whatever stands behind it. -/
theorem exists_fills (hw : (documentFrom [] w).WellFormed) : ∃ ns, Fills w ns ∧
    ∀ r : Reading, r.place = .outside → ∀ opened rest,
      r.readRest (documentFrom opened (w ++ rest)) =
        r.read ns >>= fun r => r.readRest (documentFrom opened rest) := by
  obtain ⟨ns, es, run, hg, he⟩ := exists_goesOn_nodes hw
  refine ⟨ns, hg.fills he, fun r hp opened rest => ?_⟩
  have h := readRest_goesOn (r := r) hg (fun r' hr' => ?_) opened rest
  · rw [he] at h
    exact h
  · rw [he] at hr'
    rw [(read_adds hp ns hr').place]
    rfl

theorem readRest_withoutMark (ha : r.place.isArgument = false) (opened : List (List Char))
    (cs : List Char) :
    r.readRest (documentFrom opened (withoutMark cs)) = r.readRest (documentFrom opened cs) := by
  unfold withoutMark
  split
  · have hmark : ∀ x ∈ ['\ufeff'], inText x := List.forall_mem_singleton.2 rfl
    exact (readRest_run ha hmark opened _).symm
  · rfl

/-- What stands behind a text without a fault is read where the text leaves the reader. -/
theorem readDocument_append {p : String} (hf : (Document.ofText p).fault = none)
    (hr : (Document.ofText p).events.foldlM step ⟨none, .outside⟩ = .ok r)
    (ha : r.place.isArgument = false) : ∃ names, ∀ rest : String,
      readDocument (Document.ofText (p ++ rest)) = r.readRest (documentFrom names rest.toList) := by
  rw [ofText_eq] at hf hr
  obtain ⟨es, run, names, hg⟩ := exists_goesOn hf
  rw [hg.eq] at hr
  refine ⟨names, fun rest => ?_⟩
  show Reading.readRest ⟨none, .outside⟩ _ = _
  rw [ofText_eq, String.toList_append]
  have h := readRest_goesOn hg (fun r' hr' => by cases hr.symm.trans hr'; exact ha) [] rest.toList
  rw [hr, List.append_nil, List.append_nil] at h
  by_cases hp : p.toList = []
  · rw [hp] at h ⊢
    exact (readRest_withoutMark rfl [] rest.toList).trans h
  · rw [withoutMark_append hp]
    exact h

end Reading

/-! ## Forms of an element -/

/-- The text of an element that is closed at once. -/
def emptyText (t : List Char) : String := String.ofList ('<' :: (t ++ "/>".toList))

/-- The text of an element with its content. -/
def elementText (t w e : List Char) : String :=
  String.ofList ('<' :: (t ++ '>' :: (w ++ '<' :: '/' :: (e ++ ['>']))))

section
variable {p : String} {t e : List Char} {r : Reading} {vs : List (String × String)}

theorem readSchema_congr {text text' : String}
    (h : readDocument (Document.ofText text) = readDocument (Document.ofText text')) :
    readSchema text = readSchema text' := by
  rw [readSchema, readSchema, h]

/-- Where a text does not lead into an argument, two texts are read alike behind it if they are read
alike from there on. -/
theorem readSchema_behind {x y : String} (hf : (Document.ofText p).fault = none)
    (hr : (Document.ofText p).events.foldlM step ⟨none, .outside⟩ = .ok r)
    (ha : r.place.isArgument = false)
    (h : ∀ names, r.readRest (documentFrom names x.toList) = r.readRest (documentFrom names y.toList)) :
    readSchema (p ++ x) = readSchema (p ++ y) := by
  obtain ⟨names, hd⟩ := readDocument_append hf hr ha
  exact readSchema_congr ((hd x).trans ((h names).trans (hd y).symm))

theorem readRest_emptyText (hb : Brackets t e) (r : Reading) (opened : List (List Char)) (q : String) :
    r.readRest (documentFrom opened (emptyText t ++ q).toList) =
      r.readNode (.empty (Tag.ofText t)) >>= fun r => r.readRest (documentFrom opened q.toList) := by
  rw [emptyText, String.toList_append, String.toList_ofList, readRest_yields (.empty hb), read_cons,
    bind_assoc]
  rfl

theorem readRest_elementText {w : List Char} {ns : List Node} (hb : Brackets t e) (hw : Fills w ns)
    (r : Reading) (opened : List (List Char)) (q : String) :
    r.readRest (documentFrom opened (elementText t w e ++ q).toList) =
      r.readNode (.element (Tag.ofText t) ns) >>= fun r =>
        r.readRest (documentFrom opened q.toList) := by
  rw [elementText, String.toList_append, String.toList_ofList, readRest_yields (.element hb hw),
    read_cons, bind_assoc]
  rfl

theorem fills_nil : Fills [] [] := Yields.nil.fills

/-- Outside of arguments it does not matter whether an element without content is closed at once.
Where the reader passes over the content of an element, any well-formed content is as good as none, and
where it passes over the element as a whole, as in a model over one that it does not know, the element
is as good as not there. Outside of models only the tags of such an element are. The reader is in the
innermost element that is open, except behind an argument with an element in it. -/
theorem readSchema_forms (hf : (Document.ofText p).fault = none)
    (hr : (Document.ofText p).events.foldlM step ⟨none, .outside⟩ = .ok r)
    (hb : Brackets t e) (hv : values (Tag.ofText t) = .ok vs) :
    (Standing.start.flat (Document.ofText p).events →
      Fits (standing (Document.ofText p).events).opened r.place) ∧
    ("argument" ∉ (standing (Document.ofText p).events).opened → ∀ q : String,
      readSchema (p ++ (emptyText t ++ q)) = readSchema (p ++ (elementText t [] e ++ q))) ∧
    ∀ w, (documentFrom [] w).WellFormed → ∀ q : String,
      (r.place.passes (Tag.ofText t).name →
        readSchema (p ++ (elementText t w e ++ q)) = readSchema (p ++ (elementText t [] e ++ q))) ∧
      (r.place.ignores (Tag.ofText t).name →
        readSchema (p ++ (elementText t w e ++ q)) = readSchema (p ++ q)) ∧
      (r.place = .outside → r.opens (Tag.ofText t).name = false →
        readSchema (p ++ (elementText t w e ++ q)) =
          readSchema (p ++ (String.ofList w ++ q))) := by
  refine ⟨fun hflat => Fits.run stands_start .outside hflat hr, fun hn q => ?_, fun w hw q => ?_⟩
  · have ha : r.place.isArgument = false := by
      rw [← Bool.not_eq_true]
      exact fun ha => hn (argument_of_run stands_start (fun h => nomatch h) hr ha)
    refine readSchema_behind hf hr ha fun names => ?_
    rw [readRest_emptyText hb, readRest_elementText hb fills_nil, readNode_empty ha hv]
  · obtain ⟨ns, hns, hout⟩ := exists_fills hw
    refine ⟨fun hp => ?_, fun hp => ?_, fun hp hn => ?_⟩
    · refine readSchema_behind hf hr (not_argument_of_passes hp) fun names => ?_
      rw [readRest_elementText hb hns, readRest_elementText hb fills_nil, readNode_passes hp]
    · refine readSchema_behind hf hr (not_argument_of_passes (passes_of_ignores hp)) fun names => ?_
      rw [readRest_elementText hb hns, readNode_ignores hp hv]
      rfl
    · refine readSchema_behind hf hr (by rw [hp]; rfl) fun names => ?_
      rw [readRest_elementText hb hns, readNode_unopened hp hn, String.toList_append,
        String.toList_ofList, hout r hp]

theorem brackets_written {name : String} {kvs : List (String × String)} (hw : Writable name kvs)
    (ht : WritesTag name kvs t) : Brackets t name.toList := by
  simpa using ht.brackets hw (List.forall_mem_nil _)

end

/-- A property as it is written, without the angle brackets. -/
def sizeTag : List Char := "property name=\"size\"".toList

theorem brackets_size : Brackets sizeTag "property".toList := by
  have hw : Writable "property" [("name", "size")] :=
    writable_of_keys "property" ["name"] rfl (by decide)
  have ha : WritesAttributes [("name", "size")]
      ([' '] ++ ("name".toList ++ '=' :: '"' :: (escape "size".toList ++ ['"']))) :=
    .cons (by decide) (List.forall_mem_singleton.2 rfl) rfl (.nil (List.forall_mem_nil _))
  exact brackets_written hw ⟨_, _, .refl _, ha, by decide⟩

theorem brackets_unknown : Brackets "x".toList "x".toList :=
  brackets_written ⟨by decide, List.forall_mem_nil _, List.nodup_nil⟩
    ⟨[], [], .refl _, .nil (List.forall_mem_nil _), by decide⟩

/-- The beginning of a schema, up to the members of a model. -/
def modelFront : String := "<dtoSchema package=\"p\"><model name=\"A\">"

theorem ofText_modelFront : Document.ofText modelFront =
    ⟨[.start ⟨"dtoSchema", " package=\"p\"".toList⟩, .start ⟨"model", " name=\"A\"".toList⟩],
      none⟩ := by
  decide +kernel

theorem read_modelFront : (Document.ofText modelFront).events.foldlM step ⟨none, .outside⟩ =
    .ok ⟨some ⟨"p", []⟩, .model ⟨⟨.classType, "A", []⟩, []⟩⟩ := by
  have hschema : openSchema ⟨"dtoSchema", " package=\"p\"".toList⟩ = .ok ⟨"p", []⟩ := by
    decide +kernel
  have hmodel : openModel ⟨"model", " name=\"A\"".toList⟩ = .ok ⟨⟨.classType, "A", []⟩, []⟩ := by
    decide +kernel
  simp only [ofText_modelFront, List.foldlM_cons, List.foldlM_nil, step, hschema, hmodel]
  rfl

/-- The beginning of a schema, up to the end of a directive in which an argument contains an element. -/
def leftFront : String :=
  "<dtoSchema package=\"p\"><model name=\"A\"><directive>" ++
    "<argument label=\"nestedDTOs\">[\"B\"]<b></b></argument></directive>"

theorem ofText_leftFront : Document.ofText leftFront =
    ⟨[.start ⟨"dtoSchema", " package=\"p\"".toList⟩, .start ⟨"model", " name=\"A\"".toList⟩,
      .start ⟨"directive", []⟩, .start ⟨"argument", " label=\"nestedDTOs\"".toList⟩,
      .text "[\"B\"]".toList, .start ⟨"b", []⟩, .close, .close, .close], none⟩ := by
  decide +kernel

theorem read_leftFront : (Document.ofText leftFront).events.foldlM step ⟨none, .outside⟩ =
    .ok ⟨some ⟨"p", [⟨⟨.classType, "A", []⟩, [⟨some "nestedDTOs", .list [.text "B"]⟩]⟩]⟩,
      .outside⟩ := by
  have hread : readDocument (Document.ofText leftFront) =
      .ok ⟨"p", [⟨⟨.classType, "A", []⟩, [⟨some "nestedDTOs", .list [.text "B"]⟩]⟩]⟩ := by
    rw [ofText_leftFront]
    decide +kernel
  obtain ⟨-, r, hr, hfin⟩ := readDocument_eq_ok.1 hread
  cases schema_of_finish hfin
  exact hr

/-- In a model the content of a property is passed over, and an unknown element as a whole. Behind
the argument with an element in it the reader has left the model, so it passes over the tags of an
unknown element, and reads its content. -/
theorem readSchema_forms_of_fronts :
    (Fits (standing (Document.ofText modelFront).events).opened
        (.model ⟨⟨.classType, "A", []⟩, []⟩) ∧
      ∀ q : String,
        readSchema (modelFront ++ (emptyText sizeTag ++ q)) =
          readSchema (modelFront ++ (elementText sizeTag [] "property".toList ++ q)) ∧
        readSchema (modelFront ++
            (elementText sizeTag "<model name=\"Z\"/>".toList "property".toList ++ q)) =
          readSchema (modelFront ++ (elementText sizeTag [] "property".toList ++ q)) ∧
        readSchema (modelFront ++
            (elementText "x".toList "<model name=\"Z\"/>".toList "x".toList ++ q)) =
          readSchema (modelFront ++ q)) ∧
    Standing.start.flat (Document.ofText leftFront).events = false ∧
    (standing (Document.ofText leftFront).events).opened = ["model"] ∧
    (∀ q : String,
      readSchema (leftFront ++ (elementText "x".toList "<model name=\"Z\"/>".toList "x".toList ++ q)) =
        readSchema (leftFront ++ (String.ofList "<model name=\"Z\"/>".toList ++ q))) ∧
    (readSchema (leftFront ++ "</model></dtoSchema>")).result =
      .ok ⟨"p", [⟨⟨.classType, "A", []⟩, [⟨some "nestedDTOs", .list [.text "B"]⟩]⟩]⟩ ∧
    (readSchema (leftFront ++ ("<x><model name=\"Z\"/></x>" ++ "</model></dtoSchema>"))).result =
      .ok ⟨"p", [⟨⟨.classType, "A", []⟩, [⟨some "nestedDTOs", .list [.text "B"]⟩]⟩,
        ⟨⟨.classType, "Z", []⟩, []⟩]⟩ := by
  have hsize : values (Tag.ofText sizeTag) = .ok [("name", "size")] := by decide +kernel
  have hx : values (Tag.ofText "x".toList) = .ok [] := by decide +kernel
  have hw : (documentFrom [] "<model name=\"Z\"/>".toList).WellFormed := by decide +kernel
  constructor
  · have hf : (Document.ofText modelFront).fault = none := congrArg Document.fault ofText_modelFront
    obtain ⟨hfits, hempty, hcontent⟩ := readSchema_forms hf read_modelFront brackets_size hsize
    obtain ⟨-, -, hunknown⟩ := readSchema_forms hf read_modelFront brackets_unknown hx
    rw [ofText_modelFront] at hfits hempty
    refine ⟨?_, fun q => ⟨hempty (by decide) q, ?_, ?_⟩⟩
    · rw [ofText_modelFront]
      exact hfits (by decide)
    · exact (hcontent _ hw q).1 (by decide +kernel)
    · exact (hunknown _ hw q).2.1 (by decide +kernel)
  · have hf : (Document.ofText leftFront).fault = none := congrArg Document.fault ofText_leftFront
    obtain ⟨-, -, hunknown⟩ := readSchema_forms hf read_leftFront brackets_unknown hx
    refine ⟨by rw [ofText_leftFront]; decide, by rw [ofText_leftFront]; decide, fun q => ?_,
      by decide +kernel, by decide +kernel⟩
    exact (hunknown _ hw q).2.2 rfl (by decide +kernel)

end Courier
