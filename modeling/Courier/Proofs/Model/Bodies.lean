import Courier.Proofs.Model.Elements
import Courier.Proofs.Xml.Append

/-!
The text of an argument. In a character data section it is read as it stands. With references in it,
it is read the same way where no white space stands beside a reference or at an end.
-/
namespace Courier
open Xml Reading

/-! ## References -/

theorem inText_of_hexValue {c : Char} {v : Nat} (h : Text.hexValue? c = some v) :
    (inText c && c != ';') = true := by
  by_contra hn
  have hc : (c = '<' ∨ c = '&') ∨ c = ';' := by
    by_contra hc
    simp only [not_or] at hc
    simp [inText, hc] at hn
  rcases hc with (rfl | rfl) | rfl <;> cases h

theorem number_cons {base value : Nat} {c : Char} {cs : List Char} :
    number base value (c :: cs) = match digit? base c with
      | none => .error .invalidDigit
      | some d =>
        if value * base + d < UInt32.size then number base (value * base + d) cs
        else .error .tooLarge :=
  rfl

theorem inText_of_number {base value n : Nat} {cs : List Char} (h : number base value cs = .ok n) :
    ∀ c ∈ cs, (inText c && c != ';') = true := by
  induction cs generalizing value with
  | nil => exact List.forall_mem_nil _
  | cons c cs ih =>
    rw [number_cons] at h
    cases hd : digit? base c with
    | none =>
      rw [hd] at h
      cases h
    | some d =>
      rw [hd] at h
      simp only at h
      split at h
      · refine List.forall_mem_cons.2 ⟨?_, ih h⟩
        unfold digit? at hd
        split at hd
        · rename_i hv
          exact inText_of_hexValue hv
        · cases hd
      · cases h

theorem inText_of_unsigned {base n : Nat} {cs : List Char} (h : unsigned base cs = .ok n) :
    ∀ c ∈ cs, (inText c && c != ';') = true := by
  cases cs with
  | nil => exact List.forall_mem_nil _
  | cons c cs =>
    rw [unsigned] at h
    split at h
    · cases h
    · exact inText_of_number h

theorem inText_of_resolve {name : List Char} {c : Char} (h : resolve name = .ok c) :
    ∀ x ∈ name, (inText x && x != ';') = true := by
  unfold resolve at h
  split at h
  · rename_i digits
    refine List.forall_mem_cons.2 ⟨by decide, ?_⟩
    cases hc : character digits with
    | error f =>
      rw [hc] at h
      cases h
    | ok c =>
      unfold character at hc
      extract_lets at hc
      split at hc
      · obtain ⟨code, hcode, -⟩ := bind_eq_ok.1 hc
        exact List.forall_mem_cons.2 ⟨by decide, inText_of_unsigned hcode⟩
      · obtain ⟨code, hcode, -⟩ := bind_eq_ok.1 hc
        exact inText_of_unsigned hcode
  · have hn : ∃ s ∈ ["lt", "gt", "amp", "apos", "quot"], String.ofList name = s := by
      cases hp : predefined name with
      | none =>
        rw [hp] at h
        cases h
      | some c =>
        unfold predefined at hp
        split at hp
        case h_6 => cases hp
        all_goals
          refine ⟨_, ?_, ‹String.ofList name = _›⟩
          decide
    obtain ⟨s, hs, he⟩ := hn
    have plain : ∀ s ∈ ["lt", "gt", "amp", "apos", "quot"],
        s.toList.all fun c => inText c && c != ';' := by
      decide
    have hl : name = s.toList := by rw [← he, String.toList_ofList]
    rw [hl]
    exact List.all_eq_true.1 (plain s hs)

/-! ## Bodies -/

/-- A letter that stands as itself or as a reference to it. -/
def Xml.Letter.Stands : Letter → Prop
  | .raw c => inText c
  | .reference name c => resolve name = .ok c

theorem Xml.Letter.Stands.readable {l : Letter} (h : l.Stands) : l.Readable := by
  cases l with
  | raw c => exact h
  | reference name c => exact inText_of_resolve h

theorem stands_escaped (c : Char) : (Letter.escaped c).Stands := by
  unfold Letter.escaped
  split
  case h_6 hamp hlt _ _ _ => simpa [Letter.Stands, inText] using ⟨hlt, hamp⟩
  all_goals rfl

section
variable {run text : List Char} {ls : List Letter} {ns : List Node}

/-- Nodes without elements that have a text together. -/
def Tell (ns : List Node) (text : List Char) : Prop :=
  (∀ n ∈ ns, n.isLeaf) ∧
    ∃ texts, List.Forall₂ (fun n t => nodeText n = .ok t) ns texts ∧ texts.flatten = text

theorem Tell.append {ms : List Node} {text' : List Char} (h : Tell ns text) (h' : Tell ms text') :
    Tell (ns ++ ms) (text ++ text') := by
  obtain ⟨hl, texts, ht, rfl⟩ := h
  obtain ⟨hl', texts', ht', rfl⟩ := h'
  exact ⟨List.forall_mem_append.2 ⟨hl, hl'⟩, texts ++ texts', List.rel_append ht ht', by simp⟩

theorem Tell.leaf {n : Node} (hn : n.isLeaf) (ht : nodeText n = .ok text) : Tell [n] text :=
  ⟨by simpa using hn, [text], .cons ht .nil, by simp⟩

theorem tell_textNodes (run : List Char) : Tell (textNodes run) (trimmed run) := by
  unfold textNodes
  split
  · rename_i h
    rw [h]
    exact ⟨List.forall_mem_nil _, [], .nil, rfl⟩
  · exact .leaf rfl rfl

theorem tell_nodesFrom (hl : ∀ l ∈ ls, l.Stands) : Tell (nodesFrom run ls) (keptFrom run ls) := by
  induction ls generalizing run with
  | nil => exact tell_textNodes run
  | cons l ls ih =>
    obtain ⟨hl₁, hls⟩ := List.forall_mem_cons.1 hl
    cases l with
    | raw c => exact ih hls
    | reference name c =>
      have hr : Tell [.reference name] [c] := .leaf rfl (by rw [nodeText, hl₁]; rfl)
      exact (tell_textNodes run).append (hr.append (ih hls))

end

/-! ## Arguments in a document -/

/-- The schema, from where the reader is and what is left of a document on. -/
def Reading.readRest (r : Reading) (d : Document) : Except ParseError Schema := do
  let r ← d.events.foldlM step r
  match d.fault with
  | some f => throw (.xml f)
  | none => r.finish

theorem readRest_eq_bind (r : Reading) (es : List Xml.Event) (d : Document) :
    r.readRest ⟨es ++ d.events, d.fault⟩ = es.foldlM step r >>= fun r => r.readRest d := by
  simp only [readRest, List.foldlM_append, bind_assoc]

theorem readRest_append {r r' : Reading} {es : List Xml.Event} {d : Document}
    (h : es.foldlM step r = .ok r') : r.readRest ⟨es ++ d.events, d.fault⟩ = r'.readRest d := by
  rw [readRest_eq_bind, h]
  rfl

theorem ofText_append_markup {front : String} (hf : (Document.ofText front).fault = none)
    (hn : front.toList ≠ []) : ∃ opened, ∀ cs, Document.ofText (front ++ String.ofList ('<' :: cs)) =
      ⟨(Document.ofText front).events ++ (documentFrom opened ('<' :: cs)).events,
        (documentFrom opened ('<' :: cs)).fault⟩ := by
  have hd : documentFrom [] (withoutMark front.toList) = ⟨(Document.ofText front).events, none⟩ := by
    rw [← hf, ← ofText_eq]
  obtain ⟨opened, h⟩ := documentFrom_append_markup hd
  refine ⟨opened, fun cs => ?_⟩
  rw [ofText_eq, String.toList_append, String.toList_ofList, withoutMark_append hn, h]

/-- An argument element with the text of its tag and what stands in it. -/
def argumentText (tag body : List Char) : List Char :=
  '<' :: (tag ++ '>' :: (body ++ "</argument>".toList))

/-- The text of a tag that opens an argument with a label. -/
structure OpensArgument (tag : List Char) (l : Option String) : Prop where
  inTag : InTag tag
  last : tag.getLast? ≠ some '/'
  name : (Tag.ofText tag).name = "argument"
  label : label (Tag.ofText tag) = .ok l

section
variable {tag body text rest : List Char} {l : Option String} {s : Schema} {m : Model}
  {ns : List Node}

theorem OpensArgument.brackets (h : OpensArgument tag l) : Brackets tag "argument".toList where
  inTag := h.inTag
  head := by
    have hn : tag.takeWhile (fun c => !isSpace c) = ['a', 'r', 'g', 'u', 'm', 'e', 'n', 't'] :=
      String.toList_ofList.symm.trans (congrArg String.toList h.name)
    cases tag with
    | nil => cases hn
    | cons c r =>
      rw [List.takeWhile_cons] at hn
      split at hn
      · obtain rfl : c = 'a' := (List.cons.inj hn).1
        exact ⟨_, r, rfl, by decide, by decide, by decide⟩
      · cases hn
  last := h.last
  closing := IsWord.inTag (by decide)
  name := by rw [h.name]; decide

theorem OpensArgument.yields (h : OpensArgument tag l) (hb : Fills body ns) :
    Yields (argumentText tag body) [.element (Tag.ofText tag) ns] := by
  have hclose : "</argument>".toList = '<' :: '/' :: ("argument".toList ++ ['>']) := by decide
  rw [argumentText, hclose]
  exact .element h.brackets hb

theorem OpensArgument.readNode (h : OpensArgument tag l) (ht : Tell ns text) :
    readNode ⟨some s, .directive m⟩ (.element (Tag.ofText tag) ns) =
      .ok ⟨some s, .directive (m.append [] [⟨l, .parse (String.ofList text)⟩])⟩ := by
  obtain ⟨hl, texts, hts, rfl⟩ := ht
  exact (readNode_directive_argument rfl h.name hl).2 ⟨_, ⟨l, texts, h.label, hts, rfl⟩, rfl⟩

/-- The schema that is read where an argument has been added to a model and a text is left. -/
def readBehind (s : Schema) (m : Model) (a : Argument) (opened : List (List Char)) (back : String) :
    Except ParseError Schema :=
  Reading.readRest ⟨some s, .directive (m.append [] [a])⟩ (documentFrom opened back.toList)

/-- Whatever stands behind the argument, it is in one of the models. -/
theorem argument_of_readBehind {a : Argument} {opened : List (List Char)} {back : String}
    {s' : Schema} (h : readBehind s m a opened back = .ok s') :
    ∃ m' ∈ s'.models, ∃ as, m'.arguments = m.arguments ++ a :: as := by
  obtain ⟨r, hr, hf⟩ := bind_eq_ok.1 h
  cases hd : (documentFrom opened back.toList).fault with
  | some f =>
    rw [hd] at hf
    cases hf
  | none =>
    rw [hd] at hf
    obtain ⟨ms, p, rfl, -, hk⟩ := run_found hr
    cases schema_of_finish hf
    obtain ⟨xs, as, hh⟩ := hk _ rfl
    rw [Place.model?, Option.or_none] at hh
    obtain ⟨ms, rfl⟩ := List.head?_eq_some_iff.1 hh
    exact ⟨_, List.mem_append_right _ (List.mem_cons_self ..), as, by simp [Model.append]⟩

variable {front : String}

/-- An argument behind any text that leads into a directive. -/
theorem readSchema_argument (hf : (Document.ofText front).fault = none)
    (hp : (Document.ofText front).events.foldlM step ⟨none, .outside⟩ =
      .ok ⟨some s, .directive m⟩) :
    ∃ opened, ∀ tag body l ns text (back : String), OpensArgument tag l → Fills body ns →
      Tell ns text →
      (readSchema (front ++ (String.ofList (argumentText tag body) ++ back))).result =
        readBehind s m ⟨l, .parse (String.ofList text)⟩ opened back := by
  have hn : front.toList ≠ [] := by
    intro hn
    have he : (Document.ofText front).events = [] := by
      rw [ofText_eq, hn]
      exact congrArg Document.events (documentFrom_of_nil rfl)
    rw [he] at hp
    cases hp
  obtain ⟨opened, ho⟩ := ofText_append_markup hf hn
  refine ⟨opened, fun tag body l ns text back htag hb ht => ?_⟩
  have htext : String.ofList (argumentText tag body) ++ back =
      String.ofList ('<' :: (tag ++ '>' :: (body ++ "</argument>".toList) ++ back.toList)) := by
    rw [← List.cons_append, String.ofList_append, String.ofList_toList]
    rfl
  have hread : (eventsOf [.element (Tag.ofText tag) ns]).foldlM step ⟨some s, .directive m⟩ = _ :=
    read_cons_eq_ok.2 ⟨_, htag.readNode ht, rfl⟩
  rw [htext, result_readSchema, ho]
  refine (readRest_append hp).trans ?_
  rw [← List.cons_append]
  exact (congrArg _ (htag.yields hb opened back.toList)).trans (readRest_append hread)

/-- A text in a character data section. -/
def sectionText (text : List Char) : List Char :=
  '<' :: ("![CDATA[".toList ++ (text ++ "]]>".toList))

/-- A text that is written with references is read as what is kept of it, and in a character data
section as it is. Both are the same exactly where all white space is sheltered. Every text can be
written so, with entities where a character means something in markup. -/
theorem readSchema_escaped {ls : List Letter} (hf : (Document.ofText front).fault = none)
    (hp : (Document.ofText front).events.foldlM step ⟨none, .outside⟩ =
      .ok ⟨some s, .directive m⟩)
    (ht : OpensArgument tag l) (hl : ∀ l ∈ ls, l.Stands) :
    (∃ opened, ∀ back : String,
      (readSchema (front ++ (String.ofList (argumentText tag (written ls)) ++ back))).result =
        readBehind s m ⟨l, .parse (String.ofList (kept ls))⟩ opened back ∧
      (¬ "]]>".toList <:+: spelled ls →
        (readSchema (front ++
          (String.ofList (argumentText tag (sectionText (spelled ls))) ++ back))).result =
            readBehind s m ⟨l, .parse (String.ofList (spelled ls))⟩ opened back) ∧
      ∀ a s', readBehind s m a opened back = .ok s' →
        ∃ m' ∈ s'.models, ∃ as, m'.arguments = m.arguments ++ a :: as) ∧
    (kept ls = spelled ls ↔ Sheltered ls) ∧
    ∀ cs, written (cs.map Letter.escaped) = escape cs ∧ spelled (cs.map Letter.escaped) = cs ∧
      ∀ l ∈ cs.map Letter.escaped, l.Stands := by
  obtain ⟨opened, h⟩ := readSchema_argument hf hp
  have hb : Fills (written ls) (nodesFrom [] ls) :=
    fills_nodesFrom (List.forall_mem_nil _) fun l hm => (hl l hm).readable
  refine ⟨⟨opened, fun back => ⟨h _ _ _ _ _ back ht hb (tell_nodesFrom hl), fun hc => ?_,
    fun a s' => argument_of_readBehind⟩⟩, kept_eq_iff, fun cs => ?_⟩
  · exact h _ _ _ _ _ back ht (Yields.cdata hc).fills (.leaf rfl rfl)
  · exact ⟨written_escaped cs, spelled_escaped cs, List.forall_mem_map.2 fun c _ => stands_escaped c⟩

end

/-- The beginning of a schema, up to the arguments of a model. -/
def directiveFront : String := "<dtoSchema><model name=\"A\"><directive>"

def ampersandText : List Char := "[\"A & B\"]".toList

theorem opensArgument_plain : OpensArgument "argument".toList none where
  inTag := IsWord.inTag (by decide)
  last := by decide
  name := by decide +kernel
  label := by decide +kernel

/-- The white space around a reference is lost. -/
theorem readSchema_escaped_of_ampersand :
    written (ampersandText.map Letter.escaped) = "[&quot;A &amp; B&quot;]".toList ∧
    kept (ampersandText.map Letter.escaped) = "[\"A&B\"]".toList ∧
    ¬ Sheltered (ampersandText.map Letter.escaped) ∧
    ∃ opened, ∀ back : String,
      (readSchema (directiveFront ++ (String.ofList (argumentText "argument".toList
        (written (ampersandText.map Letter.escaped))) ++ back))).result =
          readBehind ⟨"", []⟩ ⟨⟨.classType, "A", []⟩, []⟩ ⟨none, .list [.text "A&B"]⟩ opened back ∧
      (readSchema (directiveFront ++ (String.ofList (argumentText "argument".toList
        (sectionText ampersandText)) ++ back))).result =
          readBehind ⟨"", []⟩ ⟨⟨.classType, "A", []⟩, []⟩ ⟨none, .list [.text "A & B"]⟩ opened
            back := by
  have hk : kept (ampersandText.map Letter.escaped) = "[\"A&B\"]".toList := by decide +kernel
  have hlost : ArgumentValue.parse (String.ofList "[\"A&B\"]".toList) = .list [.text "A&B"] := by
    decide +kernel
  have hwhole : ArgumentValue.parse (String.ofList ampersandText) = .list [.text "A & B"] := by
    decide +kernel
  have hstands : ∀ l ∈ ampersandText.map Letter.escaped, l.Stands :=
    List.forall_mem_map.2 fun c _ => stands_escaped c
  have hdoc : Document.ofText directiveFront =
      ⟨[.start ⟨"dtoSchema", []⟩, .start ⟨"model", " name=\"A\"".toList⟩, .start ⟨"directive", []⟩],
        none⟩ := by
    decide +kernel
  have hplace : (Document.ofText directiveFront).events.foldlM step ⟨none, .outside⟩ =
      .ok ⟨some ⟨"", []⟩, .directive ⟨⟨.classType, "A", []⟩, []⟩⟩ := by
    have hschema : openSchema ⟨"dtoSchema", []⟩ = .ok ⟨"", []⟩ := by decide +kernel
    have hmodel : openModel ⟨"model", " name=\"A\"".toList⟩ =
        .ok ⟨⟨.classType, "A", []⟩, []⟩ := by
      decide +kernel
    simp only [hdoc, List.foldlM_cons, List.foldlM_nil, step, hschema, hmodel]
    rfl
  obtain ⟨⟨opened, h⟩, hs, -⟩ := readSchema_escaped (congrArg Document.fault hdoc) hplace
    opensArgument_plain hstands
  rw [spelled_escaped, hk, hlost, hwhole] at h
  rw [spelled_escaped, hk] at hs
  refine ⟨by decide, hk, fun hsh => absurd (hs.2 hsh) (by decide), opened, fun back => ?_⟩
  exact ⟨(h back).1, (h back).2.1 (by decide)⟩

end Courier
