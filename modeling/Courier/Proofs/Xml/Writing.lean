import Courier.Proofs.Xml.Tags
import Courier.Proofs.Xml.Tree

/-! Text that is written for nodes, and that it is read as these nodes wherever it stands. -/
namespace Courier.Xml

/-! ## Pieces -/

variable {cs t rest : List Char}

theorem markupPiece_tag {c : Char} {r : List Char} (h : cs = c :: r)
    (hc : c ≠ '!' ∧ c ≠ '?' ∧ c ≠ '/') :
    markupPiece cs = do
      let (content, rest) ← tagText none cs
      match content.getLast? with
      | some '/' => return (.event (.empty (Tag.ofText content.dropLast)), rest)
      | _ => return (.event (.start (Tag.ofText content)), rest) := by
  subst h
  rw [markupPiece.eq_def]
  split
  case h_4 => rfl
  all_goals
    rename_i h
    cases h
    simp at hc

/-- The texts in the tags of an element that is not closed at once: in the tag that opens it, and
behind the slash in the tag that ends it. -/
structure Brackets (t e : List Char) : Prop where
  inTag : InTag t
  head : ∃ c r, t = c :: r ∧ c ≠ '!' ∧ c ≠ '?' ∧ c ≠ '/'
  last : t.getLast? ≠ some '/'
  closing : InTag e
  name : closeName e = (Tag.ofText t).name.toList

theorem piece_start {e : List Char} (h : Brackets t e) :
    piece '<' (t ++ '>' :: rest) = .ok (.event (.start (Tag.ofText t)), rest) := by
  obtain ⟨c, r, ht, hc⟩ := h.head
  have hcons : t ++ '>' :: rest = c :: (r ++ '>' :: rest) := by rw [ht]; rfl
  rw [piece, if_pos rfl, markupPiece_tag hcons hc, h.inTag.tagText]
  show (match t.getLast? with
    | some '/' => _
    | _ => _) = _
  split
  · rename_i hl
    exact absurd hl h.last
  · rfl

theorem piece_empty {e : List Char} (h : Brackets t e) :
    piece '<' (t ++ '/' :: '>' :: rest) = .ok (.event (.empty (Tag.ofText t)), rest) := by
  obtain ⟨c, r, ht, hc⟩ := h.head
  have hin : InTag (t ++ ['/']) := h.inTag.append (.plain (by simp; decide))
  have htext := hin.tagText rest
  rw [List.append_assoc, List.singleton_append] at htext
  have hcons : t ++ '/' :: '>' :: rest = c :: (r ++ '/' :: '>' :: rest) := by rw [ht]; rfl
  rw [piece, if_pos rfl, markupPiece_tag hcons hc, htext]
  show (match (t ++ ['/']).getLast? with
    | some '/' => _
    | _ => _) = _
  rw [List.getLast?_concat]
  simp only [List.dropLast_concat]
  rfl

theorem piece_close {e : List Char} (h : Brackets t e) :
    piece '<' ('/' :: (e ++ '>' :: rest)) = .ok (.closeTag (Tag.ofText t).name.toList, rest) := by
  rw [piece, if_pos rfl, markupPiece, h.closing.tagText]
  show Except.ok (Piece.closeTag (closeName e), rest) = _
  rw [h.name]

theorem closeName_append {name space : List Char} (hn : name ≠ []) (hw : ∀ c ∈ name, c.isAlpha)
    (hs : AllSpace space) : closeName (name ++ space) = name := by
  have hall : ¬ (name ++ space).all isSpace := by
    rw [List.all_append, Bool.and_eq_true]
    rintro ⟨h, -⟩
    obtain ⟨c, hc⟩ := List.exists_mem_of_ne_nil _ hn
    rw [List.all_eq_true] at h
    exact absurd (h c hc) (by simp [isSpace_of_isAlpha (hw c hc)])
  have hlast : name.reverse.dropWhile isSpace = name.reverse := by
    cases hr : name.reverse with
    | nil => rfl
    | cons c cs =>
      have hc : c ∈ name := by
        rw [← List.mem_reverse, hr]
        exact List.mem_cons_self ..
      exact List.dropWhile_cons_of_neg (by simp [isSpace_of_isAlpha (hw c hc)])
  rw [closeName, if_neg hall, trimEnd, List.reverse_append,
    dropWhile_isSpace (fun c hc => hs c (List.mem_reverse.1 hc)), hlast, List.reverse_reverse]

theorem WritesTag.brackets {name : String} {kvs : List (String × String)} {space : List Char}
    (h : WritesTag name kvs t) (hw : Writable name kvs) (hs : AllSpace space) :
    Brackets t (name.toList ++ space) where
  inTag := h.inTag hw
  head := by
    obtain ⟨c, r, ht, hc⟩ := h.head hw
    exact ⟨c, r, ht, ne_of_isAlpha hc (by decide), ne_of_isAlpha hc (by decide),
      ne_of_isAlpha hc (by decide)⟩
  last := h.last hw
  closing := hw.name.inTag.append hs.inTag
  name := by rw [closeName_append hw.name.1 hw.name.2 hs, (h.ofText hw).name]

/-- A mark that ends in a character of its own is found behind a text that does not contain it. -/
theorem splitAt_mark {a b : Char} (hab : a ≠ b) (h : ¬ [a, a, b] <:+: t) :
    splitAt [a, a, b] (t ++ a :: a :: b :: rest) = some (t, rest) := by
  induction t with
  | nil => simp [splitAt]
  | cons c cs ih =>
    have hp : [a, a, b].isPrefixOf (c :: (cs ++ a :: a :: b :: rest)) = false := by
      rw [Bool.eq_false_iff]
      intro hp
      obtain ⟨r, hr⟩ := List.isPrefixOf_iff_prefix.1 hp
      rcases cs with _ | ⟨d, _ | ⟨e, cs⟩⟩
      · simp_all
      · simp_all
      · simp only [List.cons_append, List.nil_append, List.cons.injEq] at hr
        obtain ⟨rfl, rfl, rfl, -⟩ := hr
        exact h ⟨[], cs, rfl⟩
    have hi : ¬ [a, a, b] <:+: cs := fun hi => h (hi.trans (List.infix_cons List.infix_rfl))
    rw [List.cons_append, splitAt, if_neg (by simp [hp]), ih hi]
    rfl

theorem piece_comment (h : ¬ "-->".toList <:+: t) :
    piece '<' ("!--".toList ++ (t ++ "-->".toList ++ rest)) = .ok (.event .aside, rest) := by
  have hs : splitAt "-->".toList (t ++ '-' :: '-' :: '>' :: rest) = some (t, rest) :=
    splitAt_mark (by decide) h
  rw [piece, if_pos rfl, List.append_assoc]
  show orFault _ (splitAt "-->".toList (t ++ '-' :: '-' :: '>' :: rest)) >>= _ = _
  rw [hs]
  rfl

theorem piece_cdata (h : ¬ "]]>".toList <:+: t) :
    piece '<' ("![CDATA[".toList ++ (t ++ "]]>".toList ++ rest)) = .ok (.event (.cdata t), rest) := by
  have hs : splitAt "]]>".toList (t ++ ']' :: ']' :: '>' :: rest) = some (t, rest) :=
    splitAt_mark (by decide) h
  rw [piece, if_pos rfl, List.append_assoc]
  show orFault _ (splitAt "]]>".toList (t ++ ']' :: ']' :: '>' :: rest)) >>= _ = _
  rw [hs]
  rfl

/-! ## Documents -/

section
variable {opened : List (List Char)} {c : Char} {r : List Char}

/-- The document from a piece on. -/
def documentBehind (opened : List (List Char)) : Except Fault (Piece × List Char) → Document
  | .error f => .failed f
  | .ok (.event (.start tag), rest) =>
    .cons (.start tag) (documentFrom (tag.name.toList :: opened) rest)
  | .ok (.event e, rest) => .cons e (documentFrom opened rest)
  | .ok (.closeTag name, rest) =>
    match opened with
    | [] => .failed (.unmatchedEnd (String.ofList name))
    | expected :: opened =>
      if name = expected then .cons .close (documentFrom opened rest)
      else .failed (.mismatchedEnd (String.ofList expected) (String.ofList name))

theorem documentFrom_of_nil (h : cs.dropWhile isSpace = []) : documentFrom opened cs = .ended := by
  rw [documentFrom.eq_def]
  split
  · rfl
  · rename_i h₀
    cases h.symm.trans h₀

theorem documentFrom_of_cons (h : cs.dropWhile isSpace = c :: r) :
    documentFrom opened cs = documentBehind opened (piece c r) := by
  rw [documentFrom.eq_def]
  split
  · rename_i h₀
    cases h.symm.trans h₀
  · rename_i h₀
    cases h.symm.trans h₀
    split
    · rename_i h₁
      rw [h₁]
      rfl
    · rename_i e _ h₁
      refine Eq.trans ?_ (congrArg (documentBehind opened) h₁).symm
      cases e <;> rfl
    · rename_i h₁
      rw [h₁]
      rfl

theorem documentFrom_space (hc : isSpace c) :
    documentFrom opened (c :: r) = documentFrom opened r := by
  have hd : (c :: r).dropWhile isSpace = r.dropWhile isSpace := List.dropWhile_cons_of_pos hc
  cases h : r.dropWhile isSpace with
  | nil => rw [documentFrom_of_nil h, documentFrom_of_nil (hd.trans h)]
  | cons => rw [documentFrom_of_cons h, documentFrom_of_cons (hd.trans h)]

theorem documentFrom_markup : documentFrom opened ('<' :: r) = documentBehind opened (piece '<' r) :=
  documentFrom_of_cons (List.dropWhile_cons_of_neg (by decide))

end

/-- The text is read as the nodes, whatever stands in front of it and behind it. -/
def Yields (cs : List Char) (ns : List Node) : Prop :=
  ∀ opened rest, documentFrom opened (cs ++ rest) =
    ⟨eventsOf ns ++ (documentFrom opened rest).events, (documentFrom opened rest).fault⟩

/-- The text is read as the nodes wherever markup stands behind it. -/
def Fills (cs : List Char) (ns : List Node) : Prop :=
  ∀ opened rest, documentFrom opened (cs ++ '<' :: rest) =
    ⟨eventsOf ns ++ (documentFrom opened ('<' :: rest)).events,
      (documentFrom opened ('<' :: rest)).fault⟩

namespace Yields

variable {bs : List Char} {ns ms : List Node}

theorem fills (h : Yields cs ns) : Fills cs ns := fun opened rest => h opened ('<' :: rest)

theorem nil : Yields [] [] := fun _ _ => rfl

theorem append (h : Yields cs ns) (h' : Yields bs ms) : Yields (cs ++ bs) (ns ++ ms) := by
  intro opened rest
  rw [List.append_assoc, h, h', eventsOf_append, List.append_assoc]

theorem space {c : Char} (hc : isSpace c) : Yields [c] [] := fun _ _ => documentFrom_space hc

/-- Markup that is read as one event. -/
theorem markup {n : Node} {e : Event} (he : n.events = [e]) (hs : ∀ tag, e ≠ .start tag)
    (h : ∀ rest, piece '<' (cs ++ rest) = .ok (.event e, rest)) : Yields ('<' :: cs) [n] := by
  intro opened rest
  rw [List.cons_append, documentFrom_markup, h, eventsOf, he]
  cases e with
  | start tag => exact absurd rfl (hs tag)
  | _ => rfl

theorem comment (h : ¬ "-->".toList <:+: t) :
    Yields ('<' :: ("!--".toList ++ (t ++ "-->".toList))) [.aside] := by
  refine markup rfl (fun tag => nofun) fun rest => ?_
  rw [List.append_assoc]
  exact piece_comment h

theorem cdata (h : ¬ "]]>".toList <:+: t) :
    Yields ('<' :: ("![CDATA[".toList ++ (t ++ "]]>".toList))) [.cdata t] := by
  refine markup rfl (fun tag => nofun) fun rest => ?_
  rw [List.append_assoc]
  exact piece_cdata h

theorem empty {e : List Char} (h : Brackets t e) :
    Yields ('<' :: (t ++ "/>".toList)) [.empty (Tag.ofText t)] := by
  refine markup rfl (fun tag => nofun) fun rest => ?_
  rw [List.append_assoc]
  exact piece_empty h

theorem element {e : List Char} (h : Brackets t e) (hb : Fills bs ns) :
    Yields ('<' :: (t ++ '>' :: (bs ++ '<' :: '/' :: (e ++ ['>'])))) [.element (Tag.ofText t) ns] := by
  intro opened rest
  have hclose : documentFrom ((Tag.ofText t).name.toList :: opened)
      ('<' :: '/' :: (e ++ '>' :: rest)) = .cons .close (documentFrom opened rest) := by
    rw [documentFrom_markup, piece_close h]
    exact if_pos rfl
  simp only [List.cons_append, List.append_assoc, List.nil_append]
  rw [documentFrom_markup, piece_start h]
  show Document.cons _ (documentFrom ((Tag.ofText t).name.toList :: opened) _) = _
  rw [hb, hclose]
  simp [Document.cons, eventsOf, Node.events]

/-- A document whose text yields nodes has these nodes. -/
theorem ofText (h : Yields cs ns) (hc : cs.head? ≠ some '\ufeff') :
    Document.ofText (String.ofList cs) = .ofNodes ns := by
  have hd : documentFrom [] cs = .ofNodes ns := by
    have h := h [] []
    have hn : documentFrom [] [] = .ended := documentFrom_of_nil rfl
    rw [List.append_nil, hn] at h
    rw [h]
    simp [Document.ended, Document.ofNodes]
  rw [Document.ofText, String.toList_ofList]
  split
  · exact absurd rfl hc
  · exact hd

end Yields

/-! ## Elements -/

/-- White space and comments. -/
inductive Gap : List Char → Prop
  | nil : Gap []
  | space {c : Char} {cs : List Char} : isSpace c → Gap cs → Gap (c :: cs)
  | comment {t cs : List Char} : ¬ "-->".toList <:+: t → Gap cs →
      Gap ('<' :: ("!--".toList ++ (t ++ "-->".toList)) ++ cs)

/-- An element with its content. Where there may be none, it may also be closed at once. -/
def WritesElement (name : String) (kvs : List (String × String)) (content : List Char → Prop)
    (cs : List Char) : Prop :=
  ∃ t, WritesTag name kvs t ∧
    ((∃ body space, content body ∧ AllSpace space ∧
      cs = '<' :: (t ++ '>' :: (body ++ '<' :: '/' :: (name.toList ++ (space ++ ['>']))))) ∨
    (content [] ∧ cs = '<' :: (t ++ "/>".toList)))

/-- The texts for the members of a list, with anything that says nothing between them. -/
inductive WritesAll {α : Type} (writes : α → List Char → Prop) : List α → List Char → Prop
  | nil {gap : List Char} : Gap gap → WritesAll writes [] gap
  | cons {gap cs rest : List Char} {a : α} {as : List α} : Gap gap → writes a cs →
      WritesAll writes as rest → WritesAll writes (a :: as) (gap ++ (cs ++ rest))

theorem Gap.yields (h : Gap cs) : ∃ k, Yields cs (List.replicate k .aside) := by
  induction h with
  | nil => exact ⟨0, .nil⟩
  | space hc _ ih =>
    obtain ⟨k, ih⟩ := ih
    exact ⟨k, (Yields.space hc).append ih⟩
  | comment ht _ ih =>
    obtain ⟨k, ih⟩ := ih
    exact ⟨k + 1, (Yields.comment ht).append ih⟩

theorem eq_nil_of_yields {ns : List Node} (h : Yields [] ns) : ns = [] := by
  have h := congrArg Document.events (h [] [])
  rw [List.append_nil, documentFrom_of_nil rfl] at h
  cases ns with
  | nil => rfl
  | cons n ns => cases n <;> simp [eventsOf, Node.events, Document.ended] at h

theorem WritesElement.yields {name : String} {kvs : List (String × String)}
    {content : List Char → Prop} {P : List Node → Prop} (h : WritesElement name kvs content cs)
    (hw : Writable name kvs) (hc : ∀ body, content body → ∃ ns, Yields body ns ∧ P ns) :
    ∃ n e, Yields cs [n] ∧ n.element? = some e ∧ e.tag.Says name kvs ∧ P e.content := by
  obtain ⟨t, ht, ⟨body, space, hb, hs, rfl⟩ | ⟨hb, rfl⟩⟩ := h
  · obtain ⟨ns, hn, hp⟩ := hc body hb
    have hy := Yields.element (ht.brackets hw hs) hn.fills
    simp only [List.append_assoc] at hy
    exact ⟨_, ⟨Tag.ofText t, ns⟩, hy, rfl, ht.ofText hw, hp⟩
  · obtain ⟨ns, hn, hp⟩ := hc [] hb
    cases eq_nil_of_yields hn
    exact ⟨_, ⟨Tag.ofText t, []⟩, .empty (ht.brackets hw (List.forall_mem_nil _)), rfl,
      ht.ofText hw, hp⟩

/-- A document that begins with an element or with what may stand in front of it has no byte order
mark. -/
theorem head_ne_mark {name : String} {kvs : List (String × String)} {content : List Char → Prop}
    {gap rest : List Char} (hg : Gap gap) (h : WritesElement name kvs content cs) :
    (gap ++ (cs ++ rest)).head? ≠ some '\ufeff' := by
  have hc : ∃ r, cs = '<' :: r := by
    obtain ⟨t, -, ⟨body, space, -, -, rfl⟩ | ⟨-, rfl⟩⟩ := h <;> exact ⟨_, rfl⟩
  obtain ⟨r, rfl⟩ := hc
  intro he
  cases hg with
  | nil | comment => exact absurd (Option.some.inj he) (by decide)
  | space hs =>
    cases Option.some.inj he
    exact absurd hs (by decide)

theorem elements_append (ns ms : List Node) : elements (ns ++ ms) = elements ns ++ elements ms :=
  List.filterMap_append ..

theorem elements_replicate_aside (k : Nat) : elements (List.replicate k .aside) = [] := by
  simp [elements, Node.element?]

theorem WritesAll.yields {α : Type} {writes : α → List Char → Prop} {R : α → Element → Prop}
    {as : List α} (h : WritesAll writes as cs)
    (hr : ∀ a ∈ as, ∀ cs, writes a cs → ∃ n e, Yields cs [n] ∧ n.element? = some e ∧ R a e) :
    ∃ ns, Yields cs ns ∧ List.Forall₂ R as (elements ns) := by
  induction h with
  | nil hg =>
    obtain ⟨k, hk⟩ := hg.yields
    exact ⟨_, hk, by rw [elements_replicate_aside]; exact .nil⟩
  | cons hg ha _ ih =>
    obtain ⟨hr₁, hr⟩ := List.forall_mem_cons.1 hr
    obtain ⟨k, hk⟩ := hg.yields
    obtain ⟨n, e, hn, he, hra⟩ := hr₁ _ ha
    obtain ⟨ns, hns, ih⟩ := ih hr
    refine ⟨_, hk.append (hn.append hns), ?_⟩
    rw [elements_append, elements_append, elements_replicate_aside]
    simpa [elements, he] using ⟨hra, ih⟩

/-! ## Every list of attributes and every element can be written -/

theorem exists_writesAttributes (kvs : List (String × String)) : ∃ cs, WritesAttributes kvs cs := by
  induction kvs with
  | nil => exact ⟨[], .nil (List.forall_mem_nil _)⟩
  | cons kv kvs ih =>
    obtain ⟨cs, ih⟩ := ih
    have hs : AllSpace [' '] := by simp [AllSpace, isSpace]
    have hq : isQuote '"' := rfl
    exact ⟨_, .cons (List.cons_ne_nil _ _) hs hq ih⟩

theorem exists_writesElement (name : String) (kvs : List (String × String))
    (content : List Char → Prop) {body : List Char} (hb : content body) :
    ∃ cs, WritesElement name kvs content cs := by
  obtain ⟨attributes, ha⟩ := exists_writesAttributes kvs
  exact ⟨_, _, ⟨kvs, attributes, .refl _, ha, rfl⟩,
    .inl ⟨body, [], hb, List.forall_mem_nil _, rfl⟩⟩

theorem exists_writesAll {α : Type} (writes : α → List Char → Prop) {as : List α}
    (h : ∀ a ∈ as, ∃ cs, writes a cs) : ∃ cs, WritesAll writes as cs := by
  induction as with
  | nil => exact ⟨[], .nil .nil⟩
  | cons a as ih =>
    obtain ⟨⟨cs, ha⟩, h⟩ := List.forall_mem_cons.1 h
    obtain ⟨rest, ih⟩ := ih h
    exact ⟨_, .cons .nil ha ih⟩

end Courier.Xml
