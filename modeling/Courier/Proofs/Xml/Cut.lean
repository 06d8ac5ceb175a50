import Courier.Proofs.Xml.Writing

/-!
Documents that are cut off. What is read in front of the cut does not depend on what stands behind
it, but for a text that the cut goes through.
-/
namespace Courier.Xml

variable {cs a b rest : List Char}

/-! ## Pieces in front of a cut -/

theorem isPrefixOf_append {mark : List Char} (h : mark.isPrefixOf cs = true) (rest : List Char) :
    mark.isPrefixOf (cs ++ rest) = true := by
  rw [List.isPrefixOf_iff_prefix] at h ⊢
  exact h.trans (List.prefix_append ..)

theorem isPrefixOf_append_of_length {mark : List Char} (h : mark.length ≤ cs.length)
    (rest : List Char) : mark.isPrefixOf (cs ++ rest) = mark.isPrefixOf cs := by
  rw [Bool.eq_iff_iff, List.isPrefixOf_iff_prefix, List.isPrefixOf_iff_prefix]
  exact ⟨fun hp => List.prefix_of_prefix_length_le hp (List.prefix_append ..) h,
    fun hp => hp.trans (List.prefix_append ..)⟩

theorem length_of_splitAt_mark {mark : List Char} (h : splitAt mark cs = some (a, b)) :
    mark.length ≤ cs.length := by
  induction cs generalizing a with
  | nil => cases h
  | cons c cs ih =>
    rw [splitAt] at h
    split at h
    · rename_i hp
      exact (List.isPrefixOf_iff_prefix.1 hp).length_le
    · obtain ⟨⟨p, r⟩, hp, hab⟩ := Option.map_eq_some_iff.1 h
      cases hab
      exact Nat.le_succ_of_le (ih hp)

theorem splitAt_append {mark : List Char} (h : splitAt mark cs = some (a, b)) :
    splitAt mark (cs ++ rest) = some (a, b ++ rest) := by
  induction cs generalizing a with
  | nil => cases h
  | cons c cs ih =>
    have hl := length_of_splitAt_mark h
    have hsame := isPrefixOf_append_of_length hl rest
    rw [splitAt] at h
    rw [List.cons_append] at hsame ⊢
    rw [splitAt, hsame]
    split at h
    · rename_i hp
      cases h
      rw [if_pos hp, ← List.cons_append, List.drop_append_of_le_length hl]
    · rename_i hp
      obtain ⟨⟨p, r⟩, hr, hab⟩ := Option.map_eq_some_iff.1 h
      cases hab
      rw [if_neg hp, ih hr]
      rfl

theorem tagText_append {quote : Option Char} (h : tagText quote cs = .ok (a, b)) :
    tagText quote (cs ++ rest) = .ok (a, b ++ rest) := by
  induction cs generalizing quote a with
  | nil => cases h
  | cons c cs ih =>
    have go : ∀ {quote a}, (tagText quote cs >>= fun p => .ok (c :: p.1, p.2)) = .ok (a, b) →
        (tagText quote (cs ++ rest) >>= fun p => .ok (c :: p.1, p.2)) = .ok (a, b ++ rest) := by
      intro quote a h
      obtain ⟨⟨p, r⟩, hr, hab⟩ := bind_ok h
      cases hab
      rw [ih hr]
      rfl
    rw [List.cons_append]
    rw [tagText.eq_def] at h ⊢
    simp only at h ⊢
    cases quote with
    | some q => exact go h
    | none =>
      simp only at h ⊢
      split at h
      · rename_i hc
        cases h
        rw [if_pos hc]
      · rename_i hc
        rw [if_neg hc]
        exact go h

namespace DoctypePlace

/-- The place behind a character, unless the document type ends with it. -/
def next (place : DoctypePlace) (c : Char) (cs : List Char) : Option DoctypePlace :=
  match place with
  | before (some q) => some (before (if c = q then none else some q))
  | before none =>
    if c = '>' then none
    else if c = '[' then some subset
    else some (before (if isQuote c then some c else none))
  | subset =>
    if c = ']' then some after
    else if c = '<' then
      if "!--".toList.isPrefixOf cs then some comment
      else if "?".toList.isPrefixOf cs then some instruction
      else some (declaration none)
    else some subset
  | declaration (some q) => some (declaration (if c = q then none else some q))
  | declaration none =>
    if c = '>' then some subset else some (declaration (if isQuote c then some c else none))
  | comment =>
    if c = '-' && "->".toList.isPrefixOf cs then some (declaration none) else some comment
  | instruction =>
    if c = '?' && ">".toList.isPrefixOf cs then some (declaration none) else some instruction
  | after => if c = '>' then none else some after

/-- What a document type needs at least from a place on. It is more than the reader looks ahead. -/
def least : DoctypePlace → Nat
  | before _ | after => 1
  | subset => 2
  | declaration _ | comment | instruction => 3

variable {place following : DoctypePlace} {c : Char}

theorem least_le_of_next (h : place.next c cs = some following) :
    place.least ≤ following.least + 1 := by
  revert h
  unfold next
  repeat' split
  all_goals
    intro h
    cases h <;> simp [least]

theorem least_le_of_next_eq_none (h : place.next c cs = none) : place.least = 1 := by
  revert h
  unfold next
  repeat' split
  all_goals simp [least]

/-- The reader does not look behind what is needed. -/
theorem next_append (h : ∀ p ∈ place.next c cs, p.least ≤ cs.length) :
    place.next c (cs ++ rest) = place.next c cs := by
  have ahead : ∀ mark : String, mark.toList.length ≤ 3 → 3 ≤ cs.length →
      mark.toList.isPrefixOf (cs ++ rest) = mark.toList.isPrefixOf cs :=
    fun mark hm hl => isPrefixOf_append_of_length (Nat.le_trans hm hl) rest
  cases place with
  | subset =>
    by_cases hc : c = '<'
    · have hl : 3 ≤ cs.length := by
        revert h
        simp only [next, hc]
        repeat' split
        all_goals simp_all [least]
      simp only [next, ahead _ (show "!--".toList.length ≤ 3 by decide) hl,
        ahead _ (show "?".toList.length ≤ 3 by decide) hl]
    · simp only [next, if_neg hc]
  | comment =>
    have hl : 3 ≤ cs.length := by
      revert h
      simp only [next]
      split <;> simp [least]
    simp only [next, ahead _ (show "->".toList.length ≤ 3 by decide) hl]
  | instruction =>
    have hl : 3 ≤ cs.length := by
      revert h
      simp only [next]
      split <;> simp [least]
    simp only [next, ahead _ (show ">".toList.length ≤ 3 by decide) hl]
  | before quote | declaration quote => cases quote <;> rfl
  | after => rfl

end DoctypePlace

theorem doctypeText_cons {place : DoctypePlace} {c : Char} :
    doctypeText place (c :: cs) = match place.next c cs with
      | none => some ([], cs)
      | some following => (doctypeText following cs).map fun p => (c :: p.1, p.2) := by
  rw [doctypeText.eq_def]
  unfold DoctypePlace.next
  simp only
  repeat' split
  all_goals simp_all

theorem least_le_of_doctypeText {place : DoctypePlace} (h : doctypeText place cs = some (a, b)) :
    place.least ≤ cs.length := by
  induction cs generalizing place a with
  | nil => cases h
  | cons c cs ih =>
    rw [doctypeText_cons] at h
    split at h
    · rename_i hn
      rw [DoctypePlace.least_le_of_next_eq_none hn]
      exact Nat.succ_le_succ (Nat.zero_le _)
    · rename_i hn
      obtain ⟨⟨p, r⟩, hp, hab⟩ := Option.map_eq_some_iff.1 h
      cases hab
      exact Nat.le_trans (DoctypePlace.least_le_of_next hn) (Nat.succ_le_succ (ih hp))

theorem doctypeText_append {place : DoctypePlace} (h : doctypeText place cs = some (a, b)) :
    doctypeText place (cs ++ rest) = some (a, b ++ rest) := by
  induction cs generalizing place a with
  | nil => cases h
  | cons c cs ih =>
    rw [List.cons_append, doctypeText_cons]
    rw [doctypeText_cons] at h
    cases hn : place.next c cs with
    | none =>
      rw [hn] at h
      cases h
      rw [DoctypePlace.next_append (by simp [hn]), hn]
    | some following =>
      rw [hn] at h
      obtain ⟨⟨p, r⟩, hp, hab⟩ := Option.map_eq_some_iff.1 h
      cases hab
      have hl : following.least ≤ cs.length := least_le_of_doctypeText hp
      rw [DoctypePlace.next_append (by simpa [hn] using hl), hn]
      show (doctypeText following (cs ++ rest)).map _ = _
      rw [ih hp]
      rfl

theorem declarationPiece_doctype {c : Char} (hc : c = 'D' ∨ c = 'd') :
    declarationPiece (c :: cs) = do
      let (content, rest) ← orFault .unclosedDoctype (doctypeText (.before none) cs)
      if (content.take 6).map Char.toUpper ≠ "OCTYPE".toList then throw .unclosedDoctype
      else if (content.drop 6).all isSpace then throw .missingDoctypeName
      else return (.event .aside, rest) := by
  rcases hc with rfl | rfl <;> rfl

theorem declarationPiece_append {p : Piece} (h : declarationPiece cs = .ok (p, b)) :
    declarationPiece (cs ++ rest) = .ok (p, b ++ rest) := by
  unfold declarationPiece at h
  split at h
  · obtain ⟨⟨x, y⟩, hx, h⟩ := bind_ok h
    cases h
    simp only [List.cons_append, declarationPiece, splitAt_append (ok_of_orFault hx)]
    rfl
  · cases h
  · split at h
    · rename_i r hp
      obtain ⟨⟨x, y⟩, hx, h⟩ := bind_ok h
      cases h
      have hl : 6 ≤ r.length := (List.isPrefixOf_iff_prefix.1 hp).length_le
      simp only [List.cons_append, declarationPiece, if_pos (isPrefixOf_append hp rest),
        List.drop_append_of_le_length hl, splitAt_append (ok_of_orFault hx)]
      rfl
    · cases h
  · split at h
    · rename_i c r _ _ _ hc
      obtain ⟨⟨x, y⟩, hx, h⟩ := bind_ok h
      rw [List.cons_append, declarationPiece_doctype (by simpa using hc),
        doctypeText_append (ok_of_orFault hx)]
      simp only [orFault, Bind.bind, Except.bind] at h ⊢
      split at h
      · cases h
      · rename_i hx
        rw [if_neg hx]
        split at h
        · cases h
        · rename_i hx
          rw [if_neg hx]
          cases h
          rfl
    · cases h
  · cases h

theorem instructionPiece_append {p : Piece} (h : instructionPiece cs = .ok (p, b)) :
    instructionPiece (cs ++ rest) = .ok (p, b ++ rest) := by
  unfold instructionPiece at h
  simp only at h
  split at h
  · cases h
  · rename_i hne
    obtain ⟨⟨x, y⟩, hx, h⟩ := bind_ok h
    cases h
    cases cs with
    | nil => cases ok_of_orFault hx
    | cons c cs =>
      have hs : splitAt "?>".toList (c :: cs ++ rest) = some (x, y ++ rest) :=
        splitAt_append (ok_of_orFault hx)
      rw [List.cons_append] at hs ⊢
      unfold instructionPiece
      simp only
      split
      · rename_i heq
        cases heq
        exact absurd rfl (hne cs)
      · rw [hs]
        rfl

theorem markupPiece_append {p : Piece} (h : markupPiece cs = .ok (p, b)) :
    markupPiece (cs ++ rest) = .ok (p, b ++ rest) := by
  unfold markupPiece at h
  split at h
  · exact declarationPiece_append h
  · exact instructionPiece_append h
  · obtain ⟨⟨x, y⟩, hx, h⟩ := bind_ok h
    cases h
    simp only [List.cons_append, markupPiece, tagText_append hx]
    rfl
  · rename_i h₁ h₂ h₃
    obtain ⟨⟨x, y⟩, hx, hp⟩ := bind_ok h
    cases cs with
    | nil => cases hx
    | cons c r =>
      have hc : c ≠ '!' ∧ c ≠ '?' ∧ c ≠ '/' :=
        ⟨fun hc => h₁ r (hc ▸ rfl), fun hc => h₂ r (hc ▸ rfl), fun hc => h₃ r (hc ▸ rfl)⟩
      have hw := markupPiece_tag (List.cons_append : c :: r ++ rest = _) hc
      rw [tagText_append hx] at hw
      simp only at hp
      split at hp
      · rename_i hl
        cases hp
        rw [hw]
        simp only [Bind.bind, Except.bind, hl]
        rfl
      · rename_i hl
        cases hp
        rw [hw]
        simp only [Bind.bind, Except.bind]
        rfl

theorem dropWhile_append_of_ne_nil {q : Char → Bool} (h : cs.dropWhile q ≠ []) :
    (cs ++ rest).dropWhile q = cs.dropWhile q ++ rest := by
  rw [List.dropWhile_append, if_neg (by simpa using h)]

theorem takeWhile_append_of_ne_nil {q : Char → Bool} (h : cs.dropWhile q ≠ []) :
    (cs ++ rest).takeWhile q = cs.takeWhile q := by
  rw [List.takeWhile_append, if_neg]
  intro hl
  have hs : (cs.takeWhile q ++ cs.dropWhile q).length = cs.length :=
    congrArg List.length List.takeWhile_append_dropWhile
  rw [List.length_append, hl] at hs
  exact h (List.length_eq_zero_iff.1 (by omega))

/-- A piece with something behind it is the same whatever stands behind that. A text at the end may
go on. -/
theorem piece_append {c : Char} {p : Piece} (h : piece c cs = .ok (p, b)) (rest : List Char) :
    piece c (cs ++ rest) = .ok (p, b ++ rest) ∨
      b = [] ∧ p = .event (.text (trimEnd (c :: cs))) ∧ ∀ x ∈ c :: cs, inText x := by
  unfold piece at h ⊢
  split at h
  · rename_i hc
    rw [if_pos hc]
    exact .inl (markupPiece_append h)
  · rename_i hc
    rw [if_neg hc]
    split at h
    · rename_i hr
      rw [if_pos hr]
      split at h
      · rename_i left hn
        cases h
        have hne : cs.dropWhile (fun c => inText c && c != ';') ≠ [] := by simp [hn]
        rw [dropWhile_append_of_ne_nil hne, takeWhile_append_of_ne_nil hne, hn]
        exact .inl rfl
      · cases h
    · rename_i hr
      rw [if_neg hr]
      cases h
      by_cases hne : cs.dropWhile inText = []
      · have ht : ∀ x ∈ cs, inText x := List.dropWhile_eq_nil_iff.1 hne
        refine .inr ⟨hne, ?_, List.forall_mem_cons.2 ⟨by simp [inText, hc, hr], ht⟩⟩
        rw [List.takeWhile_eq_self_iff.2 ht]
      · rw [dropWhile_append_of_ne_nil hne, takeWhile_append_of_ne_nil hne]
        exact .inl rfl

/-! ## Documents -/

theorem documentBehind_piece (opened : List (List Char)) (p : Piece) :
    (∃ f, ∀ rest, documentBehind opened (.ok (p, rest)) = .failed f) ∨
    ∃ e opened', ∀ rest,
      documentBehind opened (.ok (p, rest)) = .cons e (documentFrom opened' rest) := by
  cases p with
  | event e => cases e <;> exact .inr ⟨_, _, fun _ => rfl⟩
  | closeTag name =>
    cases opened with
    | nil => exact .inl ⟨_, fun _ => rfl⟩
    | cons expected opened =>
      by_cases h : name = expected
      · exact .inr ⟨.close, opened, fun _ => if_pos h⟩
      · exact .inl ⟨_, fun _ => if_neg h⟩

/-- The events in front of a cut, and at most a text that it goes through. -/
theorem documentFrom_cut (opened : List (List Char)) (cs rest : List Char) :
    ∃ es, es <+: (documentFrom opened (cs ++ rest)).events ∧
      ((documentFrom opened cs).events = es ∨
        ∃ content, documentFrom opened cs = ⟨es ++ [.text content], none⟩) := by
  induction hn : cs.length using Nat.strong_induction_on generalizing opened cs with
  | _ n ih =>
    cases hd : cs.dropWhile isSpace with
    | nil =>
      rw [documentFrom_of_nil hd]
      exact ⟨[], List.nil_prefix, .inl rfl⟩
    | cons c r =>
      have hd' : (cs ++ rest).dropWhile isSpace = c :: (r ++ rest) := by
        rw [dropWhile_append_of_ne_nil (by simp [hd]), hd, List.cons_append]
      rw [documentFrom_of_cons hd, documentFrom_of_cons hd']
      cases hp : piece c r with
      | error f => exact ⟨[], List.nil_prefix, .inl rfl⟩
      | ok pb =>
        obtain ⟨p, b⟩ := pb
        rcases piece_append hp rest with hw | ⟨rfl, rfl, -⟩
        · rw [hw]
          rcases documentBehind_piece opened p with ⟨f, hf⟩ | ⟨e, opened', he⟩
          · rw [hf b]
            exact ⟨[], List.nil_prefix, .inl rfl⟩
          · have hl : b.length < n := by
              have := length_dropWhile_le isSpace cs
              have := length_of_piece hp
              simp only [hd, List.length_cons] at *
              omega
            obtain ⟨es, hes, h⟩ := ih _ hl opened' b rfl
            rw [he, he]
            refine ⟨e :: es, List.cons_prefix_cons.2 ⟨rfl, hes⟩, ?_⟩
            rcases h with h | ⟨content, h⟩
            · exact .inl (congrArg (e :: ·) h)
            · exact .inr ⟨content, by rw [h]; rfl⟩
        · -- the cut goes through a text, or stands behind one
          refine ⟨[], List.nil_prefix, .inr ⟨trimEnd (c :: r), ?_⟩⟩
          show Document.cons _ (documentFrom opened []) = _
          rw [documentFrom_of_nil rfl]
          rfl

theorem documentFrom_spaces {opened : List (List Char)} {space : List Char} (h : AllSpace space) :
    documentFrom opened (space ++ rest) = documentFrom opened rest := by
  induction space with
  | nil => rfl
  | cons c space ih =>
    obtain ⟨hc, hs⟩ := List.forall_mem_cons.1 h
    rw [List.cons_append, documentFrom_space hc, ih hs]

theorem piece_text {c : Char} (h : ∀ x ∈ c :: cs, inText x)
    (hr : ∀ x ∈ rest.head?, inText x = false) :
    piece c (cs ++ rest) = .ok (.event (.text (trimEnd (c :: cs))), rest) := by
  obtain ⟨hc, hcs⟩ := List.forall_mem_cons.1 h
  have hne : c ≠ '<' ∧ c ≠ '&' := by simpa [inText] using hc
  have hrest : rest.takeWhile inText = [] ∧ rest.dropWhile inText = rest := by
    cases rest with
    | nil => exact ⟨rfl, rfl⟩
    | cons x rest =>
      have hx : inText x = false := hr x rfl
      exact ⟨List.takeWhile_cons_of_neg (by simp [hx]), List.dropWhile_cons_of_neg (by simp [hx])⟩
  rw [piece, if_neg hne.1, if_neg hne.2, List.takeWhile_append_of_pos hcs,
    List.dropWhile_append_of_pos hcs, hrest.1, hrest.2, List.append_nil]
  rfl

/-- A text without a byte order mark at its beginning. -/
def withoutMark : List Char → List Char
  | '\ufeff' :: cs => cs
  | cs => cs

theorem ofText_eq (s : String) : Document.ofText s = documentFrom [] (withoutMark s.toList) := by
  rw [Document.ofText]
  split
  · rename_i h
    rw [h]
    rfl
  · rename_i h
    rw [withoutMark]
    exact h

theorem withoutMark_append (h : cs ≠ []) (rest : List Char) :
    withoutMark (cs ++ rest) = withoutMark cs ++ rest := by
  cases cs with
  | nil => exact absurd rfl h
  | cons c cs =>
    by_cases hc : c = '\ufeff'
    · subst hc
      rfl
    · rw [List.cons_append, withoutMark, withoutMark, List.cons_append] <;> simp [hc]

theorem ofText_cut (p q : String) : ∃ es, es <+: (Document.ofText (p ++ q)).events ∧
    ((Document.ofText p).events = es ∨
      ∃ content, Document.ofText p = ⟨es ++ [.text content], none⟩) := by
  rw [ofText_eq, ofText_eq, String.toList_append]
  by_cases hp : p.toList = []
  · rw [hp]
    exact ⟨[], List.nil_prefix, .inl (congrArg _ (documentFrom_of_nil rfl))⟩
  · rw [withoutMark_append hp]
    exact documentFrom_cut [] _ q.toList

end Courier.Xml
