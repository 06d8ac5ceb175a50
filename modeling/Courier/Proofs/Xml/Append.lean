import Courier.Proofs.Xml.Body

/-!
Documents that go on. What is read of a text stays when another one is put behind it, but for a run of
text at its end, and elements that are open around it make no difference.
-/
namespace Courier.Xml

variable {cs b rest run : List Char} {opened names : List (List Char)} {es : List Event} {p : Piece}

/-! ## Open elements -/

theorem openElements_append (n : Nat) (es fs : List Event) :
    openElements n (es ++ fs) = (openElements n es).bind fun m => openElements m fs := by
  fun_induction openElements n es with
  | case1 => rfl
  | case2 n tag es ih => exact ih
  | case3 => rfl
  | case4 n es ih => exact ih
  | case5 n e es h₁ h₂ h₃ ih =>
    rw [List.cons_append, ← ih]
    cases e with
    | start tag => exact absurd rfl (h₁ tag)
    | close =>
      cases n with
      | zero => exact absurd rfl (h₂ rfl)
      | succ n => exact absurd rfl (h₃ n rfl)
    | _ => rw [openElements] <;> simp

theorem declarationPiece_ne_close (h : declarationPiece cs = .ok (p, b)) : p ≠ .event .close := by
  unfold declarationPiece at h
  split at h
  · obtain ⟨_, -, h⟩ := bind_ok h
    cases h
    simp
  · cases h
  · split at h
    · obtain ⟨_, -, h⟩ := bind_ok h
      cases h
      simp
    · cases h
  · split at h
    · obtain ⟨⟨x, y⟩, -, h⟩ := bind_ok h
      simp only at h
      split at h
      · cases h
      · split at h
        · cases h
        · cases h
          simp
    · cases h
  · cases h

theorem instructionPiece_ne_close (h : instructionPiece cs = .ok (p, b)) : p ≠ .event .close := by
  unfold instructionPiece at h
  simp only at h
  split at h
  · cases h
  · obtain ⟨_, -, h⟩ := bind_ok h
    cases h
    simp

/-- An event is no end: ends are matched with the elements that they end. -/
theorem piece_ne_close {c : Char} (h : piece c cs = .ok (p, b)) : p ≠ .event .close := by
  unfold piece at h
  split at h
  · unfold markupPiece at h
    split at h
    · exact declarationPiece_ne_close h
    · exact instructionPiece_ne_close h
    · obtain ⟨_, -, h⟩ := bind_ok h
      cases h
      simp
    · obtain ⟨⟨x, y⟩, -, h⟩ := bind_ok h
      simp only at h
      split at h <;>
      · cases h
        simp
  · split at h
    · split at h <;> cases h
      simp
    · cases h
      simp

/-- What a piece comes to where elements are open, whatever is open around them. -/
theorem documentBehind_frame (hp : p ≠ .event .close) (opened : List (List Char)) :
    (∃ f, ∀ rest, documentBehind opened (.ok (p, rest)) = .failed f) ∨
    ∃ e names, openElements opened.length [e] = some names.length ∧
      ∀ more rest, documentBehind (opened ++ more) (.ok (p, rest)) =
        .cons e (documentFrom (names ++ more) rest) := by
  cases p with
  | event e =>
    right
    cases e with
    | start tag => exact ⟨_, tag.name.toList :: opened, rfl, fun _ _ => rfl⟩
    | close => exact absurd rfl hp
    | empty tag => exact ⟨_, opened, rfl, fun _ _ => rfl⟩
    | text content => exact ⟨_, opened, rfl, fun _ _ => rfl⟩
    | cdata content => exact ⟨_, opened, rfl, fun _ _ => rfl⟩
    | reference name => exact ⟨_, opened, rfl, fun _ _ => rfl⟩
    | aside => exact ⟨_, opened, rfl, fun _ _ => rfl⟩
  | closeTag name =>
    cases opened with
    | nil => exact .inl ⟨_, fun _ => rfl⟩
    | cons expected opened =>
      by_cases h : name = expected
      · exact .inr ⟨.close, opened, rfl, fun _ _ => if_pos h⟩
      · exact .inl ⟨_, fun _ => if_neg h⟩

/-! ## Texts that go on -/

/-- A text that can go on: it is read as some events and a run of text, which may be longer with
something behind it, and leaves elements open. -/
structure GoesOn (opened : List (List Char)) (cs : List Char) (es : List Event) (run : List Char)
    (names : List (List Char)) : Prop where
  text : ∀ x ∈ run, inText x
  depth : openElements opened.length es = some names.length
  append : ∀ more rest, documentFrom (opened ++ more) (cs ++ rest) =
    ⟨es ++ (documentFrom (names ++ more) (run ++ rest)).events,
      (documentFrom (names ++ more) (run ++ rest)).fault⟩

theorem inText_of_isSpace {c : Char} (h : isSpace c) : inText c := by
  by_contra hn
  have hc : c = '<' ∨ c = '&' := by
    by_contra hc
    simp only [not_or] at hc
    simp [inText, hc] at hn
  rcases hc with rfl | rfl <;> cases h

/-- What stands behind a piece does not change it where the text has more than text in it. -/
theorem piece_append_of_not_inText {cs r b : List Char} {c : Char} {p : Piece}
    (ht : ¬∀ x ∈ cs, inText x) (hd : cs.dropWhile isSpace = c :: r) (hp : piece c r = .ok (p, b))
    (rest : List Char) : piece c (r ++ rest) = .ok (p, b ++ rest) := by
  refine (piece_append hp rest).resolve_right ?_
  rintro ⟨-, -, hr⟩
  refine ht fun x hx => ?_
  rw [← List.takeWhile_append_dropWhile (p := isSpace) (l := cs), hd] at hx
  rcases List.mem_append.1 hx with hx | hx
  · exact inText_of_isSpace (List.mem_takeWhile_imp hx)
  · exact hr x hx

/-- Every text without a fault can go on. -/
theorem exists_goesOn (h : (documentFrom opened cs).fault = none) :
    ∃ es run names, GoesOn opened cs es run names := by
  induction hn : cs.length using Nat.strong_induction_on generalizing opened cs with
  | _ n ih =>
    by_cases ht : ∀ x ∈ cs, inText x
    · exact ⟨[], cs, opened, ht, rfl, fun _ _ => rfl⟩
    · cases hd : cs.dropWhile isSpace with
      | nil => exact absurd (fun x hx => inText_of_isSpace (List.dropWhile_eq_nil_iff.1 hd x hx)) ht
      | cons c r =>
        have hd' : ∀ rest, (cs ++ rest).dropWhile isSpace = c :: (r ++ rest) := fun rest => by
          rw [dropWhile_append_of_ne_nil (by simp [hd]), hd, List.cons_append]
        rw [documentFrom_of_cons hd] at h
        cases hp : piece c r with
        | error f =>
          rw [hp] at h
          cases h
        | ok pb =>
          obtain ⟨p, b⟩ := pb
          have hpiece := piece_append_of_not_inText ht hd hp
          rw [hp] at h
          rcases documentBehind_frame (piece_ne_close hp) opened with ⟨f, hf⟩ | ⟨e, names, he, hb⟩
          · rw [hf b] at h
            cases h
          · have hl : b.length < n := by
              have := length_dropWhile_le isSpace cs
              have := length_of_piece hp
              simp only [hd, List.length_cons] at *
              omega
            have hrest : (documentFrom names b).fault = none := by
              have hb := hb [] b
              rw [List.append_nil, List.append_nil] at hb
              rw [hb] at h
              exact h
            obtain ⟨es, run, names', hg⟩ := ih _ hl hrest rfl
            refine ⟨e :: es, run, names', hg.text, ?_, fun more rest => ?_⟩
            · rw [← List.singleton_append, openElements_append, he]
              exact hg.depth
            · rw [documentFrom_of_cons (hd' rest), hpiece, hb, hg.append]
              rfl

namespace GoesOn

theorem eq (h : GoesOn opened cs es run names) :
    documentFrom opened cs = ⟨es ++ eventsOf (textNodes run), none⟩ := by
  have ha := h.append [] []
  have hn : documentFrom names [] = .ended := documentFrom_of_nil rfl
  rw [List.append_nil, List.append_nil, List.append_nil, documentFrom_run h.text (by simp), hn] at ha
  rw [ha]
  simp [Document.ended]

theorem append_markup (h : GoesOn opened cs es run names) (more : List (List Char))
    (rest : List Char) : documentFrom (opened ++ more) (cs ++ '<' :: rest) =
      ⟨es ++ eventsOf (textNodes run) ++ (documentFrom (names ++ more) ('<' :: rest)).events,
        (documentFrom (names ++ more) ('<' :: rest)).fault⟩ := by
  rw [h.append, documentFrom_run h.text (fun x hx => by cases hx; rfl), List.append_assoc]

end GoesOn

/-- What is read of a text stays when markup stands behind it. -/
theorem documentFrom_append_markup (h : documentFrom opened cs = ⟨es, none⟩) :
    ∃ opened', ∀ rest, documentFrom opened (cs ++ '<' :: rest) =
      ⟨es ++ (documentFrom opened' ('<' :: rest)).events,
        (documentFrom opened' ('<' :: rest)).fault⟩ := by
  obtain ⟨es', run, names, hg⟩ := exists_goesOn (congrArg Document.fault h)
  have he : es' ++ eventsOf (textNodes run) = es := congrArg Document.events (hg.eq.symm.trans h)
  refine ⟨names, fun rest => ?_⟩
  have ha := hg.append_markup [] rest
  rwa [List.append_nil, List.append_nil, he] at ha

theorem openElements_textNodes (n : Nat) (run : List Char) :
    openElements n (eventsOf (textNodes run)) = some n := by
  unfold textNodes
  split <;> cases n <;> rfl

theorem GoesOn.fills {ns : List Node} (h : GoesOn [] cs es run [])
    (he : es ++ eventsOf (textNodes run) = eventsOf ns) : Fills cs ns := by
  intro opened rest
  have ha := h.append_markup opened rest
  rwa [he] at ha

/-- A well-formed text is read as nodes. It leaves no element open, so that it is read alike in any
element. -/
theorem exists_goesOn_nodes (h : (documentFrom [] cs).WellFormed) :
    ∃ ns es run, GoesOn [] cs es run [] ∧ es ++ eventsOf (textNodes run) = eventsOf ns := by
  obtain ⟨ns, hns⟩ := h.exists_nodes
  obtain ⟨es, run, names, hg⟩ := exists_goesOn h.1
  have hl : names = [] := by
    have hd : openElements 0 es = some names.length := hg.depth
    have ho := h.2
    rw [hg.eq, openElements_append, hd] at ho
    exact List.length_eq_zero_iff.1 (Option.some.inj ((openElements_textNodes ..).symm.trans ho))
  subst hl
  exact ⟨ns, es, run, hg, congrArg Document.events (hg.eq.symm.trans hns)⟩

end Courier.Xml
