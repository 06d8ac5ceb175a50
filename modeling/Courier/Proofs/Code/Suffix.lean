import Courier.Proofs.Code.Front
import Courier.Proofs.Code.Names
import Courier.Proofs.Code.Progress

/-!
Letters behind a text. Where a text spells an identifier, the text with letters behind it spells
the identifier with these letters, unless a comment takes them or something parts them from it.
-/
namespace Courier.Code
open Text

variable {c d : Char} {cs r t name body letters : List Char} {x : String}

/-! ## Comments -/

/-- A comment begins that the end of its line would end, and the text ends first. -/
def OpenComment (cs : List Char) : Prop := ∃ body, cs = '/' :: '/' :: body ∧ '\n' ∉ body

/-- Letters stand behind what is left of a text, unless a comment takes them. -/
def Behind (letters cs r t : List Char) : Prop := t = r ++ letters ∨ OpenComment cs ∧ r = [] ∧ t = []

theorem lineComment_append (h : '\n' ∉ letters) (cs : List Char) :
    (lineComment (cs ++ letters)).2 = (lineComment cs).2 ++ letters ∨
      '\n' ∉ cs ∧ (lineComment cs).2 = [] ∧ (lineComment (cs ++ letters)).2 = [] := by
  rw [lineComment_rest, lineComment_rest, List.dropWhile_append]
  split
  · rename_i he
    have hcs := List.dropWhile_eq_nil_iff.1 (List.isEmpty_iff.1 he)
    refine .inr ⟨fun hn => absurd (hcs _ hn) (by decide), List.isEmpty_iff.1 he, ?_⟩
    rw [List.dropWhile_eq_nil_iff]
    simpa using fun d hd (hn : d = '\n') => h (hn ▸ hd)
  · exact .inl rfl

theorem blockComment_append {depth : Nat} (h : blockComment depth cs = some (body, r))
    (t : List Char) : blockComment depth (cs ++ t) = some (body, r ++ t) := by
  fun_induction blockComment depth cs generalizing body with
  | case1 depth u ih =>
    obtain ⟨p, hp, h⟩ := Option.map_eq_some_iff.1 h
    cases h
    simp [blockComment, ih hp]
  | case2 u =>
    cases h
    rfl
  | case3 u d ih =>
    obtain ⟨p, hp, h⟩ := Option.map_eq_some_iff.1 h
    cases h
    simp [blockComment, ih hp]
  | case4 depth c u hopen hclose ih =>
    obtain ⟨p, hp, h⟩ := Option.map_eq_some_iff.1 h
    cases h
    cases u with
    | nil => cases hp
    | cons d u =>
      rw [List.cons_append, List.cons_append, blockComment, ← List.cons_append, ih hp]
      · rfl
      · rintro v rfl hv
        obtain ⟨rfl, -⟩ := List.cons.inj hv
        exact hopen _ rfl rfl
      · rintro v rfl hv
        obtain ⟨rfl, -⟩ := List.cons.inj hv
        exact hclose _ rfl rfl
  | case5 => cases h

theorem docStep_ne_skip {inner : Bool} : docStep inner body cs ≠ .skip r := by
  rw [docStep]
  split <;> simp

theorem commentStep_line (h : cs.head? ≠ some '!') (h' : cs.head? ≠ some '/') :
    commentStep ('/' :: '/' :: cs) = .skip (lineComment cs).2 := by
  cases cs with
  | nil => rfl
  | cons c cs =>
    unfold commentStep
    split <;> simp_all

/-- The step over a block comment, by its content. -/
def blockStep (content rest : List Char) : Step :=
  match content with
  | '!' :: content => docStep true content rest
  | '*' :: '*' :: _ => .skip rest
  | '*' :: content => docStep false content rest
  | _ => .skip rest

theorem commentStep_block (h : ∀ u, cs ≠ '*' :: '/' :: u) (hb : blockComment 0 cs = some (body, r)) :
    commentStep ('/' :: '*' :: cs) = blockStep body r := by
  unfold commentStep blockStep
  split <;> simp_all
  split <;> simp_all

theorem blockStep_skip (h : blockStep body cs = .skip r) :
    r = cs ∧ ∀ t, blockStep body t = .skip t := by
  unfold blockStep at h ⊢
  split at h
  · exact absurd h docStep_ne_skip
  · cases h
    exact ⟨rfl, fun _ => rfl⟩
  · exact absurd h docStep_ne_skip
  · cases h
    exact ⟨rfl, fun _ => rfl⟩

theorem head?_append_ne (hl : isPlainName letters = true) (hd : (d.isAlphanum || d == '_') = false)
    (h : cs.head? ≠ some d) : (cs ++ letters).head? ≠ some d := by
  cases cs with
  | nil =>
    intro hm
    rw [mem_of_isPlainName hl (List.mem_of_head? hm)] at hd
    cases hd
  | cons => exact h

/-- A block comment is closed, so what stands behind it does not matter. -/
theorem commentStep_block_append (hu : ∀ u, cs ≠ '*' :: '/' :: u)
    (hb : blockComment 0 cs = some (body, t)) (h : commentStep ('/' :: '*' :: cs) = .skip r) :
    r = t ∧ commentStep ('/' :: '*' :: (cs ++ letters)) = .skip (t ++ letters) := by
  have hu' : ∀ v, cs ++ letters ≠ '*' :: '/' :: v := by
    rcases cs with _ | ⟨a, _ | ⟨b, w⟩⟩
    · cases hb
    · simp [blockComment] at hb
    · rintro v hv
      cases hv
      exact hu _ rfl
  obtain ⟨rfl, hskip⟩ := blockStep_skip ((commentStep_block hu hb).symm.trans h)
  exact ⟨rfl, (commentStep_block hu' (blockComment_append hb letters)).trans (hskip _)⟩

theorem commentStep_append (hl : isPlainName letters = true) (h : commentStep cs = .skip r) :
    ∃ t, Behind letters cs r t ∧ commentStep (cs ++ letters) = .skip t := by
  have hline : ∀ slashes u, '\n' ∉ slashes →
      Behind letters ('/' :: '/' :: (slashes ++ u)) (lineComment u).2 (lineComment (u ++ letters)).2 := by
    intro slashes u hs
    refine (lineComment_append (fun hm => absurd (mem_of_isPlainName hl hm) (by decide)) u).imp_right ?_
    exact .imp_left fun hu => ⟨_, rfl, List.not_mem_append hs hu⟩
  have hs := h
  unfold commentStep at h
  split at h
  · exact absurd h docStep_ne_skip
  · cases h
    exact ⟨_, hline ['/', '/'] _ (by decide), rfl⟩
  · exact absurd h docStep_ne_skip
  · rename_i u hinner _ houter
    cases h
    refine ⟨_, hline [] u List.not_mem_nil, commentStep_line
      (head?_append_ne hl (by decide) ?_) (head?_append_ne hl (by decide) ?_)⟩
    · cases u <;> simp_all
    · cases u <;> simp_all
  · cases h
    exact ⟨_, .inl rfl, rfl⟩
  · rename_i u hu
    cases hb : blockComment 0 u with
    | none =>
      rw [hb] at h
      cases h
    | some p =>
      obtain ⟨rfl, hskip⟩ := commentStep_block_append hu hb hs
      exact ⟨_, .inl rfl, hskip⟩
  · cases h

/-! ## Steps that skip -/

theorem nextStep_of_atComment (h : atComment cs = true) : nextStep cs = commentStep cs := by
  cases cs with
  | nil => cases h
  | cons c cs =>
    unfold nextStep
    simp only [h, if_true]

theorem atComment_append (h : atComment cs = true) (t : List Char) : atComment (cs ++ t) = true := by
  unfold atComment at h
  split at h
  · rfl
  · rfl
  · cases h

theorem atComment_cons (h : c ≠ '/') (cs : List Char) : atComment (c :: cs) = false := by
  unfold atComment
  split
  · exact absurd (List.cons.inj ‹_›).1 h
  · exact absurd (List.cons.inj ‹_›).1 h
  · rfl

theorem nextStep_of_isSpacing (h : isSpacing c = true) (cs : List Char) :
    nextStep (c :: cs) = .skip cs := by
  have hc : c ≠ '/' := by
    rintro rfl
    revert h
    decide
  unfold nextStep
  simp only [atComment_cons hc, h, Bool.false_eq_true, if_false, if_true]

theorem leafStep_ne_skip : leafStep cs ≠ .skip r := by
  unfold leafStep
  repeat' split
  all_goals simp

/-- What is no comment is skipped for its first character alone. -/
theorem isSpacing_of_skip (hc : atComment (c :: cs) = false) (h : nextStep (c :: cs) = .skip r) :
    isSpacing c = true ∧ r = cs := by
  unfold nextStep at h
  simp only [hc, Bool.false_eq_true, if_false] at h
  split at h
  · cases h
    exact ⟨‹_›, rfl⟩
  · split at h
    · split at h <;> cases h
    iterate 5 cases h
    exact absurd h leafStep_ne_skip

theorem nextStep_append_of_skip (hl : isPlainName letters = true) (h : nextStep cs = .skip r) :
    ∃ t, Behind letters cs r t ∧ nextStep (cs ++ letters) = .skip t := by
  cases cs with
  | nil => cases h
  | cons c cs =>
    by_cases hc : atComment (c :: cs) = true
    · rw [nextStep_of_atComment hc] at h
      rw [nextStep_of_atComment (atComment_append hc letters)]
      exact commentStep_append hl h
    · obtain ⟨hs, rfl⟩ := isSpacing_of_skip (Bool.eq_false_iff.2 hc) h
      exact ⟨_, .inl rfl, nextStep_of_isSpacing hs _⟩

/-! ## Identifiers -/

theorem isIdentContinue_of_isPlainName (hl : isPlainName letters = true) :
    ∀ c ∈ letters, isIdentContinue c = true := fun _ hc =>
  isIdentContinue_of_name (mem_of_isPlainName hl hc)

/-- Letters behind an identifier belong to it where it is the whole text. -/
theorem identText_append (hl : isPlainName letters = true) (h : identText cs = some (name, r)) :
    identText (cs ++ letters) = if r = [] then some (name ++ letters, []) else
      some (name, r ++ letters) := by
  have hc := isIdentContinue_of_isPlainName hl
  cases cs with
  | nil => cases h
  | cons c cs =>
    rw [identText] at h
    split at h
    · rename_i hs
      cases h
      rw [List.cons_append, identText, if_pos hs]
      have hsplit := List.takeWhile_append_dropWhile (p := isIdentContinue) (l := cs)
      rw [List.takeWhile_append, List.dropWhile_append, List.dropWhile_eq_nil_iff.2 hc,
        List.takeWhile_eq_self_iff.2 hc]
      by_cases hd : cs.dropWhile isIdentContinue = []
      · have ht : cs.takeWhile isIdentContinue = cs := by rwa [hd, List.append_nil] at hsplit
        simp [hd, ht]
      · have hlen : (cs.takeWhile isIdentContinue).length ≠ cs.length := by
          intro hlen
          rw [← congrArg List.length hsplit, List.length_append] at hlen
          exact hd (List.eq_nil_of_length_eq_zero (by omega))
        simp [hd, hlen]
    · cases h

theorem identOrRaw_of_ne (h : ∀ u, cs ≠ 'r' :: '#' :: u) : identOrRaw cs = identText cs := by
  unfold identOrRaw
  split
  · exact absurd rfl (h _)
  · rfl

theorem identOrRaw_raw (h : identText cs = some (name, r)) : identOrRaw ('r' :: '#' :: cs) =
    if neverRaw.contains (String.ofList name) then none else some ('r' :: '#' :: name, r) := by
  rw [identOrRaw, h]
  rfl

/-- The letters end none of the names that cannot be raw. -/
def StaysRaw (letters : List Char) : Prop := ∀ w ∈ neverRaw, ¬letters <:+ w.toList

instance : Decidable (StaysRaw letters) :=
  inferInstanceAs (Decidable (∀ w ∈ neverRaw, ¬letters <:+ w.toList))

theorem StaysRaw.append (hr : StaysRaw letters) (name : List Char) :
    neverRaw.contains (String.ofList (name ++ letters)) = false := by
  rw [List.contains_eq_mem, decide_eq_false_iff_not]
  intro hm
  refine hr _ hm ⟨name, ?_⟩
  rw [String.toList_ofList]

theorem identOrRaw_append (hl : isPlainName letters = true) (hr : StaysRaw letters)
    (h : identOrRaw cs = some (name, r)) :
    identOrRaw (cs ++ letters) = if r = [] then some (name ++ letters, []) else
      some (name, r ++ letters) := by
  by_cases hraw : ∃ u, cs = 'r' :: '#' :: u
  · obtain ⟨u, rfl⟩ := hraw
    obtain ⟨⟨n, rest⟩, hu, -⟩ := Option.bind_eq_some_iff.1 h
    rw [identOrRaw_raw hu] at h
    have happ := identText_append hl hu
    split at h
    · cases h
    · rename_i hn
      cases h
      rw [List.cons_append, List.cons_append]
      split at happ
      · rename_i hrest
        rw [identOrRaw_raw happ, hr.append, if_neg (by decide), if_pos hrest]
        rfl
      · rename_i hrest
        rw [identOrRaw_raw happ, if_neg hn, if_neg hrest]
  · have hne : ∀ u, cs ≠ 'r' :: '#' :: u := fun u hu => hraw ⟨u, hu⟩
    rw [identOrRaw_of_ne hne] at h
    rw [← identText_append hl h, identOrRaw_of_ne]
    intro u hu
    rcases cs with _ | ⟨a, _ | ⟨b, v⟩⟩
    · cases h
    · obtain ⟨rfl, hv : letters = '#' :: u⟩ := List.cons.inj hu
      have hm := mem_of_isPlainName hl (c := '#') (by rw [hv]; exact List.mem_cons_self ..)
      revert hm
      decide
    · cases hu
      exact hne _ rfl

/-! ## Literals and marks -/

theorem afterRaw_eq_none {form : QuoteForm} (hq : ¬['"'] <+: cs) (hh : ¬['#', '"'] <+: cs)
    (hhh : ¬['#', '#'] <+: cs) : afterRaw form cs = none := by
  have hd : ∀ u, cs.dropWhile (· == '#') ≠ '"' :: u := by
    intro u hu
    rcases cs with _ | ⟨c, cs⟩
    · cases hu
    by_cases hc : c = '#'
    · subst hc
      rcases cs with _ | ⟨d, cs⟩
      · cases hu
      have hd : d ≠ '#' := fun hd => hhh ⟨cs, by rw [hd]; rfl⟩
      rw [List.dropWhile_cons_of_pos rfl, List.dropWhile_cons_of_neg (by simpa using hd)] at hu
      exact hh ⟨cs, by rw [← (List.cons.inj hu).1]; rfl⟩
    · rw [List.dropWhile_cons_of_neg (by simpa using hc)] at hu
      exact hq ⟨cs, by rw [← (List.cons.inj hu).1]; rfl⟩
  unfold afterRaw
  split
  · exact absurd ‹_› (hd _)
  · rfl

/-- No literal in quotes begins where none of its beginnings stands. -/
theorem afterTextLiteral_eq_none (hm : ∀ mark ∈ literalMarks, ¬mark <+: cs)
    (hq : ¬['"'] <+: cs) (hq' : ¬['\''] <+: cs) : afterTextLiteral cs = none := by
  have hraw : ∀ {b : Char} {u : List Char}, ¬[b, 'r', '"'] <+: b :: 'r' :: u →
      ¬[b, 'r', '#'] <+: b :: 'r' :: u → ∀ form, afterRaw form u = none := by
    intro b u hq hh form
    simp only [List.cons_prefix_cons, true_and] at hq hh
    exact afterRaw_eq_none hq (fun hp => hh ((List.prefix_append ['#'] ['"']).trans hp))
      fun hp => hh ((List.prefix_append ['#'] ['#']).trans hp)
  unfold afterTextLiteral
  split
  · exact absurd ⟨_, rfl⟩ hq
  · refine afterRaw_eq_none ?_ ?_ ?_
    · exact fun hp => hm ['r', '"'] (by decide) (List.cons_prefix_cons.2 ⟨rfl, hp⟩)
    · exact fun hp => hm ['r', '#', '"'] (by decide) (List.cons_prefix_cons.2 ⟨rfl, hp⟩)
    · exact fun hp => hm ['r', '#', '#'] (by decide) (List.cons_prefix_cons.2 ⟨rfl, hp⟩)
  · exact absurd ⟨_, rfl⟩ (hm ['b', '"'] (by decide))
  · exact hraw (hm ['b', 'r', '"'] (by decide)) (hm ['b', 'r', '#'] (by decide)) _
  · exact absurd ⟨_, rfl⟩ (hm ['b', '\''] (by decide))
  · exact absurd ⟨_, rfl⟩ (hm ['c', '"'] (by decide))
  · exact hraw (hm ['c', 'r', '"'] (by decide)) (hm ['c', 'r', '#'] (by decide)) _
  · exact absurd ⟨_, rfl⟩ hq'
  · rfl

theorem isIdentStart_of_identOrRaw (h : identOrRaw (c :: cs) = some (name, r)) :
    isIdentStart c = true := by
  by_cases hraw : ∃ u, c :: cs = 'r' :: '#' :: u
  · obtain ⟨u, hu⟩ := hraw
    cases hu
    decide
  · rw [identOrRaw_of_ne fun u hu => hraw ⟨u, hu⟩, identText] at h
    split at h
    · assumption
    · cases h

theorem not_isDigit_of_isIdentStart (h : isIdentStart c = true) : c.isDigit = false := by
  rw [isIdentStart] at h
  split at h
  · exact not_isDigit_of_isNameStart h
  · rename_i hc
    rw [Bool.eq_false_iff]
    exact fun hd => hc (toNat_lt_of_name (by simp [Char.isAlphanum, hd]))

theorem readMark_cons (hq : c ≠ '\'') (hs : c ≠ '/') (cs : List Char) :
    readMark (c :: cs) = if isMark c then some (.punct c (atMark cs), cs) else none := by
  unfold readMark
  split
  · rename_i h
    cases h
  · exact absurd (List.cons.inj ‹_›).1 hq
  · rename_i h
    cases h
    simp [atMark, atComment_cons hs]

theorem punct_of_readMark {t : Token} (h : readMark cs = some (t, r)) :
    ∃ m joint, t = .punct m joint := by
  unfold readMark at h
  split at h
  · cases h
  · obtain ⟨p, -, h⟩ := Option.bind_eq_some_iff.1 h
    simp only at h
    split at h
    · cases h
    · split at h <;> cases h
      exact ⟨_, _, rfl⟩
    · cases h
      exact ⟨_, _, rfl⟩
  · split at h <;> cases h
    exact ⟨_, _, rfl⟩

theorem leafStep_eq_ident (h : leafStep cs = .emit [.ident x] r) :
    readMark cs = none ∧ (∀ mark ∈ literalMarks, ¬mark <+: cs) ∧
      ∃ name, identOrRaw cs = some (name, r) ∧ x = String.ofList name := by
  unfold leafStep at h
  split at h
  · cases h
  · split at h
    · obtain ⟨m, joint, rfl⟩ := punct_of_readMark ‹_›
      cases h
    · split at h
      · cases h
      · rename_i hm
        split at h
        · rename_i hi
          cases h
          refine ⟨‹_›, fun mark hmark hp => hm ?_, _, hi, rfl⟩
          exact List.any_eq_true.2 ⟨mark, hmark, List.isPrefixOf_iff_prefix.2 hp⟩
        · cases h

/-! ## Steps that emit -/

/-- A beginning that ends in none of the letters stands there without them. -/
theorem prefix_of_prefix_append {mark : List Char} (h : mark <+: cs ++ letters)
    (hl : ∀ c ∈ mark.getLast?, c ∉ letters) : mark <+: cs := by
  rcases List.prefix_or_prefix_of_prefix h (List.prefix_append cs letters) with hp | ⟨u, rfl⟩
  · exact hp
  · have hu := (List.prefix_append_right_inj cs).1 h
    cases hlast : u.getLast? with
    | none =>
      simp [List.getLast?_eq_none_iff.1 hlast]
    | some c =>
      refine absurd (hu.subset (List.mem_of_getLast? hlast)) (hl c ?_)
      rw [List.getLast?_append, hlast]
      rfl

theorem leafStep_append (hl : isPlainName letters = true) (hr : StaysRaw letters)
    (h : leafStep cs = .emit [.ident x] r) : leafStep (cs ++ letters) =
      if r = [] then .emit [.ident (x ++ String.ofList letters)] []
      else .emit [.ident x] (r ++ letters) := by
  obtain ⟨hmark, hm, name, hi, rfl⟩ := leafStep_eq_ident h
  cases cs with
  | nil => cases hi
  | cons c cs =>
    have hs := isIdentStart_of_identOrRaw hi
    have hne : ∀ d, isIdentStart d = false → ¬[d] <+: c :: (cs ++ letters) := by
      rintro d hd hp
      rw [← (List.cons_prefix_cons.1 hp).1] at hs
      rw [hs] at hd
      cases hd
    have hm' : ∀ mark ∈ literalMarks, ¬mark <+: c :: (cs ++ letters) := by
      intro mark hmark hp
      refine hm mark hmark (prefix_of_prefix_append hp ?_)
      have hlast : (literalMarks.all fun mark =>
          mark.getLast?.all fun d => !(d.isAlphanum || d == '_')) = true := by decide
      intro d hd hmem
      have hn := (Option.all_eq_true _ _).1 (List.all_eq_true.1 hlast mark hmark) d hd
      rw [mem_of_isPlainName hl hmem] at hn
      cases hn
    have hlit : afterLiteral (c :: (cs ++ letters)) = none :=
      afterLiteral_of_not_isDigit (not_isDigit_of_isIdentStart hs)
        (afterTextLiteral_eq_none hm' (hne _ (by decide)) (hne _ (by decide)))
    have hread : readMark (c :: (cs ++ letters)) = none := by
      have hq : c ≠ '\'' := fun hc => hne '\'' (by decide) ⟨_, by rw [hc]; rfl⟩
      have hs : c ≠ '/' := fun hc => hne '/' (by decide) ⟨_, by rw [hc]; rfl⟩
      rw [readMark_cons hq hs] at hmark ⊢
      split at hmark
      · cases hmark
      · rw [if_neg ‹_›]
    have hany : (literalMarks.any fun mark => mark.isPrefixOf (c :: (cs ++ letters))) = false := by
      rw [List.any_eq_false]
      exact fun mark hmark hp => hm' mark hmark (List.isPrefixOf_iff_prefix.1 hp)
    have happ := identOrRaw_append hl hr hi
    rw [List.cons_append] at happ ⊢
    by_cases hr : r = []
    · simp [leafStep, hlit, hread, hany, happ, hr]
    · simp [leafStep, hlit, hread, hany, happ, hr]

theorem nextStep_eq_leafStep (hs : isSpacing c = false) (hi : isIdentStart c = true)
    (cs : List Char) : nextStep (c :: cs) = leafStep (c :: cs) := by
  have hne : ∀ d, isIdentStart d = false → c ≠ d := by
    rintro d hd rfl
    rw [hi] at hd
    cases hd
  unfold nextStep
  simp only [atComment_cons (hne '/' (by decide)), hs, Bool.false_eq_true, if_false]
  split
  iterate 6 exact absurd rfl (hne _ (by decide))
  rfl

theorem docStep_ne_ident {inner : Bool} : docStep inner body cs ≠ .emit [.ident x] r := by
  rw [docStep]
  split <;> simp [docAttribute]

theorem commentStep_ne_ident : commentStep cs ≠ .emit [.ident x] r := by
  obtain h | ⟨s, h, -⟩ | ⟨inner, body, s, h, -⟩ := commentStep_cases cs <;> rw [h]
  · simp
  · simp
  · exact docStep_ne_ident

theorem nextStep_eq_ident (h : nextStep (c :: cs) = .emit [.ident x] r) :
    isSpacing c = false ∧ leafStep (c :: cs) = .emit [.ident x] r := by
  unfold nextStep at h
  simp only at h
  split at h
  · exact absurd h commentStep_ne_ident
  · split at h
    · cases h
    · refine ⟨Bool.eq_false_iff.2 ‹_›, ?_⟩
      split at h
      · split at h <;> cases h
      iterate 5 cases h
      exact h

/-- Letters behind an identifier belong to it where nothing parts them from it. -/
theorem nextStep_append_of_ident (hl : isPlainName letters = true) (hr : StaysRaw letters)
    (h : nextStep cs = .emit [.ident x] r) : nextStep (cs ++ letters) =
      if r = [] then .emit [.ident (x ++ String.ofList letters)] []
      else .emit [.ident x] (r ++ letters) := by
  cases cs with
  | nil => cases h
  | cons c cs =>
    obtain ⟨hs, h⟩ := nextStep_eq_ident h
    obtain ⟨-, -, name, hi, -⟩ := leafStep_eq_ident h
    rw [List.cons_append, nextStep_eq_leafStep hs (isIdentStart_of_identOrRaw hi), ← List.cons_append]
    exact leafStep_append hl hr h

/-! ## Readings -/

/-- A token that is no hidden group. -/
def Token.Visible (t : Token) : Prop := ∀ body, t ≠ .group .hidden body

/-- Each step that emits emits something, and nothing is hidden. -/
def Step.Visible : Step → Prop
  | .emit ts _ => ts ≠ [] ∧ ∀ t ∈ ts, t.Visible
  | .enter d _ => d ≠ .hidden
  | _ => True

theorem visible_docStep {inner : Bool} : (docStep inner body cs).Visible := by
  rw [docStep]
  split
  · trivial
  · cases inner <;> simp [Step.Visible, docAttribute, Token.Visible]

theorem visible_commentStep : (commentStep cs).Visible := by
  obtain h | ⟨s, h, -⟩ | ⟨inner, body, s, h, -⟩ := commentStep_cases cs <;> rw [h]
  · trivial
  · trivial
  · exact visible_docStep

theorem visible_leafStep : (leafStep cs).Visible := by
  unfold leafStep
  split
  · simp [Step.Visible, Token.Visible]
  · split
    · obtain ⟨m, joint, rfl⟩ := punct_of_readMark ‹_›
      simp [Step.Visible, Token.Visible]
    · split
      · trivial
      · split
        · simp [Step.Visible, Token.Visible]
        · trivial

theorem visible_nextStep : (nextStep cs).Visible := by
  unfold nextStep
  split
  · trivial
  · split
    · exact visible_commentStep
    · split
      · trivial
      · split
        · split
          · simp [Step.Visible, Token.Visible]
          · simp [Step.Visible]
        · simp [Step.Visible]
        · simp [Step.Visible]
        iterate 3 trivial
        · exact visible_leafStep

/-- Nothing that is read is hidden. -/
theorem visible_of_lexUntil {n : Nat} {ts : Tokens} (h : lexUntil n cs = some (ts, r)) :
    ∀ t ∈ ts, t.Visible := by
  induction n generalizing cs ts r with
  | zero => cases h
  | succ n ih =>
    have hv := @visible_nextStep cs
    rw [lexUntil] at h
    split at h <;> rename_i hs <;> rw [hs] at hv
    · exact ih h
    · obtain ⟨p, hl, h⟩ := Option.map_eq_some_iff.1 h
      cases h
      exact List.forall_mem_append.2 ⟨hv.2, ih hl⟩
    · obtain ⟨p, hl, h⟩ := Option.bind_eq_some_iff.1 h
      obtain ⟨t, hc, h⟩ := Option.bind_eq_some_iff.1 h
      obtain ⟨q, hq, h⟩ := Option.bind_eq_some_iff.1 h
      cases h
      refine List.forall_mem_cons.2 ⟨?_, ih hq⟩
      rintro body hb
      cases hb
      exact hv rfl
    · cases h
      exact List.forall_mem_nil _
    · cases h

theorem visible_of_lex {text : String} {ts : Tokens} (h : lex text = some ts) :
    ∀ t ∈ ts, t.Visible := by
  rw [lex, lexChars] at h
  split at h
  · cases h
    exact visible_of_lexUntil ‹_›
  · cases h

/-- How a text with a reading begins. -/
theorem lexPlain_cases {ts : Tokens} (h : lexPlain cs = some ts) :
    (cs = [] ∧ ts = []) ∨ (∃ r, nextStep cs = .skip r ∧ lexPlain r = some ts) ∨
      (∃ es us r, nextStep cs = .emit es r ∧ lexPlain r = some us ∧ ts = es ++ us) ∨
      ∃ d body us, ts = .group d body :: us := by
  cases hs : nextStep cs with
  | skip r => exact .inr (.inl ⟨r, rfl, lexPlain_skip hs ▸ h⟩)
  | emit es r =>
    rw [lexPlain_emit hs] at h
    obtain ⟨us, hu, rfl⟩ := Option.map_eq_some_iff.1 h
    exact .inr (.inr (.inl ⟨es, us, r, rfl, hu, rfl⟩))
  | enter d r =>
    rw [lexPlain, lexUntil, hs] at h
    split at h
    · rename_i hl
      obtain ⟨p, -, hl⟩ := Option.bind_eq_some_iff.1 hl
      obtain ⟨u, -, hl⟩ := Option.bind_eq_some_iff.1 hl
      obtain ⟨⟨us, v⟩, -, hl⟩ := Option.bind_eq_some_iff.1 hl
      cases hl
      cases h
      exact .inr (.inr (.inr ⟨_, _, _, rfl⟩))
    · cases h
  | stop =>
    rw [lexPlain, lexUntil, hs] at h
    split at h
    · rename_i hl
      cases hl
      cases h
      exact .inl ⟨rfl, rfl⟩
    · cases h
  | fail =>
    rw [lexPlain, lexUntil, hs] at h
    cases h

theorem lexPlain_letters (hl : isPlainName letters = true) :
    lexPlain letters = some [.ident (String.ofList letters)] := by
  rw [lexPlain_emit (nextStep_of_isPlainName hl)]
  rfl

/-- Letters behind a text without tokens are skipped with it or are its only token. -/
theorem lexPlain_append_of_nil (hl : isPlainName letters = true) (h : lexPlain cs = some []) :
    lexPlain (cs ++ letters) = some [] ∨
      lexPlain (cs ++ letters) = some [.ident (String.ofList letters)] := by
  induction hn : cs.length using Nat.strong_induction_on generalizing cs with
  | _ n ih =>
    subst hn
    rcases lexPlain_cases h with ⟨rfl, -⟩ | ⟨r, hs, hr⟩ | ⟨es, us, r, hs, -, he⟩ | ⟨d, body, us, he⟩
    · exact .inr (lexPlain_letters hl)
    · obtain ⟨t, ht | ⟨-, -, ht⟩, hs'⟩ := nextStep_append_of_skip hl hs
      · rw [lexPlain_skip hs', ht]
        exact ih _ (nextStep_length (by rw [hs]; rfl)) hr rfl
      · rw [lexPlain_skip hs', ht]
        exact .inl rfl
    · have hv := @visible_nextStep cs
      rw [hs] at hv
      exact absurd (List.append_eq_nil_iff.1 he.symm).1 hv.1
    · cases he

/-- Letters behind a text with a single identifier are skipped, end the identifier or are a token
of their own. -/
theorem lexPlain_append_of_ident (hl : isPlainName letters = true) (hr : StaysRaw letters)
    (h : lexPlain cs = some [.ident x]) :
    lexPlain (cs ++ letters) = some [.ident x] ∨
      lexPlain (cs ++ letters) = some [.ident (x ++ String.ofList letters)] ∨
      lexPlain (cs ++ letters) = some [.ident x, .ident (String.ofList letters)] := by
  induction hn : cs.length using Nat.strong_induction_on generalizing cs with
  | _ n ih =>
    subst hn
    rcases lexPlain_cases h with ⟨-, he⟩ | ⟨r, hs, hrest⟩ | ⟨es, us, r, hs, hu, he⟩ | ⟨d, body, us, he⟩
    · cases he
    · obtain ⟨t, ht | ⟨-, hnil, -⟩, hs'⟩ := nextStep_append_of_skip hl hs
      · rw [lexPlain_skip hs', ht]
        exact ih _ (nextStep_length (by rw [hs]; rfl)) hrest rfl
      · rw [hnil] at hrest
        cases hrest
    · have hv := @visible_nextStep cs
      rw [hs] at hv
      rcases List.append_eq_singleton_iff.1 he.symm with ⟨rfl, -⟩ | ⟨rfl, rfl⟩
      · exact absurd rfl hv.1
      · have happ := nextStep_append_of_ident hl hr hs
        split at happ
        · rw [lexPlain_emit happ]
          exact .inr (.inl rfl)
        · rw [lexPlain_emit happ]
          rcases lexPlain_append_of_nil hl hu with hn | hn
          · rw [hn]
            exact .inl rfl
          · rw [hn]
            exact .inr (.inr rfl)
    · cases he

theorem lexChars_append_of_ident (hl : isPlainName letters = true) (hr : StaysRaw letters)
    (h : lexChars cs = some [.ident x]) :
    lexChars (cs ++ letters) = some [.ident x] ∨
      lexChars (cs ++ letters) = some [.ident (x ++ String.ofList letters)] ∨
      lexChars (cs ++ letters) = some [.ident x, .ident (String.ofList letters)] := by
  cases cs with
  | nil => cases h
  | cons c cs =>
    by_cases hc : c = '\ufeff'
    · subst hc
      exact lexPlain_append_of_ident hl hr h
    · have hhead : ∀ t, (c :: t).head? ≠ some '\ufeff' := by simpa using hc
      rw [lexChars_eq_lexPlain (hhead _)] at h
      rw [List.cons_append, lexChars_eq_lexPlain (hhead _)]
      exact lexPlain_append_of_ident hl hr h

end Courier.Code

namespace Courier.Emit
open Code Text

theorem next?_of_visible {t : Token} {ts : Tokens} (h : t.Visible) :
    Tokens.next? (t :: ts) = some (t, ts) := by
  cases t with
  | ident => exact Tokens.next?_ident
  | punct => exact Tokens.next?_punct
  | literal => exact Tokens.next?_literal
  | group d body => exact Tokens.next?_group fun hd => h body (hd ▸ rfl)

theorem next?_of_ident {ts r : Tokens} {t : Code.Tree} (h : Parser.ident.run ts = .ok (t, r)) :
    ∃ name, Tokens.next? ts = some (.ident name, r) ∧ Tokens.isIdent name = true ∧
      t = Code.Tree.word name := by
  rw [Parser.ident, StateT.run_bind, StateT.run_get] at h
  obtain ⟨⟨us, vs⟩, hget, h⟩ := bind_eq_ok.1 h
  cases hget
  simp only at h
  split at h
  · split at h <;> cases h
    exact ⟨_, ‹_›, ‹_›, rfl⟩
  · cases h

/-- A text spells an identifier where this is its only token. -/
theorem lex_of_identifier? {text x : String} (h : identifier? text = some x) :
    lex text = some [.ident x] ∧ Tokens.isIdent x = true := by
  obtain ⟨ts, hts, h⟩ := Option.bind_eq_some_iff.1 h
  split at h
  · rename_i hp
    cases h
    obtain ⟨name, hn, hi, hname⟩ := next?_of_ident (Parser.run_of_all hp)
    cases hname
    cases ts with
    | nil => cases hn
    | cons t ts =>
      rw [next?_of_visible (visible_of_lex hts t (List.mem_cons_self ..))] at hn
      cases hn
      exact ⟨hts, hi⟩
  · cases h

/-- Where a text spells an identifier and so does the text with letters behind it, these letters end
the identifier or a comment takes them. -/
theorem identifier?_append {text suffix x y : String} (hl : isPlainName suffix.toList = true)
    (hr : StaysRaw suffix.toList) (h : identifier? text = some x)
    (h' : identifier? (text ++ suffix) = some y) : y = x ++ suffix ∨ y = x := by
  have hx := (lex_of_identifier? h).1
  have hy := (lex_of_identifier? h').1
  rw [lex, String.toList_append] at hy
  rcases lexChars_append_of_ident hl hr hx with hs | hs | hs
  · rw [hs] at hy
    cases hy
    exact .inr rfl
  · rw [hs, String.ofList_toList] at hy
    cases hy
    exact .inl rfl
  · rw [hs] at hy
    cases hy

end Courier.Emit
