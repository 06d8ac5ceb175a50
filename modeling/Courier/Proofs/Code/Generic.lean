import Courier.Proofs.Code.Suffix
import Courier.Proofs.Model.Grammar

/-!
Types in the generic spelling as code. White space may stand between their words; inside of a word it
makes two of it, which the shape of the type does not show.
-/
namespace Courier.Code
open Text

variable {c d m : Char} {cs ds bs w r t u v x : List Char} {s : TypeShape} {ts rest : Tokens}

/-! ## White space in names -/

/-- Does white space stand between two characters of a name? -/
def splitsName : List Char → Bool
  | [] => false
  | c :: cs => (c.isAlphanum || c == '_') && cs.head?.any isBlank &&
      ((cs.dropWhile isBlank).head?.any fun d => d.isAlphanum || d == '_') || splitsName cs

/-- Characters without white space. -/
def solidIn (cs : List Char) : List Char := cs.filter fun c => !isBlank c

theorem solidIn_eq_nil : solidIn cs = [] ↔ ∀ c ∈ cs, isBlank c = true := by
  simp [solidIn]

theorem solidIn_blank (h : isBlank c = true) (cs : List Char) : solidIn (c :: cs) = solidIn cs := by
  simp [solidIn, h]

theorem solidIn_cons (h : isBlank c = false) (cs : List Char) :
    solidIn (c :: cs) = c :: solidIn cs := by
  simp [solidIn, h]

theorem head?_dropWhile_isBlank (cs : List Char) :
    (cs.dropWhile isBlank).head? = (solidIn cs).head? := by
  induction cs with
  | nil => rfl
  | cons c cs ih =>
    cases h : isBlank c with
    | true => simpa [solidIn, h] using ih
    | false => simp [solidIn, h]

theorem splitsName_cons (c : Char) (cs : List Char) : splitsName (c :: cs) =
    ((c.isAlphanum || c == '_') && cs.head?.any isBlank &&
      ((solidIn cs).head?.any fun d => d.isAlphanum || d == '_') || splitsName cs) := by
  rw [splitsName, head?_dropWhile_isBlank]

theorem splitsName_other (h : (c.isAlphanum || c == '_') = false) (cs : List Char) :
    splitsName (c :: cs) = splitsName cs := by
  rw [splitsName_cons, h, Bool.false_and, Bool.false_and, Bool.false_or]

theorem splitsName_of_blank (h : ∀ c ∈ cs, isBlank c = true) : splitsName cs = false := by
  induction cs with
  | nil => rfl
  | cons c cs ih =>
    have hcs : ∀ d ∈ cs, isBlank d = true := fun d hd => h d (List.mem_cons_of_mem _ hd)
    rw [splitsName_cons, solidIn_eq_nil.2 hcs, ih hcs]
    simp

theorem splitsName_of_solid {cs : List Char} (h : ∀ c ∈ cs, Text.isBlank c = false) :
    splitsName cs = false := by
  induction cs with
  | nil => rfl
  | cons c cs ih =>
    have hhead : cs.head?.any Text.isBlank = false := by
      cases cs with
      | nil => rfl
      | cons d cs => exact h d (by simp)
    rw [splitsName_cons, hhead, ih fun d hd => h d (List.mem_cons_of_mem _ hd)]
    simp

/-- Names on both sides of a character that belongs to none are apart. -/
theorem splitsName_around (hb : isBlank c = false) (hc : (c.isAlphanum || c == '_') = false)
    (u v : List Char) : splitsName (u ++ c :: v) = (splitsName u || splitsName v) := by
  have hhead : ∀ u : List Char, (u ++ c :: v).head?.any isBlank = u.head?.any isBlank := by
    rintro (_ | ⟨a, u⟩) <;> simp [hb]
  have hsolid : ∀ u : List Char, ((solidIn (u ++ c :: v)).head?.any fun d => d.isAlphanum || d == '_') =
      ((solidIn u).head?.any fun d => d.isAlphanum || d == '_') := by
    intro u
    rw [solidIn, List.filter_append, ← solidIn, ← solidIn, solidIn_cons hb]
    cases solidIn u <;> simp [hc, -Bool.or_eq_true, -Bool.or_eq_false_iff]
  induction u with
  | nil => exact splitsName_other hc v
  | cons a u ih => rw [List.cons_append, splitsName_cons, splitsName_cons, hhead, hsolid, ih, Bool.or_assoc]

/-! ## Words with white space -/

/-- A word in one piece, with white space around it. -/
def Whole (w cs : List Char) : Prop :=
  ∃ bs ds, cs = bs ++ (w ++ ds) ∧ solidIn bs = [] ∧ solidIn ds = []

/-- White space follows a beginning of a word. -/
def Broken (w cs : List Char) : Prop :=
  ∃ bs x d ds, cs = bs ++ (x ++ d :: ds) ∧ solidIn bs = [] ∧ x ≠ [] ∧ x <+: w ∧ x ≠ w ∧ isBlank d = true

theorem Whole.blank (h : Whole w cs) (hc : isBlank c = true) : Whole w (c :: cs) := by
  obtain ⟨bs, ds, rfl, hb, hd⟩ := h
  exact ⟨c :: bs, ds, rfl, (solidIn_blank hc bs).trans hb, hd⟩

theorem Broken.blank (h : Broken w cs) (hc : isBlank c = true) : Broken w (c :: cs) := by
  obtain ⟨bs, x, d, ds, rfl, hb, hx⟩ := h
  exact ⟨c :: bs, x, d, ds, rfl, (solidIn_blank hc bs).trans hb, hx⟩

theorem eq_nil_of_head? (hh : (bs ++ u).head?.any isBlank = false) (hb : solidIn bs = []) : bs = [] := by
  cases bs with
  | nil => rfl
  | cons b bs => simp [solidIn_eq_nil.1 hb b] at hh

theorem Whole.cons (h : Whole w cs) (hh : cs.head?.any isBlank = false) : Whole (c :: w) (c :: cs) := by
  obtain ⟨bs, ds, rfl, hb, hd⟩ := h
  obtain rfl := eq_nil_of_head? hh hb
  exact ⟨[], ds, rfl, rfl, hd⟩

theorem Broken.cons (h : Broken w cs) (hh : cs.head?.any isBlank = false) :
    Broken (c :: w) (c :: cs) := by
  obtain ⟨bs, x, d, ds, rfl, hb, -, hp, hne, hd⟩ := h
  obtain rfl := eq_nil_of_head? hh hb
  exact ⟨[], c :: x, d, ds, rfl, rfl, by simp, List.cons_prefix_cons.2 ⟨rfl, hp⟩, by simpa using hne, hd⟩

/-- A name stands in one piece unless white space splits it. -/
theorem name_cases (hw : ∀ c ∈ w, (c.isAlphanum || c == '_') = true) (hn : w ≠ [])
    (h : solidIn cs = w) :
    (splitsName cs = false ∧ Whole w cs) ∨ (splitsName cs = true ∧ Broken w cs) := by
  induction cs generalizing w with
  | nil => exact absurd h.symm hn
  | cons c cs ih =>
    cases hc : isBlank c with
    | true =>
      have hname : (c.isAlphanum || c == '_') = false := by
        rw [Bool.eq_false_iff]
        intro hname
        rw [not_isBlank_of_name hname] at hc
        cases hc
      rw [solidIn_blank hc] at h
      rw [splitsName_other hname]
      exact (ih hw hn h).imp (.imp_right (·.blank hc)) (.imp_right (·.blank hc))
    | false =>
      rw [solidIn_cons hc] at h
      subst h
      cases hsolid : solidIn cs with
      | nil =>
        have hb := solidIn_eq_nil.1 hsolid
        rw [splitsName_cons, hsolid, splitsName_of_blank hb]
        exact .inl ⟨by simp, [], cs, rfl, rfl, hsolid⟩
      | cons a w =>
        rw [hsolid] at hw
        rw [splitsName_cons, hsolid, hw c (by simp), List.head?_cons, Option.any_some, hw a (by simp),
          Bool.true_and, Bool.and_true]
        cases hb : cs.head?.any isBlank with
        | true =>
          -- the name goes on behind white space
          cases cs with
          | nil => cases hb
          | cons d ds => exact .inr ⟨rfl, [], [c], d, ds, rfl, rfl, by simp, by simp, by simp, hb⟩
        | false =>
          rw [Bool.false_or]
          have hrest := ih (fun d hd => hw d (List.mem_cons_of_mem _ hd)) (by simp) hsolid
          exact hrest.imp (.imp_right (·.cons hb)) (.imp_right (·.cons hb))

theorem whole_of_name (hw : isPlainName w = true) (h : solidIn cs = w) (hs : splitsName cs = false) :
    Whole w cs := by
  rcases name_cases (fun c => mem_of_isPlainName hw) (by rintro rfl; cases hw) h with
    ⟨-, hwhole⟩ | ⟨hsplit, -⟩
  · exact hwhole
  · rw [hs] at hsplit
    cases hsplit

/-! ## Tokens -/

/-- What follows belongs neither to a name nor, with the name, to a literal. -/
def EndsName (t : List Char) : Prop :=
  ∀ c ∈ t.head?, isIdentContinue c = false ∧ c ∉ ['"', '#', '\'']

theorem endsName_nil : EndsName [] := by simp [EndsName]

theorem endsName_angle (h : c = '<' ∨ c = '>') (t : List Char) : EndsName (c :: t) := by
  simp only [EndsName, List.head?_cons, Option.mem_some_iff, forall_eq']
  rcases h with rfl | rfl <;> decide

theorem endsName_blank (h : isBlank c = true) (t : List Char) : EndsName (c :: t) := by
  have hall : ∀ n ∈ List.range' 9 5 ++ List.range' 0x2000 11 ++ [0x20, 0x85, 0xA0, 0x1680, 0x2028,
      0x2029, 0x202F, 0x205F, 0x3000], isIdentContinue (Char.ofNat n) = false ∧
        Char.ofNat n ∉ ['"', '#', '\''] := by
    decide +kernel
  have hc := hall c.toNat (by
    simp only [isBlank, Bool.or_eq_true, Bool.and_eq_true, decide_eq_true_eq, beq_iff_eq] at h
    simp only [List.mem_append, List.mem_range'_1, List.mem_cons, List.not_mem_nil, or_false]
    omega)
  rw [Char.ofNat_toNat] at hc
  simpa [EndsName] using hc

theorem endsName_append (hd : solidIn ds = []) (ht : EndsName t) : EndsName (ds ++ t) := by
  cases ds with
  | nil => exact ht
  | cons d ds => exact endsName_blank (solidIn_eq_nil.1 hd d (List.mem_cons_self ..)) _

/-- No quoted literal begins with a name that ends here. -/
theorem not_literalMark_of_name (h : isPlainName w = true) (ht : EndsName t) :
    ∀ mark ∈ literalMarks, ¬mark <+: w ++ t := by
  intro mark hmark hp
  have hchars : (literalMarks.all fun mark => mark.all fun d => (d.isAlphanum || d == '_') ||
      ['"', '#', '\''].contains d) = true := by decide
  have hother : (literalMarks.all fun mark => mark.any fun d => !(d.isAlphanum || d == '_')) = true := by
    decide
  obtain ⟨d, hd, hn⟩ := List.any_eq_true.1 (List.all_eq_true.1 hother mark hmark)
  have hne : ¬mark <+: w := fun hp => by
    rw [mem_of_isPlainName h (hp.subset hd)] at hn
    cases hn
  rcases List.prefix_or_prefix_of_prefix hp (List.prefix_append w t) with hp' | ⟨u, rfl⟩
  · exact hne hp'
  · cases u with
    | nil => exact hne (by simp)
    | cons c u =>
      have ht := ht c (by
        obtain ⟨v, hv⟩ := (List.prefix_append_right_inj w).1 hp
        rw [← hv]
        rfl)
      have hc := List.all_eq_true.1 (List.all_eq_true.1 hchars _ hmark) c (by simp)
      rcases (Bool.or_eq_true _ _).mp hc with hc | hc
      · rw [isIdentContinue_of_name hc] at ht
        cases ht.1
      · exact ht.2 (by simpa using hc)

theorem identText_name (h : isPlainName w = true) (ht : EndsName t) :
    identText (w ++ t) = some (w, t) := by
  cases w with
  | nil => cases h
  | cons c w =>
    have hall : ∀ d ∈ w, isIdentContinue d = true := fun d hd =>
      isIdentContinue_of_name (mem_of_isPlainName h (List.mem_cons_of_mem _ hd))
    have htake : t.takeWhile isIdentContinue = [] ∧ t.dropWhile isIdentContinue = t := by
      cases t with
      | nil => exact ⟨rfl, rfl⟩
      | cons d t =>
        have hd := (ht d rfl).1
        simp [hd]
    rw [List.cons_append, identText, if_pos (isIdentStart_of_isNameStart (Bool.and_eq_true_iff.1 h).1),
      List.takeWhile_append_of_pos hall, List.dropWhile_append_of_pos hall, htake.1, htake.2,
      List.append_nil]

/-- A name is one token up to where it ends. -/
theorem nextStep_name (h : isPlainName w = true) (ht : EndsName t) :
    nextStep (w ++ t) = .emit [.ident (String.ofList w)] t := by
  have hmark := not_literalMark_of_name h ht
  have htext := identText_name h ht
  cases w with
  | nil => cases h
  | cons c w =>
    have hc := mem_of_isPlainName h (List.mem_cons_self ..)
    have hs := isIdentStart_of_isNameStart (Bool.and_eq_true_iff.1 h).1
    have hne : ∀ d : Char, (d.isAlphanum || d == '_') = false → ¬[d] <+: c :: (w ++ t) :=
      fun d hd hp => ne_of_name hc hd (List.cons_prefix_cons.1 hp).1.symm
    have hlit : afterLiteral (c :: (w ++ t)) = none :=
      afterLiteral_of_not_isDigit (not_isDigit_of_isIdentStart hs)
        (afterTextLiteral_eq_none hmark (hne _ (by decide)) (hne _ (by decide)))
    have hread : readMark (c :: (w ++ t)) = none := by
      rw [readMark_cons (ne_of_name hc (by decide)) (ne_of_name hc (by decide)), isMark_of_name hc,
        if_neg (by simp)]
    have hany : (literalMarks.any fun mark => mark.isPrefixOf (c :: (w ++ t))) = false := by
      rw [List.any_eq_false]
      exact fun mark hm hp => hmark mark hm (List.isPrefixOf_iff_prefix.1 hp)
    have hraw : ∀ u, c :: (w ++ t) ≠ 'r' :: '#' :: u := by
      rintro u hu
      obtain ⟨-, hu⟩ := List.cons.inj hu
      cases w with
      | nil => exact (ht '#' (congrArg List.head? hu)).2 (by decide)
      | cons d w =>
        have hd := mem_of_isPlainName h (c := d) (by simp)
        rw [(List.cons.inj hu).1] at hd
        cases hd
    rw [List.cons_append, nextStep_eq_leafStep (isSpacing_of_name hc) hs, leafStep, hlit, hread, hany,
      identOrRaw_of_ne hraw]
    rw [List.cons_append] at htext
    simp [htext]

theorem lexPlain_name (h : isPlainName w = true) (ht : EndsName t) :
    lexPlain (w ++ t) = (lexPlain t).map (.ident (String.ofList w) :: ·) :=
  lexPlain_emit (nextStep_name h ht)

theorem lexPlain_angle (h : c = '<' ∨ c = '>') (t : List Char) :
    lexPlain (c :: t) = (lexPlain t).map (.punct c (atMark t) :: ·) := by
  change _ = (lexPlain t).map ([.punct c (atMark t)] ++ ·)
  refine lexPlain_emit ?_
  rcases h with rfl | rfl <;> rfl

theorem lexPlain_nil : lexPlain [] = some [] := by decide +kernel

theorem lexPlain_blank (h : solidIn bs = []) (t : List Char) : lexPlain (bs ++ t) = lexPlain t := by
  induction bs with
  | nil => rfl
  | cons b bs ih =>
    have hb := solidIn_eq_nil.1 h
    rw [List.cons_append, lexPlain_skip (nextStep_of_isSpacing (by simp [isSpacing, hb b]) _)]
    exact ih (solidIn_eq_nil.2 fun c hc => hb c (List.mem_cons_of_mem _ hc))

/-! ## Types -/

/-- The words of a type in the generic spelling. -/
def genericWords : TypeShape → List String
  | .bare name => [name]
  | .array s => "Vec" :: genericWords s
  | .optional s => "Option" :: genericWords s
  | .foreign _ => []

/-- The tokens of a type in the generic spelling. Its marks may be joint or not. -/
inductive GenericTokens : TypeShape → Tokens → Prop
  | bare {name : String} : GenericTokens (.bare name) [.ident name]
  | array {s : TypeShape} {ts : Tokens} {i j : Bool} (h : GenericTokens s ts) :
      GenericTokens (.array s) (.ident "Vec" :: .punct '<' i :: (ts ++ [.punct '>' j]))
  | optional {s : TypeShape} {ts : Tokens} {i j : Bool} (h : GenericTokens s ts) :
      GenericTokens (.optional s) (.ident "Option" :: .punct '<' i :: (ts ++ [.punct '>' j]))

/-- A shape in the generic spelling, without white space. -/
inductive SpellsGeneric : TypeShape → List Char → Prop
  | bare {cs : List Char} (h : isPlainName cs = true) : SpellsGeneric (.bare (String.ofList cs)) cs
  | array {s : TypeShape} {cs : List Char} (h : SpellsGeneric s cs) :
      SpellsGeneric (.array s) ("Vec".toList ++ '<' :: (cs ++ ['>']))
  | optional {s : TypeShape} {cs : List Char} (h : SpellsGeneric s cs) :
      SpellsGeneric (.optional s) ("Option".toList ++ '<' :: (cs ++ ['>']))

theorem spellsGeneric_of_spells (h : Spells s cs) (hb : '[' ∉ cs) (hq : '?' ∉ cs) :
    SpellsGeneric s cs := by
  induction h with
  | bare h => exact .bare h
  | optional => exact absurd (by simp) hq
  | array => exact absurd (by simp) hb
  | option h ih =>
    simp only [List.mem_append, not_or] at hb hq
    simpa using SpellsGeneric.optional (ih hb.1.2 hq.1.2)
  | vec h ih =>
    simp only [List.mem_append, not_or] at hb hq
    simpa using SpellsGeneric.array (ih hb.1.2 hq.1.2)

theorem spellsGeneric_render (h : s.IsPlain) : SpellsGeneric s (s.render .generic).toList := by
  induction s with
  | bare name =>
    have hs : SpellsGeneric (.bare (String.ofList name.toList)) name.toList := .bare h
    rwa [String.ofList_toList] at hs
  | array s ih => simpa [TypeShape.render] using SpellsGeneric.array (ih h)
  | optional s ih => simpa [TypeShape.render] using SpellsGeneric.optional (ih h)
  | foreign => cases h

theorem SpellsGeneric.eq_render (h : SpellsGeneric s w) : w = (s.render .generic).toList := by
  induction h with
  | bare => exact String.toList_ofList.symm
  | array _ ih => simp [TypeShape.render, ← ih]
  | optional _ ih => simp [TypeShape.render, ← ih]

theorem SpellsGeneric.head (h : SpellsGeneric s w) :
    ∃ c v, w = c :: v ∧ (c.isAlphanum || c == '_') = true := by
  cases h with
  | bare h =>
    cases w with
    | nil => cases h
    | cons c v => exact ⟨c, v, rfl, mem_of_isPlainName h (List.mem_cons_self ..)⟩
  | array => exact ⟨'V', _, rfl, by decide⟩
  | optional => exact ⟨'O', _, rfl, by decide⟩

/-- A type does not begin with a byte order mark. -/
theorem SpellsGeneric.head?_ne {cs : List Char} (h : SpellsGeneric s (solidIn cs)) :
    cs.head? ≠ some '\ufeff' := by
  obtain ⟨c, v, hw, hc⟩ := h.head
  cases cs with
  | nil => simp
  | cons d ds =>
    rintro hd
    cases hd
    rw [solidIn_cons (by decide)] at hw
    cases hw
    exact absurd hc (by decide)

/-- The parts of a text around the angle brackets of its outermost type. -/
theorem exists_of_solidIn (h : solidIn cs = w ++ '<' :: (v ++ ['>'])) :
    ∃ u t ds, cs = u ++ '<' :: (t ++ '>' :: ds) ∧ solidIn u = w ∧ solidIn t = v ∧ solidIn ds = [] := by
  obtain ⟨u, r, rfl, hu, hr⟩ := List.filter_eq_append_iff.1 h
  obtain ⟨bs, r, rfl, hb, -, hr⟩ := List.filter_eq_cons_iff.1 hr
  obtain ⟨t, r, rfl, ht, hr⟩ := List.filter_eq_append_iff.1 hr
  obtain ⟨es, ds, rfl, he, -, hd⟩ := List.filter_eq_cons_iff.1 hr
  refine ⟨u ++ bs, t ++ es, ds, by simp, ?_, ?_, hd⟩
  · rw [solidIn, List.filter_append, hu, List.filter_eq_nil_iff.2 hb, List.append_nil]
  · rw [solidIn, List.filter_append, ht, List.filter_eq_nil_iff.2 he, List.append_nil]

theorem splitsName_angles (u t : List Char) (hd : solidIn ds = []) :
    splitsName (u ++ '<' :: (t ++ '>' :: ds)) = (splitsName u || splitsName t) := by
  rw [splitsName_around (by decide) (by decide), splitsName_around (by decide) (by decide),
    splitsName_of_blank (solidIn_eq_nil.1 hd), Bool.or_false]

/-- A word and an opening bracket, with white space around them. -/
theorem lexPlain_opening (hw : isPlainName w = true) (h : Whole w u) (t : List Char) :
    lexPlain (u ++ '<' :: t) =
      (lexPlain t).map fun ts => .ident (String.ofList w) :: .punct '<' (atMark t) :: ts := by
  obtain ⟨bs, ds, rfl, hb, hd⟩ := h
  have hends := endsName_append hd (endsName_angle (.inl rfl) t)
  rw [List.append_assoc, List.append_assoc, lexPlain_blank hb, lexPlain_name hw hends,
    lexPlain_blank hd, lexPlain_angle (.inl rfl), Option.map_map]
  rfl

/-- The texts of a shape that are read as its tokens, whatever follows them. -/
def LexesAs (s : TypeShape) (w : List Char) : Prop :=
  ∀ cs t, solidIn cs = w → splitsName cs = false → EndsName t →
    ∃ ts, GenericTokens s ts ∧ lexPlain (cs ++ t) = (lexPlain t).map (ts ++ ·)

theorem LexesAs.around (h : LexesAs s v) (hw : isPlainName w = true)
    (hcs : solidIn cs = w ++ '<' :: (v ++ ['>'])) (hs : splitsName cs = false) (t : List Char) :
    ∃ ts i j, GenericTokens s ts ∧ lexPlain (cs ++ t) = (lexPlain t).map
      ((.ident (String.ofList w) :: .punct '<' i :: (ts ++ [.punct '>' j])) ++ ·) := by
  obtain ⟨u, x, ds, rfl, hu, hx, hd⟩ := exists_of_solidIn hcs
  rw [splitsName_angles u x hd, Bool.or_eq_false_iff] at hs
  obtain ⟨ts, hts, hlex⟩ := h x _ hx hs.2 (endsName_angle (.inr rfl) (ds ++ t))
  refine ⟨ts, atMark (x ++ '>' :: (ds ++ t)), atMark (ds ++ t), hts, ?_⟩
  have happ : u ++ '<' :: (x ++ '>' :: ds) ++ t = u ++ '<' :: (x ++ '>' :: (ds ++ t)) := by simp
  rw [happ, lexPlain_opening hw (whole_of_name hw hu hs.1), hlex, lexPlain_angle (.inr rfl),
    lexPlain_blank hd]
  simp [Function.comp_def]

/-- The tokens of a text in the generic spelling, in which no white space splits a name. -/
theorem lexesAs_of_spellsGeneric (h : SpellsGeneric s w) : LexesAs s w := by
  induction h with
  | @bare w h =>
    intro cs t hcs hs ht
    obtain ⟨bs, ds, rfl, hb, hd⟩ := whole_of_name h hcs hs
    refine ⟨_, .bare, ?_⟩
    rw [List.append_assoc, List.append_assoc, lexPlain_blank hb,
      lexPlain_name h (endsName_append hd ht), lexPlain_blank hd]
    rfl
  | array _ ih =>
    intro cs t hcs hs ht
    obtain ⟨ts, i, j, hts, hlex⟩ := ih.around (by decide) hcs hs t
    exact ⟨_, .array hts, hlex⟩
  | optional _ ih =>
    intro cs t hcs hs ht
    obtain ⟨ts, i, j, hts, hlex⟩ := ih.around (by decide) hcs hs t
    exact ⟨_, .optional hts, hlex⟩

/-! ## Split names -/

mutual
/-- The words in a token, with those in a group. -/
def Token.words : Token → List String
  | .ident name => [name]
  | .group _ body => Token.wordsIn body
  | _ => []

/-- The words in a stream. -/
def Token.wordsIn : Tokens → List String
  | [] => []
  | t :: ts => t.words ++ wordsIn ts
end

theorem Token.wordsIn_append (ts us : Tokens) : wordsIn (ts ++ us) = wordsIn ts ++ wordsIn us := by
  induction ts with
  | nil => rfl
  | cons t ts ih => simp [wordsIn, ih]

theorem isPlainName_of_beginning (hx : x ≠ []) (hp : x <+: w) (h : isPlainName w = true) :
    isPlainName x = true := by
  obtain ⟨y, rfl⟩ := hp
  cases x with
  | nil => exact absurd rfl hx
  | cons c x =>
    rw [List.cons_append, isPlainName, List.all_append, Bool.and_eq_true, Bool.and_eq_true] at h
    rw [isPlainName, h.1, h.2.1]
    rfl

/-- The first word of a text that begins with a split name is only a part of the name. -/
theorem not_prefix_of_broken (hw : isPlainName w = true) (h : Broken w u)
    (hlex : lexPlain (u ++ t) = some ts) (names : List String) :
    ¬String.ofList w :: names <+: Token.wordsIn ts := by
  obtain ⟨bs, x, d, ds, rfl, hb, hx, hp, hne, hd⟩ := h
  rw [List.append_assoc, List.append_assoc, List.cons_append, lexPlain_blank hb,
    lexPlain_name (isPlainName_of_beginning hx hp hw) (endsName_blank hd _)] at hlex
  obtain ⟨ts, -, rfl⟩ := Option.map_eq_some_iff.1 hlex
  intro hprefix
  rw [Token.wordsIn, Token.words, List.singleton_append, List.cons_prefix_cons] at hprefix
  exact hne (by simpa using congrArg String.toList hprefix.1.symm)

/-- Texts of a shape in which white space splits a name have other words than the shape. -/
def SplitApart (s : TypeShape) (w : List Char) : Prop :=
  ∀ cs t ts, solidIn cs = w → splitsName cs = true → lexPlain (cs ++ t) = some ts →
    ¬genericWords s <+: Token.wordsIn ts

theorem SplitApart.around (h : SplitApart s v) (hw : isPlainName w = true)
    (hcs : solidIn cs = w ++ '<' :: (v ++ ['>'])) (hs : splitsName cs = true)
    (hlex : lexPlain (cs ++ t) = some ts) :
    ¬String.ofList w :: genericWords s <+: Token.wordsIn ts := by
  obtain ⟨u, x, ds, rfl, hu, hx, hd⟩ := exists_of_solidIn hcs
  have happ : u ++ '<' :: (x ++ '>' :: ds) ++ t = u ++ '<' :: (x ++ '>' :: (ds ++ t)) := by simp
  rw [happ] at hlex
  rw [splitsName_angles u x hd] at hs
  rcases name_cases (fun c => mem_of_isPlainName hw) (by rintro rfl; cases hw) hu with
    ⟨hsplit, hwhole⟩ | ⟨-, hbroken⟩
  · rw [hsplit, Bool.false_or] at hs
    rw [lexPlain_opening hw hwhole] at hlex
    obtain ⟨ts, hts, rfl⟩ := Option.map_eq_some_iff.1 hlex
    intro hprefix
    exact h x _ ts hx hs hts (List.cons_prefix_cons.1 hprefix).2
  · exact not_prefix_of_broken hw hbroken hlex _

theorem splitApart_of_spellsGeneric (h : SpellsGeneric s w) : SplitApart s w := by
  induction h with
  | bare h =>
    intro cs t ts hcs hs hlex
    rcases name_cases (fun c => mem_of_isPlainName h) (by rintro rfl; cases h) hcs with
      ⟨hsplit, -⟩ | ⟨-, hbroken⟩
    · rw [hs] at hsplit
      cases hsplit
    · exact not_prefix_of_broken h hbroken hlex []
  | array _ ih =>
    intro cs t ts hcs hs hlex
    exact ih.around (by decide) hcs hs hlex
  | optional _ ih =>
    intro cs t ts hcs hs hlex
    exact ih.around (by decide) hcs hs hlex

end Courier.Code
