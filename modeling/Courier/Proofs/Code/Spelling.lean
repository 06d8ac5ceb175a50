import Courier.Proofs.Code.Suffix

/-!
Spellings of identifiers: the texts that an identifier is read from, and what is read where letters
stand behind such a text.
-/
namespace Courier.Code
open Text

variable {cs name r s t u letters : List Char} {x y : String}

/-! ## Skipped text -/

/-- White space and comments are all that stands before a part of a text. -/
inductive SkipsTo : List Char → List Char → Prop
  | refl (cs : List Char) : SkipsTo cs cs
  | step {cs r t : List Char} (h : nextStep cs = .skip r) (hr : SkipsTo r t) : SkipsTo cs t

theorem SkipsTo.of_nil (h : SkipsTo [] t) : t = [] := by
  cases h with
  | refl => rfl
  | step h _ => cases h

theorem SkipsTo.lexPlain_eq (h : SkipsTo cs t) : lexPlain cs = lexPlain t := by
  induction h with
  | refl => rfl
  | step h _ ih => rw [lexPlain_skip h, ih]

theorem SkipsTo.append (hl : isPlainName letters = true) (h : SkipsTo cs t) (ht : t ≠ []) :
    SkipsTo (cs ++ letters) (t ++ letters) := by
  induction h with
  | refl => exact .refl _
  | step h hr ih =>
    obtain ⟨t', ht' | ⟨-, hnil, -⟩, hs⟩ := nextStep_append_of_skip hl h
    · exact .step (ht' ▸ hs) (ih ht)
    · subst hnil
      exact absurd hr.of_nil ht

theorem lexPlain_eq_nil : lexPlain cs = some [] ↔ SkipsTo cs [] := by
  refine ⟨fun h => ?_, fun h => h.lexPlain_eq.trans (by decide +kernel)⟩
  induction hn : cs.length using Nat.strong_induction_on generalizing cs with
  | _ n ih =>
    subst hn
    rcases lexPlain_cases h with ⟨rfl, -⟩ | ⟨r, hs, hr⟩ | ⟨es, us, r, hs, -, he⟩ | ⟨d, body, us, he⟩
    · exact .refl _
    · exact .step hs (ih _ (nextStep_length (by rw [hs]; rfl)) hr rfl)
    · have hv := @visible_nextStep cs
      rw [hs] at hv
      exact absurd (List.append_eq_nil_iff.1 he.symm).1 hv.1
    · cases he

/-- Only an open comment takes letters that stand behind skipped text. -/
theorem SkipsTo.openComment (hl : isPlainName letters = true) (h : SkipsTo cs []) (hcs : cs ≠ [])
    (happ : lexPlain (cs ++ letters) = some []) : ∃ t, SkipsTo cs t ∧ OpenComment t := by
  generalize he : ([] : List Char) = e at h
  induction h with
  | refl => exact absurd he.symm hcs
  | @step cs r t h hr ih =>
    obtain ⟨t', ht' | ⟨ho, -⟩, hs⟩ := nextStep_append_of_skip hl h
    · rw [lexPlain_skip hs, ht'] at happ
      by_cases hnil : r = []
      · rw [hnil, List.nil_append, lexPlain_letters hl] at happ
        cases happ
      · obtain ⟨u, hu, ho⟩ := ih hnil happ he
        exact ⟨u, .step h hu, ho⟩
    · exact ⟨cs, .refl _, ho⟩

/-! ## Identifiers in a text -/

theorem eq_append_of_identText (h : identText cs = some (name, r)) : cs = name ++ r := by
  cases cs with
  | nil => cases h
  | cons c cs =>
    rw [identText] at h
    split at h
    · cases h
      rw [List.cons_append, List.takeWhile_append_dropWhile]
    · cases h

theorem eq_append_of_identOrRaw (h : identOrRaw cs = some (name, r)) : cs = name ++ r := by
  unfold identOrRaw at h
  split at h
  · obtain ⟨⟨name, rest⟩, hi, h⟩ := Option.bind_eq_some_iff.1 h
    simp only at h
    split at h <;> cases h
    rw [eq_append_of_identText hi]
    rfl
  · exact eq_append_of_identText h

theorem eq_append_of_nextStep (h : nextStep cs = .emit [.ident x] r) : cs = x.toList ++ r := by
  cases cs with
  | nil => cases h
  | cons c cs =>
    obtain ⟨-, -, name, hi, rfl⟩ := leafStep_eq_ident (nextStep_eq_ident h).2
    rw [String.toList_ofList]
    exact eq_append_of_identOrRaw hi

/-- An identifier is the first token of a text. The rest stands behind it. -/
def Leads (cs : List Char) (x : String) (r : List Char) : Prop :=
  ∃ t, SkipsTo cs t ∧ nextStep t = .emit [.ident x] r

theorem Leads.unique (h : Leads cs x r) (h' : Leads cs y s) : x = y ∧ r = s := by
  obtain ⟨t, ht, hx⟩ := h
  obtain ⟨u, hu, hy⟩ := h'
  induction ht with
  | refl =>
    cases hu with
    | refl =>
      rw [hx] at hy
      cases hy
      exact ⟨rfl, rfl⟩
    | step h _ =>
      rw [hx] at h
      cases h
  | step h _ ih =>
    cases hu with
    | refl =>
      rw [hy] at h
      cases h
    | step h' hr =>
      rw [h] at h'
      cases h'
      exact ih hx hr

theorem lexPlain_eq_ident : lexPlain cs = some [.ident x] ↔ ∃ r, Leads cs x r ∧ SkipsTo r [] := by
  constructor
  · intro h
    induction hn : cs.length using Nat.strong_induction_on generalizing cs with
    | _ n ih =>
      subst hn
      rcases lexPlain_cases h with ⟨-, he⟩ | ⟨r, hs, hr⟩ | ⟨es, us, r, hs, hu, he⟩ | ⟨d, body, us, he⟩
      · cases he
      · obtain ⟨v, ⟨t, ht, hx⟩, hv⟩ := ih _ (nextStep_length (by rw [hs]; rfl)) hr rfl
        exact ⟨v, ⟨t, .step hs ht, hx⟩, hv⟩
      · have hv := @visible_nextStep cs
        rw [hs] at hv
        rcases List.append_eq_singleton_iff.1 he.symm with ⟨rfl, -⟩ | ⟨rfl, rfl⟩
        · exact absurd rfl hv.1
        · exact ⟨r, ⟨cs, .refl _, hs⟩, lexPlain_eq_nil.1 hu⟩
      · cases he
  · rintro ⟨r, ⟨t, ht, hx⟩, hr⟩
    rw [ht.lexPlain_eq, lexPlain_emit hx, lexPlain_eq_nil.2 hr]
    rfl

/-! ## Texts -/

/-- A text behind its byte order mark. -/
def withoutMark (cs : List Char) : List Char := if cs.head? = some '\ufeff' then cs.tail else cs

theorem withoutMark_append (h : cs ≠ []) (letters : List Char) :
    withoutMark (cs ++ letters) = withoutMark cs ++ letters := by
  cases cs with
  | nil => exact absurd rfl h
  | cons c cs =>
    by_cases hc : c = '\ufeff' <;> simp [withoutMark, hc]

theorem lex_eq (text : String) : lex text = lexPlain (withoutMark text.toList) := rfl

/-- A text spells an identifier: nothing but white space and comments stands around it. -/
def SpellsName (text x : String) : Prop :=
  Tokens.isIdent x = true ∧ ∃ r, Leads (withoutMark text.toList) x r ∧ SkipsTo r []

/-- Behind the identifier of a text a comment begins that nothing ends. -/
def EndsInComment (text : String) : Prop :=
  ∃ x r t, Leads (withoutMark text.toList) x r ∧ SkipsTo r t ∧ OpenComment t

/-- No white space, comment or byte order mark begins with this character. -/
def isSolid (c : Char) : Bool := !isSpacing c && c != '/' && c != '\ufeff'

theorem spellsName_iff {text : String} :
    SpellsName text x ↔ Tokens.isIdent x = true ∧ lex text = some [.ident x] := by
  rw [SpellsName, lex_eq, lexPlain_eq_ident]

theorem SpellsName.unique {text : String} (h : SpellsName text x) (h' : SpellsName text y) : x = y := by
  obtain ⟨-, r, hr, -⟩ := h
  obtain ⟨-, s, hs, -⟩ := h'
  exact (hr.unique hs).1

theorem not_endsInComment {text : String} (h : Leads (withoutMark text.toList) x []) :
    ¬EndsInComment text := by
  rintro ⟨y, s, u, hy, hu, body, rfl, -⟩
  obtain ⟨-, rfl⟩ := h.unique hy
  cases hu.of_nil

/-- Letters behind a spelling end the identifier, unless a comment takes them. -/
theorem SpellsName.append {text suffix : String} (hl : isPlainName suffix.toList = true)
    (hr : StaysRaw suffix.toList) (h : SpellsName text x) (h' : SpellsName (text ++ suffix) y) :
    EndsInComment text ∧ y = x ∨ ¬EndsInComment text ∧ y = x ++ suffix := by
  obtain ⟨-, r, hlead, hskip⟩ := h
  have happ := (spellsName_iff.1 h').2
  obtain ⟨t, ht, hx⟩ := id hlead
  have htnil : t ≠ [] := by
    rintro rfl
    cases hx
  have hnil : text.toList ≠ [] := by
    intro hnil
    rw [hnil] at ht
    exact htnil ht.of_nil
  rw [lex_eq, String.toList_append, withoutMark_append hnil, (ht.append hl htnil).lexPlain_eq] at happ
  have hstep := nextStep_append_of_ident hl hr hx
  by_cases hrest : r = []
  · rw [if_pos hrest] at hstep
    rw [lexPlain_emit hstep, lexPlain_eq_nil.2 (.refl _)] at happ
    cases happ
    rw [String.ofList_toList]
    exact .inr ⟨not_endsInComment (hrest ▸ hlead), rfl⟩
  · rw [if_neg hrest] at hstep
    rw [lexPlain_emit hstep] at happ
    obtain ⟨us, hus, happ⟩ := Option.map_eq_some_iff.1 happ
    cases happ
    obtain ⟨u, hu, ho⟩ := hskip.openComment hl hrest hus
    exact .inl ⟨⟨_, r, u, hlead, hu, ho⟩, rfl⟩

theorem SkipsTo.eq_of_solid (h : SkipsTo cs t) (hs : cs.all isSolid = true) : t = cs := by
  cases h with
  | refl => rfl
  | step h _ =>
    cases cs with
    | nil => cases h
    | cons c cs =>
      have hc := (List.all_cons ..).symm.trans hs
      simp only [isSolid, Bool.and_eq_true, Bool.not_eq_true', bne_iff_ne, ne_eq] at hc
      have hsp := (isSpacing_of_skip (atComment_cons hc.1.1.2 _) h).1
      rw [hc.1.1.1] at hsp
      cases hsp

/-- A text of solid characters is the identifier that it spells. -/
theorem SpellsName.eq_of_solid {text : String} (h : SpellsName text x) (hs : text.toList.all isSolid = true) :
    text = x ∧ ¬EndsInComment text := by
  have hmark : withoutMark text.toList = text.toList := by
    refine if_neg fun hm => ?_
    have := List.all_eq_true.1 hs _ (List.mem_of_head? hm)
    revert this
    decide
  obtain ⟨-, r, hlead, hr⟩ := h
  obtain ⟨t, ht, hx⟩ := id hlead
  rw [hmark] at ht
  obtain rfl := ht.eq_of_solid hs
  have htext := eq_append_of_nextStep hx
  rw [htext, List.all_append, Bool.and_eq_true] at hs
  obtain rfl := hr.eq_of_solid hs.2
  exact ⟨String.toList_inj.1 (htext.trans (List.append_nil _)), not_endsInComment hlead⟩

end Courier.Code

namespace Courier.Emit
open Code

theorem identifier?_eq_some {text x : String} : identifier? text = some x ↔ SpellsName text x := by
  rw [spellsName_iff]
  refine ⟨fun h => (lex_of_identifier? h).symm, fun ⟨hi, hl⟩ => ?_⟩
  have hp : parseIdent [.ident x] = .ok (Code.Tree.word x) :=
    Parser.all_of_run (Parser.ident_run hi)
  rw [identifier?, hl]
  simp only [Option.bind_eq_bind, Option.bind_some, hp]
  rfl

end Courier.Emit
