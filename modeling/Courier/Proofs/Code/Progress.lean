import Courier.Code.Lexer
import Mathlib.Data.List.TakeWhile

/-!
Progress of reading. Each step takes at least one character, so reading a text that is long enough
never ends for want of steps, and the number of steps does not matter.
-/
namespace Courier.Text

variable {form : QuoteForm} {cs body r : List Char}

theorem readQuoted_length (h : readQuoted form cs = some (body, r)) : r.length < cs.length := by
  fun_induction readQuoted form cs generalizing body with
  | case1 => cases h
  | case2 t => cases h; simp
  | case3 t ih =>
    obtain ⟨p, hp, h⟩ := Option.map_eq_some_iff.1 h
    cases h
    have := ih hp
    simp only [List.length_cons]
    omega
  | case4 => cases h
  | case5 t _ t' ht ih =>
    have := ih h
    have := skipContinuation_length ht
    simp only [List.length_cons]
    omega
  | case6 => cases h
  | case7 t _ c t' ht ih =>
    obtain ⟨p, hp, h⟩ := Option.map_eq_some_iff.1 h
    cases h
    have := ih hp
    have := readEscape_length ht
    simp only [List.length_cons]
    omega
  | case8 => cases h
  | case9 => cases h
  | case10 c t _ _ _ _ _ ih =>
    obtain ⟨p, hp, h⟩ := Option.map_eq_some_iff.1 h
    cases h
    have := ih hp
    simp only [List.length_cons]
    omega

theorem readRaw_length {hashes : Nat} (h : readRaw form hashes cs = some (body, r)) :
    r.length < cs.length := by
  fun_induction readRaw form hashes cs generalizing body with
  | case1 => cases h
  | case2 t ih =>
    obtain ⟨p, hp, h⟩ := Option.map_eq_some_iff.1 h
    cases h
    have := ih hp
    simp only [List.length_cons]
    omega
  | case3 => cases h
  | case4 c t =>
    cases h
    simp only [List.length_cons, List.length_drop]
    omega
  | case5 => cases h
  | case6 c t _ _ _ _ ih =>
    obtain ⟨p, hp, h⟩ := Option.map_eq_some_iff.1 h
    cases h
    have := ih hp
    simp only [List.length_cons]
    omega

end Courier.Text

namespace Courier.Code
open Text

variable {form : QuoteForm} {cs name body r : List Char}

/-! ## Comments and names -/

theorem lineComment_length (cs : List Char) : (lineComment cs).2.length ≤ cs.length := by
  fun_induction lineComment cs with
  | case1 => simp
  | case2 => simp
  | case3 => simp
  | case4 c t _ _ p ih => exact Nat.le_succ_of_le ih

theorem lineComment_rest (cs : List Char) : (lineComment cs).2 = cs.dropWhile (· != '\n') := by
  fun_induction lineComment cs with
  | case1 => rfl
  | case2 => rfl
  | case3 => rfl
  | case4 c t hc _ p ih =>
    rw [List.dropWhile_cons_of_pos (by simpa using fun h => hc h), ← ih]

theorem blockComment_length {depth : Nat} (h : blockComment depth cs = some (body, r)) :
    r.length < cs.length := by
  fun_induction blockComment depth cs generalizing body with
  | case1 depth t ih =>
    obtain ⟨p, hp, h⟩ := Option.map_eq_some_iff.1 h
    cases h
    have := ih hp
    simp only [List.length_cons]
    omega
  | case2 t =>
    cases h
    simp only [List.length_cons]
    omega
  | case3 t d ih =>
    obtain ⟨p, hp, h⟩ := Option.map_eq_some_iff.1 h
    cases h
    have := ih hp
    simp only [List.length_cons]
    omega
  | case4 depth c t _ _ ih =>
    obtain ⟨p, hp, h⟩ := Option.map_eq_some_iff.1 h
    cases h
    have := ih hp
    simp only [List.length_cons]
    omega
  | case5 => cases h

theorem identText_length (h : identText cs = some (name, r)) : r.length < cs.length := by
  cases cs with
  | nil => cases h
  | cons c cs =>
    rw [identText] at h
    split at h
    · cases h
      exact Nat.lt_succ_of_le (List.dropWhile_suffix _).length_le
    · cases h

theorem identOrRaw_length (h : identOrRaw cs = some (name, r)) : r.length < cs.length := by
  unfold identOrRaw at h
  split at h
  · obtain ⟨p, hp, h⟩ := Option.bind_eq_some_iff.1 h
    have := identText_length hp
    simp only at h
    split at h <;> cases h
    simp only [List.length_cons]
    omega
  · exact identText_length h

theorem afterSuffix_length (cs : List Char) : (afterSuffix cs).length ≤ cs.length := by
  unfold afterSuffix
  split
  · rename_i h
    exact Nat.le_of_lt (identText_length h)
  · exact Nat.le_refl _

/-! ## Literals -/

theorem afterRaw_length (h : afterRaw form cs = some r) : r.length ≤ cs.length := by
  rw [afterRaw] at h
  split at h
  · rename_i t ht
    split at h
    · cases h
    · obtain ⟨p, hp, h⟩ := Option.map_eq_some_iff.1 h
      cases h
      have := readRaw_length hp
      have := afterSuffix_length p.2
      have hd := (List.dropWhile_suffix (l := cs) (· == '#')).length_le
      rw [ht, List.length_cons] at hd
      omega
  · cases h

theorem afterQuoted_length (h : afterQuoted form cs = some r) : r.length ≤ cs.length := by
  obtain ⟨p, hp, h⟩ := Option.map_eq_some_iff.1 h
  cases h
  have := readQuoted_length hp
  have := afterSuffix_length p.2
  omega

theorem afterCharacter_length (h : afterCharacter form cs = some r) : r.length ≤ cs.length := by
  have hrest : ∀ {t t' : List Char}, t = '\'' :: t' → t.length ≤ cs.length →
      (afterSuffix t').length ≤ cs.length := by
    rintro - t' rfl ht
    have := afterSuffix_length t'
    rw [List.length_cons] at ht
    omega
  unfold afterCharacter at h
  simp only at h
  split at h
  · rename_i t ht
    cases h
    split at ht
    · cases ht
    · obtain ⟨p, hp, ht⟩ := Option.map_eq_some_iff.1 ht
      have := readEscape_length hp
      refine hrest ht ?_
      simp only [List.length_cons]
      omega
    · split at ht
      · cases ht
      · exact hrest (Option.some.inj ht) (by simp)
  · cases h

theorem afterExponent_length {signed valued : Bool} (h : afterExponent signed valued cs = some r) :
    r.length ≤ cs.length := by
  induction cs generalizing signed valued with
  | nil =>
    rw [afterExponent] at h
    split at h <;> cases h
    exact Nat.le_refl _
  | cons c cs ih =>
    rw [afterExponent] at h
    split at h
    · split at h
      · cases h
        exact Nat.le_refl _
      · split at h
        · cases h
        · exact Nat.le_succ_of_le (ih h)
    · split at h
      · exact Nat.le_succ_of_le (ih h)
      · split at h
        · exact Nat.le_succ_of_le (ih h)
        · split at h <;> cases h
          exact Nat.le_refl _

theorem afterNumber_length (h : afterNumber cs = some r) : r.length ≤ cs.length := by
  have hs := afterSuffix_length cs
  rw [afterNumber] at h
  split at h
  · cases h
    exact Nat.zero_le _
  · rename_i ht
    rw [ht] at hs
    split at h <;> cases h
    exact hs

theorem afterFloatDigits_length (h : afterFloatDigits cs = some r) : r.length < cs.length := by
  have hd : ∀ t : List Char, (t.dropWhile isDigitOrLow).length ≤ t.length := fun t =>
    (List.dropWhile_suffix _).length_le
  have he : ∀ {e : Char} {t : List Char}, ((afterExponent false false t).getD (e :: t)).length ≤
      (e :: t).length := by
    intro e t
    cases ha : afterExponent false false t with
    | none => exact Nat.le_refl _
    | some u => exact Nat.le_succ_of_le (afterExponent_length ha)
  unfold afterFloatDigits at h
  split at h
  · cases h
  · rename_i c t
    have ht := hd t
    simp only [List.length_cons]
    split at h
    · cases h
    · split at h
      · rename_i u hu
        have hu' := hd u
        rw [hu, List.length_cons] at ht
        split at h
        · cases h
        · split at h
          · rename_i v hv
            cases h
            rw [hv] at hu'
            have := he (e := 'e') (t := v)
            omega
          · rename_i v hv
            cases h
            rw [hv] at hu'
            have := he (e := 'E') (t := v)
            omega
          · cases h
            omega
      · rename_i u hu
        have := afterExponent_length h
        rw [hu, List.length_cons] at ht
        omega
      · rename_i u hu
        have := afterExponent_length h
        rw [hu, List.length_cons] at ht
        omega
      · cases h

/-- Until a digit was read, there is no end. -/
theorem afterDigits_length {base : Nat} {empty : Bool} (h : afterDigits base empty cs = some r) :
    r.length + empty.toNat ≤ cs.length := by
  induction cs generalizing empty with
  | nil => cases empty <;> cases h; simp
  | cons c cs ih =>
    rw [afterDigits] at h
    have hend : (if empty = true then none else some (c :: cs)) = some r →
        r.length + empty.toNat ≤ (c :: cs).length := by
      intro h
      cases empty <;> cases h
      simp
    have hnext : ∀ {e : Bool}, afterDigits base e cs = some r →
        r.length + empty.toNat ≤ (c :: cs).length := by
      intro e h
      have := ih h
      have := empty.toNat_le
      simp only [List.length_cons]
      omega
    split at h
    · split at h
      · cases h
      · exact hnext h
    · split at h
      · split at h
        · exact hnext h
        · split at h
          · cases h
          · exact hend h
      · exact hend h

theorem afterWholeDigits_length (h : afterWholeDigits cs = some r) : r.length < cs.length := by
  unfold afterWholeDigits at h
  split at h
  iterate 3
    have := afterDigits_length h
    simp only [List.length_cons]
    omega
  exact afterDigits_length h

theorem afterTextLiteral_length (h : afterTextLiteral cs = some r) : r.length < cs.length := by
  unfold afterTextLiteral at h
  split at h
  · exact Nat.lt_succ_of_le (afterQuoted_length h)
  · exact Nat.lt_succ_of_le (afterRaw_length h)
  · have := afterQuoted_length h
    simp only [List.length_cons]
    omega
  · have := afterRaw_length h
    simp only [List.length_cons]
    omega
  · have := afterCharacter_length h
    simp only [List.length_cons]
    omega
  · have := afterQuoted_length h
    simp only [List.length_cons]
    omega
  · have := afterRaw_length h
    simp only [List.length_cons]
    omega
  · exact Nat.lt_succ_of_le (afterCharacter_length h)
  · cases h

theorem afterLiteral_length (h : afterLiteral cs = some r) : r.length < cs.length := by
  rcases Option.or_eq_some_iff.1 h with h | ⟨-, h⟩
  · exact afterTextLiteral_length h
  · rcases Option.or_eq_some_iff.1 h with h | ⟨-, h⟩
    · obtain ⟨t, ht, h⟩ := Option.bind_eq_some_iff.1 h
      exact Nat.lt_of_le_of_lt (afterNumber_length h) (afterFloatDigits_length ht)
    · obtain ⟨t, ht, h⟩ := Option.bind_eq_some_iff.1 h
      exact Nat.lt_of_le_of_lt (afterNumber_length h) (afterWholeDigits_length ht)

/-! ## Steps -/

theorem readMark_length {t : Token} (h : readMark cs = some (t, r)) : r.length < cs.length := by
  unfold readMark at h
  split at h
  · cases h
  · obtain ⟨p, -, h⟩ := Option.bind_eq_some_iff.1 h
    simp only at h
    split at h
    · cases h
    · split at h <;> cases h
      simp
    · cases h
      simp
  · split at h <;> cases h
    simp

/-- The text that a step leaves. -/
def Step.rest? : Step → Option (List Char)
  | .skip r | .emit _ r | .enter _ r => some r
  | .stop | .fail => none

theorem docStep_rest {inner : Bool} {rest : List Char} (h : (docStep inner body rest).rest? = some r) :
    r = rest := by
  rw [docStep] at h
  split at h <;> cases h
  rfl

/-- A comment is not closed, or dropped, or documents something; what is left is shorter. -/
theorem commentStep_cases (cs : List Char) : commentStep cs = .fail ∨
    (∃ r, commentStep cs = .skip r ∧ r.length < cs.length) ∨
    ∃ inner body r, commentStep cs = docStep inner body r ∧ r.length < cs.length := by
  have hline : ∀ (c : Char) (t : List Char), (lineComment t).2.length < (c :: t).length := fun _ t =>
    Nat.lt_succ_of_le (lineComment_length t)
  unfold commentStep
  split
  · exact .inr (.inr ⟨_, _, _, rfl, (hline '!' _).trans (by simp)⟩)
  · exact .inr (.inl ⟨_, rfl, (hline '/' _).trans (by simp)⟩)
  · exact .inr (.inr ⟨_, _, _, rfl, (hline '/' _).trans (by simp)⟩)
  · exact .inr (.inl ⟨_, rfl, (hline '/' _).trans (by simp)⟩)
  · exact .inr (.inl ⟨_, rfl, by simp only [List.length_cons]; omega⟩)
  · split
    · exact .inl rfl
    all_goals
      have hlt := blockComment_length ‹_›
    · exact .inr (.inr ⟨_, _, _, rfl, by simp only [List.length_cons]; omega⟩)
    · exact .inr (.inl ⟨_, rfl, by simp only [List.length_cons]; omega⟩)
    · exact .inr (.inr ⟨_, _, _, rfl, by simp only [List.length_cons]; omega⟩)
    · exact .inr (.inl ⟨_, rfl, by simp only [List.length_cons]; omega⟩)
  · exact .inl rfl

theorem commentStep_length (h : (commentStep cs).rest? = some r) : r.length < cs.length := by
  obtain hc | ⟨t, hc, ht⟩ | ⟨inner, body, t, hc, ht⟩ := commentStep_cases cs
  · rw [hc] at h
    cases h
  · rw [hc] at h
    cases h
    exact ht
  · rw [hc] at h
    rwa [docStep_rest h]

theorem leafStep_length (h : (leafStep cs).rest? = some r) : r.length < cs.length := by
  rw [leafStep] at h
  split at h
  · cases h
    exact afterLiteral_length ‹_›
  · split at h
    · cases h
      exact readMark_length ‹_›
    · split at h
      · cases h
      · split at h <;> cases h
        exact identOrRaw_length ‹_›

/-- Each step takes at least one character. -/
theorem nextStep_length (h : (nextStep cs).rest? = some r) : r.length < cs.length := by
  unfold nextStep at h
  split at h
  · cases h
  · rename_i c t
    split at h
    · exact commentStep_length h
    · split at h
      · cases h
        simp
      · split at h
        · split at h <;> cases h
          · rw [List.length_drop]
            exact Nat.sub_lt (Nat.succ_pos _) (by decide)
          · simp
        · cases h
          simp
        · cases h
          simp
        iterate 3 cases h
        · exact leafStep_length h

/-! ## Reading -/

theorem close_length {d : Delimiter} (h : close d cs = some r) : r.length < cs.length := by
  unfold close at h
  split at h <;> cases h <;> simp

theorem lexUntil_length {n : Nat} {ts : Tokens} (h : lexUntil n cs = some (ts, r)) :
    r.length ≤ cs.length := by
  induction n generalizing cs ts r with
  | zero => cases h
  | succ n ih =>
    rw [lexUntil] at h
    have hp := fun r => @nextStep_length cs r
    split at h <;> rename_i hs <;> rw [hs] at hp
    · have := ih h
      have := hp _ rfl
      omega
    · obtain ⟨p, hl, h⟩ := Option.map_eq_some_iff.1 h
      cases h
      have := ih hl
      have := hp _ rfl
      omega
    · obtain ⟨p, hl, h⟩ := Option.bind_eq_some_iff.1 h
      obtain ⟨t, hc, h⟩ := Option.bind_eq_some_iff.1 h
      obtain ⟨q, hq, h⟩ := Option.bind_eq_some_iff.1 h
      cases h
      have := ih hl
      have := close_length hc
      have := ih hq
      have := hp _ rfl
      omega
    · cases h
      exact Nat.le_refl _
    · cases h

/-- More steps than characters are as good as any such number. -/
theorem lexUntil_eq {n m : Nat} (hn : cs.length < n) (hm : cs.length < m) :
    lexUntil n cs = lexUntil m cs := by
  induction n generalizing cs m with
  | zero => cases hn
  | succ n ih =>
    cases m with
    | zero => cases hm
    | succ m =>
      have hp := fun r => @nextStep_length cs r
      rw [lexUntil, lexUntil]
      split <;> rename_i hs <;> rw [hs] at hp
      · have := hp _ rfl
        exact ih (by omega) (by omega)
      · have := hp _ rfl
        rw [ih (m := m) (by omega) (by omega)]
      · have := hp _ rfl
        rw [ih (m := m) (by omega) (by omega)]
        refine Option.bind_congr fun p hl => Option.bind_congr fun t hc => ?_
        have := lexUntil_length hl
        have := close_length hc
        rw [ih (m := m) (by omega) (by omega)]

/-- The tokens of a text that has no byte order mark. -/
def lexPlain (cs : List Char) : Option Tokens :=
  match lexUntil (cs.length + 1) cs with
  | some (ts, []) => some ts
  | _ => none

theorem lexChars_eq_lexPlain (h : cs.head? ≠ some '\ufeff') : lexChars cs = lexPlain cs := by
  rw [lexChars, if_neg h]
  rfl

/-! ## Steps of reading -/

section
variable {t u : List Char} {ts group : Tokens} {d : Delimiter}

/-- The tokens up to a closing bracket or the end of a text, and what is left. -/
def lexFrom (cs : List Char) : Option (Tokens × List Char) := lexUntil (cs.length + 1) cs

theorem lexUntil_eq_lexFrom {n : Nat} (h : cs.length < n) : lexUntil n cs = lexFrom cs :=
  lexUntil_eq h (Nat.lt_succ_self _)

theorem lexFrom_stop (h : nextStep cs = .stop) : lexFrom cs = some ([], cs) := by
  rw [lexFrom, lexUntil, h]

theorem lexFrom_skip (h : nextStep cs = .skip r) : lexFrom cs = lexFrom r := by
  have hr : r.length < cs.length := nextStep_length (by rw [h]; rfl)
  rw [lexFrom, lexUntil, h]
  exact lexUntil_eq_lexFrom hr

theorem lexFrom_emit (h : nextStep cs = .emit ts r) :
    lexFrom cs = (lexFrom r).map fun p => (ts ++ p.1, p.2) := by
  have hr : r.length < cs.length := nextStep_length (by rw [h]; rfl)
  rw [lexFrom, lexUntil, h]
  simp only
  rw [lexUntil_eq_lexFrom hr]

theorem lexFrom_enter (h : nextStep cs = .enter d r) (hb : lexFrom r = some (group, t))
    (hc : close d t = some u) :
    lexFrom cs = (lexFrom u).map fun p => (.group d group :: p.1, p.2) := by
  have hr : r.length < cs.length := nextStep_length (by rw [h]; rfl)
  have ht : t.length ≤ r.length := lexUntil_length hb
  have hu : u.length < t.length := close_length hc
  rw [lexFrom, lexUntil, h]
  simp only
  rw [lexUntil_eq_lexFrom hr, hb]
  simp only [Option.bind_eq_bind, Option.bind_some, hc]
  rw [lexUntil_eq_lexFrom (by omega)]
  cases lexFrom u <;> rfl

theorem lexPlain_eq (cs : List Char) : lexPlain cs =
    match lexFrom cs with
    | some (ts, []) => some ts
    | _ => none := rfl

theorem lexPlain_skip (h : nextStep cs = .skip r) : lexPlain cs = lexPlain r := by
  rw [lexPlain_eq, lexPlain_eq, lexFrom_skip h]

theorem lexPlain_emit (h : nextStep cs = .emit ts r) : lexPlain cs = (lexPlain r).map (ts ++ ·) := by
  rw [lexPlain_eq, lexPlain_eq, lexFrom_emit h]
  rcases lexFrom r with _ | ⟨us, _ | _⟩ <;> rfl

end

end Courier.Code
