import Courier.Code.Grammar
import Courier.Proofs.Code.Front
import Courier.Proofs.Code.Generic
import Mathlib.Data.List.Chain

/-!
The letters of tokens, which are all that the shape of a type depends on, and the places where other
letters make no difference to it.
-/
namespace Courier.Code

/-! ## Letters -/

def Delimiter.opening : Delimiter → List Char
  | .paren => ['(']
  | .bracket => ['[']
  | .brace => ['{']
  | .hidden => []

def Delimiter.closing : Delimiter → List Char
  | .paren => [')']
  | .bracket => [']']
  | .brace => ['}']
  | .hidden => []

mutual
/-- The characters of a token that are not white space. -/
def Token.letters : Token → List Char
  | .ident name => solid name
  | .punct mark _ => solidIn [mark]
  | .literal text => solid text
  | .group d body => d.opening ++ (lettersOf body ++ d.closing)

/-- The characters of a stream that are not white space. -/
def Token.lettersOf : Tokens → List Char
  | [] => []
  | t :: ts => t.letters ++ lettersOf ts
end

namespace Token

variable {ts us r : Tokens} {t : Token}

@[simp] theorem lettersOf_nil : lettersOf [] = [] := rfl

@[simp] theorem lettersOf_cons (t : Token) (ts : Tokens) :
    lettersOf (t :: ts) = t.letters ++ lettersOf ts := by
  rw [lettersOf]

@[simp] theorem lettersOf_append (ts us : Tokens) :
    lettersOf (ts ++ us) = lettersOf ts ++ lettersOf us := by
  induction ts with
  | nil => rfl
  | cons t ts ih => rw [List.cons_append, lettersOf_cons, lettersOf_cons, ih, List.append_assoc]

theorem solid_append (s t : String) : solid (s ++ t) = solid s ++ solid t := by
  simp [solid]

theorem solid_textList_cons (t : Token) (ts : Tokens) :
    solid (textList (t :: ts)) = solid t.text ++ solid (textList ts) := by
  have hspace : solid " " = [] := by decide
  rcases ts with _ | ⟨u, us⟩
  · rw [textList, textList]
    simp [solid]
  · generalize hr : u :: us = r
    have hne : r = [] → False := by simp [← hr]
    rcases t with _ | ⟨m, _ | _⟩ | _ | _
    case punct.true =>
      rw [textList, solid_append, text]
      exact hne
    all_goals
      rw [textList]
      · simp [solid_append, hspace]
      · exact hne
      · simp

mutual
theorem solid_text (t : Token) : solid t.text = t.letters := by
  match t with
  | .ident _ | .literal _ => rw [text, letters]
  | .punct _ _ => simp [text, letters, solid, solidIn]
  | .group .paren body | .group .bracket body =>
    simp only [text, solid_append, solid_textList body, letters, List.append_assoc]
    rfl
  | .group .hidden body =>
    simp [text, solid_textList body, letters, Delimiter.opening, Delimiter.closing]
  | .group .brace [] => rfl
  | .group .brace (t :: ts) =>
    simp only [text, solid_append, solid_textList (t :: ts), letters, List.append_assoc]
    rfl

/-- The text of a stream is its letters, with white space. -/
theorem solid_textList (ts : Tokens) : solid (textList ts) = lettersOf ts := by
  match ts with
  | [] => rfl
  | t :: ts => rw [solid_textList_cons, solid_text t, solid_textList ts, lettersOf_cons]
end

end Token

/-! ## What is behind hidden groups -/

section
open Token Tokens
variable {ts r : Tokens} {t : Token} {s : String}

mutual
theorem lettersOf_openToken (t : Token) : lettersOf (openToken t) = t.letters := by
  match t with
  | .ident _ | .punct _ _ | .literal _ | .group .paren _ | .group .bracket _ | .group .brace _ =>
    simp [openToken]
  | .group .hidden body =>
    rw [openToken, lettersOf_openFront body, letters]
    simp [Delimiter.opening, Delimiter.closing]

theorem lettersOf_openFront (ts : Tokens) : lettersOf (openFront ts) = lettersOf ts := by
  match ts with
  | [] => rfl
  | t :: ts =>
    have ht := lettersOf_openToken t
    rw [openFront, lettersOf_cons, ← ht]
    split
    · rename_i h
      rw [h, lettersOf_openFront ts]
      rfl
    · rename_i h
      rw [h]
      simp
end

theorem lettersOf_of_next? (h : next? ts = some (t, r)) :
    lettersOf ts = t.letters ++ lettersOf r := by
  rw [← lettersOf_openFront, ← lettersOf_cons]
  rw [next?] at h
  split at h <;> cases h
  rename_i ho
  rw [ho]

theorem lettersOf_of_afterMarks {cs : List Char} (h : afterMarks cs ts = some r) :
    lettersOf ts = solidIn cs ++ lettersOf r := by
  induction cs generalizing ts with
  | nil =>
    cases h
    rfl
  | cons c cs ih =>
    rw [afterMarks] at h
    split at h
    · rename_i m joint left hn
      split at h
      · rename_i hm
        simp only [Bool.and_eq_true, decide_eq_true_eq] at hm
        rw [lettersOf_of_next? hn, ih h, letters, hm.1, ← List.append_assoc]
        simp [solidIn, ← List.filter_append]
      · cases h
    · cases h

theorem lettersOf_of_afterSign (h : afterSign s ts = some r) :
    lettersOf ts = solid s ++ lettersOf r :=
  lettersOf_of_afterMarks h

end

/-! ## Places where letters may be swapped -/

/-- No text with these letters in it has a shape. -/
def Foreign (w : List Char) : Prop := ∀ x y, shapeOf (x ++ (w ++ y)) = none

/-- In every text the one may stand for the other, and the shape stays. -/
def Swappable (u w : List Char) : Prop := ∀ x y, shapeOf (x ++ (u ++ y)) = shapeOf (x ++ (w ++ y))

section
variable {a b u v w : List Char} {c : Char}

theorem Foreign.append_left (h : Foreign w) (u : List Char) : Foreign (u ++ w) := fun x y => by
  have hw := h (x ++ u) y
  rwa [List.append_assoc, ← List.append_assoc u] at hw

theorem Foreign.append_right (h : Foreign w) (u : List Char) : Foreign (w ++ u) := fun x y => by
  rw [List.append_assoc]
  exact h x (u ++ y)

theorem Swappable.refl (u : List Char) : Swappable u u := fun _ _ => rfl

theorem Swappable.append (h : Swappable a b) (h' : Swappable u v) :
    Swappable (a ++ u) (b ++ v) := by
  intro x y
  have ha := h x (u ++ y)
  have hu := h' (x ++ b) y
  rw [List.append_assoc, List.append_assoc] at hu
  rw [List.append_assoc, List.append_assoc, ha, hu]

theorem Swappable.append_left (h : Swappable u v) (w : List Char) : Swappable (w ++ u) (w ++ v) :=
  (refl w).append h

theorem Swappable.append_right (h : Swappable u v) (w : List Char) : Swappable (u ++ w) (v ++ w) :=
  h.append (refl w)

theorem Swappable.trans (h : Swappable u v) (h' : Swappable v w) : Swappable u w :=
  fun x y => (h x y).trans (h' x y)

theorem Foreign.swappable (hu : Foreign u) (hv : Foreign v) : Swappable u v :=
  fun x y => (hu x y).trans (hv x y).symm

theorem Foreign.of_swappable (hu : Foreign u) (h : Swappable u v) : Foreign v :=
  fun x y => (h x y).symm.trans (hu x y)

theorem Swappable.shapeOf (h : Swappable u v) : shapeOf u = shapeOf v := by
  simpa using h [] []

/-- May the character stand in a text with a shape? -/
def isShapeChar (c : Char) : Bool :=
  c.isAlphanum || c == '_' || ['<', '>', '[', ']', '?'].contains c

theorem isShapeChar_of_mem_word (d : Derivation) : ∀ c ∈ d.word, isShapeChar c = true := by
  induction d with
  | name cs plain =>
    exact fun c hc => by simp [isShapeChar, mem_of_isPlainName plain hc, -Bool.or_eq_true]
  | layer l d ih =>
    have hl : l.front.all isShapeChar = true ∧ isShapeChar l.back = true := by
      cases l <;> decide
    simp only [Derivation.word, List.forall_mem_append, List.forall_mem_singleton]
    exact ⟨⟨List.all_eq_true.1 hl.1, ih⟩, hl.2⟩

/-- No bracket opens behind a letter that ends none of the words in front of brackets. -/
theorem isChain_word (d : Derivation) : List.IsChain (fun a b => a = 'r' → b ≠ '<') d.word := by
  induction d with
  | name cs plain =>
    refine List.Pairwise.isChain (List.pairwise_of_forall_mem_list fun a _ b hb _ hne => ?_)
    have hname := mem_of_isPlainName plain hb
    rw [hne] at hname
    cases hname
  | layer l d ih =>
    have hl : List.IsChain (fun a b => a = 'r' → b ≠ '<') l.front ∧
        l.front.getLast? ≠ some 'r' ∧ l.back ≠ '<' := by
      cases l <;> decide
    refine List.isChain_append.2 ⟨?_, List.isChain_singleton _, ?_⟩
    · refine List.isChain_append.2 ⟨hl.1, ih, ?_⟩
      exact fun a ha b _ hr => absurd (hr ▸ ha) hl.2.1
    · simpa using fun _ _ _ => hl.2.2

theorem foreign_of_word (h : ∀ (d : Derivation) (x y : List Char), d.word ≠ x ++ (w ++ y)) :
    Foreign w := by
  intro x y
  refine Option.eq_none_iff_forall_ne_some.2 fun s hs => ?_
  obtain ⟨d, -, hd⟩ := (shapeOf_eq_some.1 hs).exists_derivation
  exact h d x y hd

theorem foreign_of_mem (hc : isShapeChar c = false) (h : c ∈ w) : Foreign w := by
  refine foreign_of_word fun d x y hd => ?_
  rw [isShapeChar_of_mem_word d c (by simp [hd, h])] at hc
  cases hc

theorem foreign_for : Foreign "for<".toList := by
  refine foreign_of_word fun d x y hd => ?_
  have h := isChain_word d
  rw [hd] at h
  have hfor := (List.isChain_append.1 (List.isChain_append.1 h).2.1).1
  exact absurd hfor (by decide)

end

end Courier.Code
