import Courier.Proofs.Code.Letters

/-!
What a parser takes away, by its letters, and what is printed of it. A parser is faithful when the
letters of what it printed may stand for those that it read: no shape of a type changes by that.
-/
namespace Courier.Code

namespace Tree

theorem tokensList_append (ts us : List Tree) :
    tokensList (ts ++ us) = tokensList ts ++ tokensList us := by
  induction ts with
  | nil => rfl
  | cons t ts ih => rw [List.cons_append, tokensList, tokensList, ih, List.append_assoc]

/-- The letters of a tree as it is printed. -/
def letters (t : Tree) : List Char := Token.lettersOf t.tokens

def lettersOf (ts : List Tree) : List Char := Token.lettersOf (tokensList ts)

@[simp] theorem lettersOf_nil : lettersOf [] = [] := rfl

@[simp] theorem lettersOf_cons (t : Tree) (ts : List Tree) :
    lettersOf (t :: ts) = t.letters ++ lettersOf ts := by
  simp [lettersOf, letters, tokensList]

@[simp] theorem lettersOf_append (ts us : List Tree) :
    lettersOf (ts ++ us) = lettersOf ts ++ lettersOf us := by
  rw [lettersOf, tokensList_append, Token.lettersOf_append, ← lettersOf, ← lettersOf]

@[simp] theorem letters_node (k : Kind) (ts : List Tree) : (node k ts).letters = lettersOf ts := by
  rw [letters, tokens, lettersOf]

@[simp] theorem letters_group (d : Delimiter) (ts : List Tree) :
    (group d ts).letters = d.opening ++ (lettersOf ts ++ d.closing) := by
  simp [letters, tokens, lettersOf, Token.letters]

@[simp] theorem letters_none : none.letters = [] := rfl

@[simp] theorem letters_word (name : String) : (word name).letters = solid name := by
  simp [letters, word, tokens, Token.letters]

theorem lettersOf_joined (cs : List Char) : Token.lettersOf (Tokens.joined cs) = solidIn cs := by
  fun_induction Tokens.joined cs with
  | case1 => rfl
  | case2 c => simp [Token.letters]
  | case3 c cs _ ih => simp [Token.letters, ih, solidIn, ← List.filter_append]

@[simp] theorem letters_sign (s : String) : (sign s).letters = solid s := lettersOf_joined _

@[simp] theorem letters_lifetime (name : String) :
    (lifetime name).letters = '\'' :: solid name := by
  simp [letters, tokens, Tokens.lifetime, Token.letters]
  rfl

theorem lettersOf_printed (t : Token) : Token.lettersOf (printed t) = t.letters := by
  cases t with
  | literal text =>
    rw [printed]
    split
    · rename_i h
      simp [Token.letters, solid, h, solidIn, ← List.filter_append]
    · simp
  | _ => simp [printed]

@[simp] theorem letters_token (t : Token) : (token t).letters = t.letters := by
  rw [letters, tokens, lettersOf_printed]

end Tree

namespace Parser
open Tokens

variable {α β : Type} {p q : Parser α} {f : α → Parser β} {R S : List Char → α → Prop}
  {T : List Char → β → Prop} {ts : Tokens}

/-- What the parser takes away from some tokens has letters in a relation to its result. -/
def ReadsAt (ts : Tokens) (R : List Char → α → Prop) (p : Parser α) : Prop :=
  ∀ x r, p.run ts = .ok (x, r) → ∃ u, Token.lettersOf ts = u ++ Token.lettersOf r ∧ R u x

/-- What the parser takes away, from whatever tokens. -/
def Reads (R : List Char → α → Prop) (p : Parser α) : Prop := ∀ ts, ReadsAt ts R p

theorem ReadsAt.mono (h : ReadsAt ts R p) (hRS : ∀ u x, R u x → S u x) : ReadsAt ts S p := by
  intro x r hr
  obtain ⟨u, hu, hx⟩ := h x r hr
  exact ⟨u, hu, hRS u x hx⟩

theorem Reads.mono (h : Reads R p) (hRS : ∀ u x, R u x → S u x) : Reads S p :=
  fun ts => (h ts).mono hRS

theorem ReadsAt.bind (hp : ReadsAt ts R p)
    (hf : ∀ a u, R u a → Reads (fun v => T (u ++ v)) (f a)) : ReadsAt ts T (p >>= f) := by
  intro y r hr
  rw [StateT.run_bind] at hr
  obtain ⟨⟨a, left⟩, ha, hy⟩ := bind_eq_ok.1 hr
  obtain ⟨u, hu, hR⟩ := hp a left ha
  obtain ⟨v, hv, hT⟩ := hf a u hR left y r hy
  exact ⟨u ++ v, by rw [hu, hv, List.append_assoc], hT⟩

/-- What is read behind tokens that were taken away. -/
theorem ReadsAt.after {left r : Tokens} {w : List Char} {a : α}
    (hw : Token.lettersOf ts = w ++ Token.lettersOf left)
    (h : ReadsAt left (fun v => R (w ++ v)) p) (hr : p.run left = .ok (a, r)) :
    ∃ u, Token.lettersOf ts = u ++ Token.lettersOf r ∧ R u a := by
  obtain ⟨v, hv, hR⟩ := h a r hr
  exact ⟨w ++ v, by rw [hw, hv, List.append_assoc], hR⟩

theorem Reads.bind (hp : Reads R p) (hf : ∀ a u, R u a → Reads (fun v => T (u ++ v)) (f a)) :
    Reads T (p >>= f) :=
  fun ts => (hp ts).bind hf

theorem reads_pure {x : α} (h : R [] x) : Reads R (pure x) := by
  intro ts y r hr
  cases hr
  exact ⟨[], rfl, h⟩

theorem reads_throw (e : Fault) : Reads R (throw e) := by
  intro ts x r hr
  cases hr

theorem reads_fail (e : Fault) : Reads R (fail e) := reads_throw e

theorem reads_fail_bind (e : Fault) (f : α → Parser β) : Reads T (fail e >>= f) := by
  intro ts x r hr
  cases hr

theorem reads_missing (what : String) : Reads R (missing what) := by
  intro ts x r hr
  cases hr

theorem reads_missing_bind (what : String) (f : α → Parser β) : Reads T (missing what >>= f) := by
  intro ts x r hr
  cases hr

theorem ReadsAt.ite {c : Prop} [Decidable c] (h : c → ReadsAt ts R p)
    (h' : ¬c → ReadsAt ts R q) : ReadsAt ts R (if c then p else q) := by
  split
  · exact h ‹_›
  · exact h' ‹_›

theorem Reads.ite {c : Prop} [Decidable c] (h : c → Reads R p) (h' : ¬c → Reads R q) :
    Reads R (if c then p else q) :=
  fun ts => .ite (fun hc => h hc ts) fun hc => h' hc ts

theorem Reads.either {c : Prop} [Decidable c] (hp : Reads R p) (hq : Reads R q)
    (hf : ∀ a u, R u a → Reads (fun v => T (u ++ v)) (f a)) :
    Reads T (if c then p >>= f else q >>= f) :=
  .ite (fun _ => hp.bind hf) fun _ => hq.bind hf

/-- A look at what is left takes nothing away. -/
theorem reads_rest_bind {k : Tokens → Parser α} (h : ∀ ts, ReadsAt ts R (k ts)) :
    Reads R (rest >>= k) := h

theorem reads_sees_bind {t : Tokens → Bool} {k : Bool → Parser α}
    (h : ∀ ts, ReadsAt ts R (k (t ts))) : Reads R (sees t >>= k) := h

theorem Reads.look {k : Tokens → Parser α} (h : ∀ ts, Reads R (k ts)) : Reads R (rest >>= k) :=
  reads_rest_bind fun ts => h ts ts

theorem Reads.sees {t : Tokens → Bool} {k : Bool → Parser α} (h : ∀ b, Reads R (k b)) :
    Reads R (sees t >>= k) :=
  reads_sees_bind fun ts => h (t ts) ts

section
variable {P : List Char → List Tree → Prop} {step : Parser (List Tree × Bool)}

/-- What holds of two lists behind each other if it holds of both holds of all that a loop reads. -/
theorem Reads.loop (happend : ∀ u v ts us, P u ts → P v us → P (u ++ v) (ts ++ us))
    (h : Reads (fun u x => P u x.1) step) (n : Nat) : Reads P (iterate.loop step n) := by
  induction n with
  | zero => exact reads_throw _
  | succ n ih =>
    refine h.bind fun x u hx => ?_
    obtain ⟨ts, more⟩ := x
    cases more with
    | false => exact reads_pure (by simpa using hx)
    | true => exact ih.bind fun us v hv => reads_pure (by simpa using happend _ _ _ _ hx hv)

theorem Reads.iterate (happend : ∀ u v ts us, P u ts → P v us → P (u ++ v) (ts ++ us))
    (h : Reads (fun u x => P u x.1) step) : Reads P (iterate step) :=
  fun ts => h.loop happend _ ts

/-- A loop that goes on after its first step. -/
theorem ReadsAt.iterate_more {S : List Tree → Prop}
    (h : ReadsAt ts (fun _ x => x.2 = true ∧ S x.1) step) (hstep : Reads (fun _ _ => True) step)
    (hS : ∀ ts us, S ts → S (ts ++ us)) : ReadsAt ts (fun _ ts => S ts) (iterate step) := by
  have hloop : ∀ n, ReadsAt ts (fun _ ts => S ts) (iterate.loop step (n + 1)) := fun n =>
    h.bind fun x u hx => by
      obtain ⟨ts, more⟩ := x
      obtain ⟨rfl, hts⟩ := hx
      exact (hstep.loop (P := fun _ _ => True) (fun _ _ _ _ _ _ => trivial) n).bind fun us v _ =>
        reads_pure (hS _ _ hts)
  exact hloop _

end

theorem Reads.all {a : α} (h : Reads R p) (ha : all p ts = .ok a) :
    R (Token.lettersOf ts) a := by
  obtain ⟨u, hu, hR⟩ := h ts a [] (run_of_all ha)
  rw [hu]
  simpa using hR

/-! ## Words and marks -/

/-- A part that may be left out. -/
inductive May (t : Tree) : List Char → Option Tree → Prop
  | absent : May t [] none
  | present : May t t.letters (some t)

section
variable {t : Tree} {u : List Char} {o : Option Tree}

theorem May.swappable (h : May t u o) : Swappable u (Tree.lettersOf o.toList) := by
  cases h <;> simpa using Swappable.refl _

theorem May.letters_ofOption (h : May t u o) : (Tree.ofOption o).letters = u := by
  cases h <;> simp [Tree.ofOption]

end

theorem reads_sign? (s : String) : Reads (May (.sign s)) (sign? s) := by
  intro ts x r hr
  rw [sign?_run] at hr
  split at hr <;> cases hr
  · rename_i h
    refine ⟨_, lettersOf_of_afterSign h, ?_⟩
    rw [← Tree.letters_sign]
    exact .present
  · exact ⟨[], rfl, .absent⟩

theorem readsAt_sign? {s : String} (h : startsSign s ts = true) :
    ReadsAt ts (fun u o => o = some (.sign s) ∧ u = solid s) (sign? s) := by
  intro x r hr
  obtain ⟨left, hl⟩ := Option.isSome_iff_exists.1 h
  rw [sign?_run, hl] at hr
  cases hr
  exact ⟨_, lettersOf_of_afterSign hl, rfl, rfl⟩

theorem reads_sign (s : String) : Reads (fun u t => t = .sign s ∧ u = t.letters) (sign s) := by
  refine (reads_sign? s).bind fun o u h => ?_
  cases h with
  | absent => exact reads_throw _
  | present => exact reads_pure (by simp)

theorem reads_word? (w : String) : Reads (May (Tree.word w)) (word? w) := by
  intro ts x r hr
  rw [word?_run] at hr
  split at hr
  · rename_i name r h
    split at hr <;> cases hr
    · rename_i hw
      rw [beq_iff_eq] at hw
      refine ⟨_, lettersOf_of_next? h, ?_⟩
      rw [Token.letters, hw, ← Tree.letters_word]
      exact .present
    · exact ⟨[], rfl, .absent⟩
  · cases hr
    exact ⟨[], rfl, .absent⟩

theorem reads_word (w : String) : Reads (fun u t => t = Tree.word w ∧ u = t.letters) (word w) := by
  refine (reads_word? w).bind fun o u h => ?_
  cases h with
  | absent => exact reads_missing _
  | present => exact reads_pure (by simp)

theorem reads_anyIdent : Reads (fun u t => u = t.letters) anyIdent := by
  intro ts x r hr
  simp only [anyIdent, StateT.run_bind, StateT.run_get, pure_bind] at hr
  split at hr
  · rename_i h
    cases hr
    exact ⟨_, lettersOf_of_next? h, by simp [Token.letters]⟩
  · cases hr

theorem reads_ident : Reads (fun u t => u = t.letters) ident := by
  intro ts x r hr
  simp only [ident, StateT.run_bind, StateT.run_get, pure_bind] at hr
  split at hr
  · rename_i h
    split at hr
    · cases hr
      exact ⟨_, lettersOf_of_next? h, by simp [Token.letters]⟩
    · cases hr
  · cases hr

theorem reads_lifetime : Reads (fun u t => u = t.letters) lifetime := by
  intro ts x r hr
  simp only [lifetime, StateT.run_bind, StateT.run_get, pure_bind] at hr
  split at hr
  · rename_i h
    cases hr
    refine ⟨_, ?_, rfl⟩
    rw [← lettersOf_openFront, h]
    simp [Token.letters]
    rfl
  · cases hr

theorem lettersOf_of_literal? {t : Token} {ts r : Tokens} (h : literal? ts = some (t, r)) :
    Token.lettersOf ts = t.letters ++ Token.lettersOf r := by
  rw [literal?] at h
  split at h
  · rename_i hn
    cases h
    exact lettersOf_of_next? hn
  · rename_i hn
    split at h <;> cases h
    exact lettersOf_of_next? hn
  · rename_i hn
    split at h
    · rename_i hn'
      split at h <;> cases h
      rw [lettersOf_of_next? hn, lettersOf_of_next? hn']
      simp [Token.letters, Token.solid_append, ← List.append_assoc]
      rfl
    · cases h
  · cases h

theorem reads_literal : Reads (fun u t => u = t.letters) literal := by
  intro ts x r hr
  simp only [literal, StateT.run_bind, StateT.run_get, pure_bind] at hr
  split at hr
  · rename_i h
    cases hr
    exact ⟨_, lettersOf_of_literal? h, by simp⟩
  · cases hr

/-! ## Groups -/

theorem reads_group (d : Delimiter) (p : Parser α) : Reads (fun u a => ∃ body,
    u = d.opening ++ (Token.lettersOf body ++ d.closing) ∧ all p body = .ok a) (group d p) := by
  intro ts x r hr
  simp only [group, StateT.run_bind, StateT.run_get, pure_bind] at hr
  split at hr
  · rename_i h
    split at hr
    · rename_i hd
      rw [beq_iff_eq] at hd
      subst hd
      rw [StateT.run_bind] at hr
      obtain ⟨⟨a, left⟩, ha, hr⟩ := bind_eq_ok.1 hr
      cases hr
      obtain ⟨b, hb, hx⟩ := bind_eq_ok.1 ha
      cases hx
      exact ⟨_, lettersOf_of_next? h, _, by rw [Token.letters], hb⟩
    · cases hr
  · cases hr

theorem reads_grouped (d : Delimiter) (p : Parser (List Tree)) : Reads (fun u t => ∃ body ts,
    u = d.opening ++ (Token.lettersOf body ++ d.closing) ∧ all p body = .ok ts ∧ t = .group d ts)
    (grouped d p) := by
  refine (reads_group d p).bind fun ts u h => reads_pure ?_
  obtain ⟨body, hu, ha⟩ := h
  exact ⟨body, ts, by rw [List.append_nil, hu], ha, rfl⟩

theorem reads_hidden (h : Reads R p) : Reads R (hidden p) := by
  intro ts x r hr
  simp only [hidden, StateT.run_bind, StateT.run_get, pure_bind] at hr
  split at hr
  · rw [StateT.run_bind] at hr
    obtain ⟨⟨a, left⟩, ha, hr⟩ := bind_eq_ok.1 hr
    cases hr
    obtain ⟨b, hb, hx⟩ := bind_eq_ok.1 ha
    cases hx
    refine ⟨_, ?_, h.all hb⟩
    simp [Token.letters, Delimiter.opening, Delimiter.closing]
  · cases hr

theorem reads_delimited : Reads (fun u t => u = t.letters) Grammar.delimited := by
  intro ts x r hr
  simp only [Grammar.delimited, StateT.run_bind, StateT.run_get, pure_bind] at hr
  split at hr
  · rename_i h
    cases hr
    exact ⟨_, lettersOf_of_next? h, by simp⟩
  · cases hr

/-! ## What is printed -/

/-- What is read is printed with letters that make no difference. -/
def Faithful (p : Parser Tree) : Prop := Reads (fun u t => Swappable u t.letters) p

def FaithfulList (p : Parser (List Tree)) : Prop :=
  Reads (fun u ts => Swappable u (Tree.lettersOf ts)) p

/-- What is read is part of no text with a shape, and neither is what is printed. -/
def ReadsForeign (p : Parser Tree) : Prop := Reads (fun u t => Foreign u ∧ Foreign t.letters) p

/-- What the parser takes away stood in front of what it leaves. -/
def Takes (p : Parser α) : Prop := Reads (fun _ _ => True) p

theorem Reads.takes (h : Reads R p) : Takes p := h.mono fun _ _ _ => trivial

theorem Takes.bind (hp : Takes p) (hf : ∀ a u, Reads (fun v => T (u ++ v)) (f a)) :
    Reads T (p >>= f) :=
  Reads.bind hp fun a u _ => hf a u

theorem takes_pure (a : α) : Takes (pure a : Parser α) := reads_pure trivial

theorem faithful_of_eq {p : Parser Tree} (h : Reads (fun u t => u = t.letters) p) : Faithful p :=
  h.mono fun _ _ h => h ▸ .refl _

theorem FaithfulList.iterate {p : Parser (List Tree × Bool)}
    (h : Reads (fun u x => Swappable u (Tree.lettersOf x.1)) p) : FaithfulList (iterate p) :=
  Reads.iterate (fun _ _ _ _ h h' => by simpa using h.append h') h

theorem takes_liftM (e : Except Fault α) : Takes (liftM e : Parser α) := by
  intro ts x r hr
  cases e with
  | error => cases hr
  | ok a =>
    cases hr
    exact ⟨[], rfl, trivial⟩

theorem Takes.iterate {p : Parser (List Tree × Bool)} (h : Takes p) : Takes (iterate p) :=
  Reads.iterate (fun _ _ _ _ _ _ => trivial) h

theorem FaithfulList.untilSign {p : Parser Tree} (h : Faithful p) (close sep : String) :
    FaithfulList (untilSign close sep p) := by
  refine .iterate (.sees fun b => .ite (fun _ => reads_pure (.refl _)) fun _ => ?_)
  refine h.bind fun t u ht => .sees fun b =>
    .ite (fun _ => reads_pure (by simpa using ht)) fun _ => ?_
  refine (reads_sign sep).bind fun s v hs => reads_pure ?_
  obtain ⟨rfl, rfl⟩ := hs
  simpa using ht.append (.refl _)

theorem Takes.untilSign {p : Parser Tree} (h : Takes p) (close sep : String) :
    Takes (untilSign close sep p) := by
  refine .iterate (.sees fun b => .ite (fun _ => takes_pure _) fun _ => ?_)
  refine h.bind fun t u => .sees fun b => .ite (fun _ => takes_pure _) fun _ => ?_
  exact (reads_sign sep).takes.bind fun _ _ => takes_pure _

theorem FaithfulList.grouped {p : Parser (List Tree)} (h : FaithfulList p) (d : Delimiter) :
    Faithful (grouped d p) := by
  refine (reads_grouped d p).mono fun u t ht => ?_
  obtain ⟨body, ts, rfl, ha, rfl⟩ := ht
  simpa using (Swappable.refl _).append ((h.all ha).append (.refl _))

end Parser

end Courier.Code
