import Courier.Code.Tree

/-!
Outlines of code: the items that stand in a stream of tokens, and the names of their fields, functions
and inputs. An outline is taken by brackets and commas and by the first words of each part, so it does
not depend on what is a type or an expression.
-/
namespace Courier.Code.Outline

/-! ## Parts of a stream -/

/-- Tokens in front of the first of some parts. -/
def attach (front : Tokens) : List Tokens → List Tokens
  | [] => [front]
  | part :: parts => (front ++ part) :: parts

/-- The parts between the commas that stand outside of angle brackets; `depth` counts those that are
open. The mark behind a joined minus, which makes an arrow with it, closes none. -/
def cut (depth : Nat) (minus : Bool) : Tokens → List Tokens
  | [] => [[]]
  | .punct mark joint :: ts =>
    if mark = ',' && depth = 0 then [] :: cut 0 false ts
    else
      let deeper :=
        if mark = '<' then depth + 1 else if mark = '>' && !minus then depth - 1 else depth
      attach [.punct mark joint] (cut deeper (mark = '-' && joint) ts)
  | t :: ts => attach [t] (cut depth false ts)

/-- The elements of a list. A comma behind the last one adds none. -/
def elements (ts : Tokens) : List Tokens :=
  let parts := cut 0 false ts
  if parts.getLast? = some [] then parts.dropLast else parts

/-- A part of a stream that ends in braces or a semicolon. -/
structure Chunk where
  head : Tokens
  body : Option Tokens
  deriving DecidableEq, Repr

/-- What a token adds to a part that it ends: the content of its braces, or nothing. -/
def ending? : Token → Option (Option Tokens)
  | .group .brace body => some (some body)
  | .punct ';' _ => some none
  | _ => none

/-- The parts of a stream, the first of which began with some tokens. -/
def chunks (head : Tokens) : Tokens → Option (List Chunk)
  | [] => if head.isEmpty then some [] else none
  | t :: ts =>
    match ending? t with
    | some body => (chunks [] ts).map (⟨head, body⟩ :: ·)
    | none => chunks (head ++ [t]) ts

/-- What the parts of a stream are read as. -/
def read {α : Type} (f : Chunk → Option α) (ts : Tokens) : Option (List α) := do
  (← chunks [] ts).mapM f

/-! ## Readings -/

/-- A name, and what stands behind its colon. -/
structure Binding where
  name : String
  content : Tokens
  deriving DecidableEq, Repr

/-- A member of an implementation. A function has a receiver or none, and its body is a value of the
type itself with some fields, or something else. -/
inductive Member where
  | type (name : String) (target : Tokens)
  | function (name : String) (receiver : Bool) (inputs : List Binding)
      (fields : Option (List Binding))
  deriving DecidableEq, Repr

inductive Item where
  | struct (visibility : Tokens) (name : String) (fields : List Binding)
  | impl (head : Tokens) (members : List Member)
  deriving DecidableEq, Repr

def withoutAttributes : Tokens → Tokens
  | .punct '#' false :: .group .bracket _ :: ts => withoutAttributes ts
  | ts => ts

def withoutPub : Tokens → Tokens
  | .ident "pub" :: ts => ts
  | ts => ts

/-- A visibility, and what stands behind it. -/
def visibilityAnd : Tokens → Tokens × Tokens
  | .ident "pub" :: .group .paren scope :: ts => ([.ident "pub", .group .paren scope], ts)
  | .ident "pub" :: ts => ([.ident "pub"], ts)
  | ts => ([], ts)

def binding? : Tokens → Option Binding
  | [.ident name] => some ⟨name, []⟩
  | .ident name :: .punct ':' false :: ts => some ⟨name, ts⟩
  | _ => none

/-- The bindings of a list. -/
def bindings? (parts : List Tokens) : Option (List Binding) := parts.mapM binding?

def inputs? (ts : Tokens) : Option (Bool × List Binding) :=
  match elements ts with
  | [.punct '&' false, .ident "self"] :: parts => (bindings? parts).map (true, ·)
  | parts => (bindings? parts).map (false, ·)

/-- The fields of a body that is a value of the type itself. -/
def fieldsOf : Tokens → Option (List Binding)
  | [.ident "Self", .group .brace fields] => bindings? (elements fields)
  | _ => none

def member? (c : Chunk) : Option Member :=
  match withoutPub (withoutAttributes c.head), c.body with
  | .ident "fn" :: .ident name :: .group .paren inputs :: _, some body =>
    (inputs? inputs).map fun p => .function name p.1 p.2 (fieldsOf body)
  | .ident "type" :: .ident name :: .punct '=' false :: target, none => some (.type name target)
  | _, _ => none

/-- The item that begins with some tokens behind its visibility, and ends with braces. -/
def itemOf (visibility head body : Tokens) : Option Item :=
  match head with
  | [.ident "struct", .ident name] =>
    (bindings? ((elements body).map withoutPub)).map (.struct visibility name)
  | .ident "impl" :: head => (read member? body).map (.impl head)
  | _ => none

def item? (c : Chunk) : Option Item := do
  let (visibility, head) := visibilityAnd (withoutAttributes c.head)
  itemOf visibility head (← c.body)

/-- The items of a stream, if it is made up of structs and implementations. -/
def outline (ts : Tokens) : Option (List Item) := read item? ts

/-! ## What commas do not cut -/

variable {k l : Nat} {t : Token} {ts us head : Tokens}

theorem attach_attach (ts us : Tokens) (parts : List Tokens) :
    attach ts (attach us parts) = attach (ts ++ us) parts := by
  cases parts <;> simp [attach]

theorem cut_ne_nil (depth : Nat) (minus : Bool) (ts : Tokens) : cut depth minus ts ≠ [] := by
  cases ts with
  | nil => simp [cut]
  | cons t ts =>
    cases t <;> simp only [cut] <;> try split
    all_goals cases cut _ _ ts <;> simp [attach]

theorem attach_nil_cut (depth : Nat) (ts : Tokens) :
    attach [] (cut depth false ts) = cut depth false ts := by
  cases h : cut depth false ts with
  | nil => exact absurd h (cut_ne_nil depth false ts)
  | cons => rfl

/-- No comma cuts the tokens where at least `k` angle brackets are open around them, and these stay
open. -/
def Uncut (k : Nat) (ts : Tokens) : Prop :=
  ∀ d, k ≤ d → ∀ r, cut d false (ts ++ r) = attach ts (cut d false r)

namespace Uncut

theorem mono (h : Uncut k ts) (hk : k ≤ l) : Uncut l ts := fun d hd => h d (Nat.le_trans hk hd)

theorem nil : Uncut k [] := fun d _ r => (attach_nil_cut d r).symm

theorem append (h : Uncut k ts) (h' : Uncut k us) : Uncut k (ts ++ us) := by
  intro d hd r
  rw [List.append_assoc, h d hd, h' d hd, attach_attach]

theorem ident (name : String) : Uncut k [.ident name] := fun _ _ _ => rfl

theorem literal (text : String) : Uncut k [.literal text] := fun _ _ _ => rfl

theorem group (d : Delimiter) (body : Tokens) : Uncut k [.group d body] := fun _ _ _ => rfl

/-- A mark that opens and closes nothing. -/
theorem punct {mark : Char} (h : ",<>-".toList.contains mark = false) (joint : Bool) :
    Uncut k [.punct mark joint] := by
  intro d hd r
  have hne : mark ≠ ',' ∧ mark ≠ '<' ∧ mark ≠ '>' ∧ mark ≠ '-' := by simpa using h
  simp [cut, hne]

theorem minus : Uncut k [.punct '-' false] := fun _ _ _ => rfl

theorem comma (joint : Bool) : Uncut (k + 1) [.punct ',' joint] := by
  intro d hd r
  have : d ≠ 0 := by omega
  simp [cut, this]

theorem arrow : Uncut k (Tokens.sign "->") := by
  intro d hd r
  simp [Tokens.sign, Tokens.joined, cut, attach_attach]

theorem angle (h : Uncut (k + 1) ts) :
    Uncut k (Tokens.sign "<" ++ (ts ++ Tokens.sign ">")) := by
  intro d hd r
  have hopen : ∀ us, cut d false (.punct '<' false :: us) =
      attach [.punct '<' false] (cut (d + 1) false us) := fun us => by simp [cut]
  have hclose : cut (d + 1) false (.punct '>' false :: r) =
      attach [.punct '>' false] (cut d false r) := by simp [cut]
  have htokens : Tokens.sign "<" ++ (ts ++ Tokens.sign ">") ++ r =
      .punct '<' false :: (ts ++ .punct '>' false :: r) := by simp [Tokens.sign, Tokens.joined]
  rw [htokens, hopen, h (d + 1) (Nat.succ_le_succ hd), hclose, attach_attach, attach_attach]
  simp [Tokens.sign, Tokens.joined]

end Uncut

/-! ## Parts that are read -/

section
variable {α : Type} {f : Chunk → Option α} {a : α} {as bs : List α} {body : Option Tokens}

/-- No token ends a part. -/
def Endless (ts : Tokens) : Prop := ∀ t ∈ ts, ending? t = none

theorem chunks_append (h : Endless ts) (head r : Tokens) :
    chunks head (ts ++ r) = chunks (head ++ ts) r := by
  induction ts generalizing head with
  | nil => rw [List.nil_append, List.append_nil]
  | cons t ts ih =>
    rw [Endless, List.forall_mem_cons] at h
    rw [List.cons_append, chunks, h.1]
    exact (ih h.2 (head ++ [t])).trans (by rw [List.append_assoc, List.singleton_append])

theorem Endless.append (h : Endless ts) (h' : Endless us) : Endless (ts ++ us) := by
  intro t ht
  exact (List.mem_append.1 ht).elim (h t) (h' t)

/-- The tokens are parts of their own, whatever stands behind them. -/
def ReadAs (f : Chunk → Option α) (ts : Tokens) (as : List α) : Prop :=
  ∀ r, read f (ts ++ r) = (read f r).map (as ++ ·)

namespace ReadAs

theorem nil : ReadAs f [] [] := fun r => by simp

theorem append (h : ReadAs f ts as) (h' : ReadAs f us bs) : ReadAs f (ts ++ us) (as ++ bs) := by
  intro r
  rw [List.append_assoc, h, h', Option.map_map]
  exact congrArg (Option.map · _) (funext fun cs => (List.append_assoc as bs cs).symm)

theorem eq (h : ReadAs f ts as) : read f ts = some as := by
  have := h []
  rwa [List.append_nil, show read f [] = some [] from rfl, Option.map_some, List.append_nil] at this

theorem one (hh : Endless head) (ht : ending? t = some body) (ha : f ⟨head, body⟩ = some a) :
    ReadAs f (head ++ [t]) [a] := by
  intro r
  rw [read, List.append_assoc, chunks_append hh, List.nil_append, List.singleton_append, chunks, ht]
  show ((chunks [] r).map _ >>= _) = _
  rw [read]
  cases chunks [] r with
  | none => rfl
  | some cs =>
    show (Chunk.mk head body :: cs).mapM f = (cs.mapM f).map ([a] ++ ·)
    rw [List.mapM_cons, ha]
    cases cs.mapM f <;> rfl

end ReadAs

end

/-! ## Names and marks -/

/-- A token that neither ends a part nor has to do with commas. -/
def isInner : Token → Bool
  | .punct mark _ => !",<>-;".toList.contains mark
  | .group .brace _ => false
  | _ => true

def Inner (ts : Tokens) : Prop := ∀ t ∈ ts, isInner t = true

namespace Inner

theorem nil : Inner [] := fun _ h => absurd h List.not_mem_nil

theorem append (h : Inner ts) (h' : Inner us) : Inner (ts ++ us) := by
  intro t ht
  exact (List.mem_append.1 ht).elim (h t) (h' t)

theorem endless (h : Inner ts) : Endless ts := by
  intro t ht
  have hin := h t ht
  cases t with
  | ident | literal => rfl
  | punct mark =>
    have hne : mark ≠ ';' := by
      rintro rfl
      cases hin
    simp [ending?, hne]
  | group d =>
    cases d with
    | brace => cases hin
    | _ => rfl

theorem uncut (h : Inner ts) : Uncut k ts := by
  induction ts with
  | nil => exact .nil
  | cons t ts ih =>
    rw [Inner, List.forall_mem_cons] at h
    have ht : Uncut k [t] := by
      cases t with
      | ident name => exact .ident name
      | literal text => exact .literal text
      | group d body => exact .group d body
      | punct mark joint =>
        have hin := h.1
        simp [isInner] at hin
        exact .punct (by simp [hin]) joint
    exact ht.append (ih h.2)

end Inner

/-! ## Visibilities -/

/-- The words of a visibility. -/
def IsVisibility (ts : Tokens) : Prop :=
  ts = [] ∨ ts = [.ident "pub"] ∨ ∃ scope, ts = [.ident "pub", .group .paren scope]

theorem IsVisibility.inner {ts : Tokens} (h : IsVisibility ts) : Inner ts := by
  rcases h with rfl | rfl | ⟨scope, rfl⟩ <;> simp [Inner, isInner]

theorem IsVisibility.apart {ts : Tokens} (h : IsVisibility ts) (name : String) :
    visibilityAnd (withoutAttributes (ts ++ (Tokens.word "struct" ++ Tokens.word name))) =
      (ts, [.ident "struct", .ident name]) := by
  rcases h with rfl | rfl | ⟨scope, rfl⟩ <;> rfl

end Courier.Code.Outline
