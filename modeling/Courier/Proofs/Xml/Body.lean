import Courier.Proofs.Xml.Cut
import Mathlib.Data.List.DropRight

/-!
Text that is written in an element, with references in it. White space is lost where no other letter
stands between it and a reference or an end of the text.
-/
namespace Courier.Xml

/-! ## Letters -/

/-- A letter of a text: itself, or a reference to it. -/
inductive Letter where
  | raw (c : Char)
  | reference (name : List Char) (c : Char)
  deriving DecidableEq, Repr

namespace Letter

def char : Letter → Char
  | raw c | reference _ c => c

def written : Letter → List Char
  | raw c => [c]
  | reference name _ => '&' :: (name ++ [';'])

/-- The character, where it stands as itself. -/
def raw? : Letter → Option Char
  | raw c => some c
  | reference .. => none

/-- A letter that is read as one. -/
def Readable : Letter → Prop
  | raw c => inText c
  | reference name _ => ∀ c ∈ name, (inText c && c != ';')

end Letter

/-- A letter that means nothing in markup stands as itself, any other as an entity. -/
def Letter.escaped : Char → Letter
  | '&' => .reference "amp".toList '&'
  | '<' => .reference "lt".toList '<'
  | '>' => .reference "gt".toList '>'
  | '"' => .reference "quot".toList '"'
  | '\'' => .reference "apos".toList '\''
  | c => .raw c

def written (ls : List Letter) : List Char := ls.flatMap Letter.written

def spelled (ls : List Letter) : List Char := ls.map Letter.char

/-- Text without white space at its ends. -/
def trimmed (cs : List Char) : List Char := trimEnd (cs.dropWhile isSpace)

/-- What is kept of letters, behind some that stand as themselves. -/
def keptFrom (run : List Char) : List Letter → List Char
  | [] => trimmed run
  | .raw c :: ls => keptFrom (run ++ [c]) ls
  | .reference _ c :: ls => trimmed run ++ c :: keptFrom [] ls

def kept (ls : List Letter) : List Char := keptFrom [] ls

def textNodes (run : List Char) : List Node :=
  if trimmed run = [] then [] else [.text (trimmed run)]

def nodesFrom (run : List Char) : List Letter → List Node
  | [] => textNodes run
  | .raw c :: ls => nodesFrom (run ++ [c]) ls
  | .reference name _ :: ls => textNodes run ++ .reference name :: nodesFrom [] ls

theorem written_escaped (cs : List Char) : written (cs.map Letter.escaped) = escape cs := by
  rw [written, List.flatMap_map, escape]
  congr 1
  funext c
  unfold escapeChar
  split
  case h_6 =>
    unfold Letter.escaped
    split <;> first | contradiction | rfl
  all_goals rfl

theorem spelled_escaped (cs : List Char) : spelled (cs.map Letter.escaped) = cs := by
  rw [spelled, List.map_map]
  refine (List.map_congr_left fun c _ => ?_).trans (List.map_id cs)
  show (Letter.escaped c).char = c
  unfold Letter.escaped
  split <;> rfl

/-! ## Letters are read one by one, and the text between references at once -/

section
variable {opened : List (List Char)} {run rest : List Char} {c : Char} {ls : List Letter}

theorem trimmed_eq_nil (h : AllSpace run) : trimmed run = [] := by
  rw [trimmed, List.dropWhile_eq_nil_iff.2 h]
  rfl

theorem trimEnd_ne_nil (hc : isSpace c = false) (cs : List Char) : trimEnd (c :: cs) ≠ [] := by
  intro h
  have hs := List.rdropWhile_eq_nil_iff.1 h c (List.mem_cons_self ..)
  rw [hc] at hs
  cases hs

theorem documentFrom_run (hrun : ∀ x ∈ run, inText x) (hrest : ∀ x ∈ rest.head?, inText x = false) :
    documentFrom opened (run ++ rest) =
      ⟨eventsOf (textNodes run) ++ (documentFrom opened rest).events,
        (documentFrom opened rest).fault⟩ := by
  cases hd : run.dropWhile isSpace with
  | nil =>
    have hs : AllSpace run := List.dropWhile_eq_nil_iff.1 hd
    rw [documentFrom_spaces hs, textNodes, if_pos (trimmed_eq_nil hs)]
    rfl
  | cons c r =>
    have hc : isSpace c = false := by simpa [hd] using List.head?_dropWhile_not isSpace run
    have hr : ∀ x ∈ c :: r, inText x :=
      fun x hm => hrun x ((List.dropWhile_suffix isSpace).subset (hd ▸ hm))
    have hd' : (run ++ rest).dropWhile isSpace = c :: (r ++ rest) := by
      rw [dropWhile_append_of_ne_nil (by simp [hd]), hd, List.cons_append]
    rw [documentFrom_of_cons hd', piece_text hr hrest, textNodes, trimmed, hd,
      if_neg (trimEnd_ne_nil hc r)]
    rfl

theorem piece_reference {name : List Char} (h : ∀ c ∈ name, (inText c && c != ';')) :
    piece '&' (name ++ ';' :: rest) = .ok (.event (.reference name), rest) := by
  have ht : (name ++ ';' :: rest).takeWhile (fun c => inText c && c != ';') = name := by
    rw [List.takeWhile_append_of_pos h, List.takeWhile_cons_of_neg (by decide), List.append_nil]
  have hd : (name ++ ';' :: rest).dropWhile (fun c => inText c && c != ';') = ';' :: rest := by
    rw [List.dropWhile_append_of_pos h, List.dropWhile_cons_of_neg (by decide)]
  rw [piece, if_neg (by decide), if_pos rfl, hd, ht]
  rfl

theorem documentFrom_reference {name : List Char} (h : ∀ c ∈ name, (inText c && c != ';')) :
    documentFrom opened ('&' :: (name ++ ';' :: rest)) =
      .cons (.reference name) (documentFrom opened rest) := by
  rw [documentFrom_of_cons (List.dropWhile_cons_of_neg (by decide)), piece_reference h]
  rfl

theorem fills_nodesFrom (hrun : ∀ x ∈ run, inText x) (hl : ∀ l ∈ ls, l.Readable) :
    Fills (run ++ written ls) (nodesFrom run ls) := by
  induction ls generalizing run with
  | nil =>
    intro opened rest
    rw [written, List.flatMap_nil, List.append_nil]
    exact documentFrom_run hrun fun x hx => by cases hx; rfl
  | cons l ls ih =>
    obtain ⟨hl₁, hls⟩ := List.forall_mem_cons.1 hl
    cases l with
    | raw c =>
      have h : Fills (run ++ [c] ++ written ls) (nodesFrom (run ++ [c]) ls) :=
        ih (List.forall_mem_append.2 ⟨hrun, List.forall_mem_singleton.2 hl₁⟩) hls
      rw [List.append_assoc] at h
      exact h
    | reference name c =>
      intro opened rest
      have hw : run ++ written (.reference name c :: ls) ++ '<' :: rest =
          run ++ '&' :: (name ++ ';' :: (written ls ++ '<' :: rest)) := by
        simp [written, Letter.written]
      have h := ih (List.forall_mem_nil _) hls opened rest
      rw [List.nil_append] at h
      rw [hw, documentFrom_run hrun (fun x hx => by cases hx; rfl), documentFrom_reference hl₁, h,
        nodesFrom, eventsOf_append]
      simp [Document.cons, eventsOf, Node.events]

end

/-! ## What is lost -/

/-- Neighbours of which none is white space beside a reference or an end. -/
def Sheltering (a b : Option Char) : Prop :=
  (∀ c ∈ a, isSpace c → b.isSome) ∧ ∀ c ∈ b, isSpace c → a.isSome

/-- White space stands only between letters that stand as themselves. -/
def Sheltered (ls : List Letter) : Prop :=
  (none :: (ls.map Letter.raw? ++ [none])).IsChain Sheltering

section
variable {run : List Char} {c : Char} {ls : List Letter}

theorem trimmed_sublist (run : List Char) : (trimmed run).Sublist run :=
  (List.rdropWhile_prefix isSpace _).sublist.trans (List.dropWhile_suffix isSpace).sublist

theorem keptFrom_sublist (run : List Char) (ls : List Letter) :
    (keptFrom run ls).Sublist (run ++ spelled ls) := by
  induction ls generalizing run with
  | nil =>
    rw [spelled, List.map_nil, List.append_nil]
    exact trimmed_sublist run
  | cons l ls ih =>
    cases l with
    | raw c =>
      have h := ih (run ++ [c])
      rwa [List.append_assoc] at h
    | reference name c => exact (trimmed_sublist run).append ((ih []).cons_cons c)

theorem trimmed_eq_self_iff : trimmed run = run ↔
    (∀ c ∈ run.head?, isSpace c = false) ∧ ∀ c ∈ run.getLast?, isSpace c = false := by
  have hd : run.dropWhile isSpace = run ↔ ∀ c ∈ run.head?, isSpace c = false := by
    cases run with
    | nil => simp
    | cons c cs => simp [List.dropWhile_eq_self_iff]
  have hr : trimEnd run = run ↔ ∀ c ∈ run.getLast?, isSpace c = false := by
    rw [trimEnd, ← List.rdropWhile, List.rdropWhile_eq_self_iff]
    cases run using List.reverseRecOn <;> simp
  constructor
  · intro h
    have hs : run.dropWhile isSpace = run := by
      refine (List.dropWhile_suffix isSpace).sublist.eq_of_length_le ?_
      calc run.length = (trimmed run).length := by rw [h]
        _ ≤ (run.dropWhile isSpace).length := (List.rdropWhile_prefix isSpace _).length_le
    rw [trimmed, hs] at h
    exact ⟨hd.1 hs, hr.1 h⟩
  · rintro ⟨hh, hl⟩
    rw [trimmed, hd.2 hh, hr.2 hl]

theorem append_eq_append_of_sublist {as bs as' bs' : List Char} (ha : as'.Sublist as)
    (hb : bs'.Sublist bs) : as' ++ bs' = as ++ bs ↔ as' = as ∧ bs' = bs := by
  constructor
  · intro h
    have hl := congrArg List.length h
    rw [List.length_append, List.length_append] at hl
    have := ha.length_le
    have := hb.length_le
    exact List.append_inj h (by omega)
  · rintro ⟨rfl, rfl⟩
    rfl

theorem keptFrom_eq_iff : keptFrom run ls = run ++ spelled ls ↔
    (∀ c ∈ run.head?, isSpace c = false) ∧
      (run.getLast? :: (ls.map Letter.raw? ++ [none])).IsChain Sheltering := by
  -- for every run: the last letter of it is the neighbour of what is left
  induction ls generalizing run with
  | nil =>
    rw [spelled, List.map_nil, List.append_nil, keptFrom, trimmed_eq_self_iff]
    simp [Sheltering]
  | cons l ls ih =>
    cases l with
    | raw c =>
      have h := @ih (run ++ [c])
      rw [List.append_assoc, List.getLast?_concat] at h
      refine Iff.trans h ?_
      cases run <;> simp [Sheltering, Letter.raw?]
    | reference name c =>
      have h := append_eq_append_of_sublist (trimmed_sublist run) ((keptFrom_sublist [] ls).cons_cons c)
      refine Iff.trans h ?_
      rw [List.cons.injEq, ih, trimmed_eq_self_iff]
      simp [Sheltering, Letter.raw?, and_assoc]

theorem kept_eq_iff : kept ls = spelled ls ↔ Sheltered ls := by
  have h := @keptFrom_eq_iff [] ls
  simpa [kept, Sheltered] using h

end

end Courier.Xml
