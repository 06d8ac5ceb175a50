import Courier.Proofs.Code.Front

/-! Paths of plain names: what they are made of, and where they are read. -/
namespace Courier.Code

namespace Tokens

/-- The words that may stand in a path without being identifiers. -/
def pathWords : List String := ["super", "self", "crate", "try", "Self"]

/-- May the word stand in a path? -/
def isSegment (name : String) : Bool := isIdent name || pathWords.contains name

/-- May the word begin a path wherever one is asked for? -/
def isPathWord (name : String) : Bool :=
  isIdent name || ["super", "self", "Self", "crate"].contains name

/-- A path may begin here, whatever is asked for. -/
inductive StartsPath : Tokens → Prop
  | word {name : String} {r : Tokens} (h : isPathWord name = true) : StartsPath (.ident name :: r)
  | mark {r : Tokens} : StartsPath (.punct ':' true :: .punct ':' false :: r)

/-- Nothing that follows belongs to a path in front of it. -/
structure EndsPath (after : Tokens) : Prop where
  separator : startsSign "::" after = false
  angle : startsSign "<" after = false
  bang : startsSign "!" after = false
  plus : startsSign "+" after = false
  hash : startsSign "#" after = false

theorem isPathWord_of_isIdent {name : String} (h : isIdent name = true) : isPathWord name = true := by
  simp [isPathWord, h]

theorem ne_of_isPathWord {name w : String} (h : isPathWord name = true)
    (hw : isPathWord w = false) : (name == w) = false := by
  rw [beq_eq_false_iff_ne]
  rintro rfl
  rw [h] at hw
  cases hw

theorem sign_separator : sign "::" = [.punct ':' true, .punct ':' false] := by
  simp [sign, joined]

end Tokens

/-- Names with separators between them, and one in front of the first or not. -/
structure PlainPath where
  lead : Bool
  first : String
  others : List String

namespace PlainPath

/-- A name as a part of a path. -/
def segment (name : String) : Tree := .node .segment [Tree.word name]

/-- Names with a separator in front of each. -/
def behind (names : List String) : Tokens :=
  names.flatMap fun name => .punct ':' true :: .punct ':' false :: [.ident name]

def tokens (p : PlainPath) : Tokens :=
  (if p.lead then Tokens.sign "::" else []) ++ .ident p.first :: behind p.others

def segments (names : List String) : List Tree :=
  names.flatMap fun name => [.sign "::", segment name]

def tree (p : PlainPath) : Tree :=
  .node .path ((if p.lead then [.sign "::"] else []) ++ segment p.first :: segments p.others)

/-- The names may stand in a path. -/
def Valid (p : PlainPath) : Prop := ∀ name ∈ p.first :: p.others, Tokens.isSegment name = true

instance (p : PlainPath) : Decidable p.Valid :=
  inferInstanceAs (Decidable (∀ name ∈ p.first :: p.others, Tokens.isSegment name = true))

/-- The path may stand for a type or value wherever one is asked for. -/
structure Free (p : PlainPath) : Prop where
  valid : p.Valid
  first : p.lead = true ∨ p.first ≠ "try"

@[simp] theorem behind_nil : behind [] = [] := rfl

@[simp] theorem behind_cons (name : String) (names : List String) :
    behind (name :: names) = .punct ':' true :: .punct ':' false :: .ident name :: behind names := rfl

theorem behind_append (names others : List String) :
    behind (names ++ others) = behind names ++ behind others := List.flatMap_append

theorem tokensList_segments (names : List String) :
    Tree.tokensList (segments names) = behind names := by
  induction names with
  | nil => rfl
  | cons name names ih =>
    simp [segments, segment, Tree.tokensList, Tree.tokens, Tree.word, Tokens.sign_separator] at ih ⊢
    exact ih

theorem tree_tokens (p : PlainPath) : p.tree.tokens = p.tokens := by
  simp only [tree, tokens, Tree.tokens]
  cases p.lead <;>
    simp [Tree.tokensList, Tree.tokens, tokensList_segments, segment, Tree.word]

theorem Free.starts {p : PlainPath} (hp : p.Free) (after : Tokens) :
    Tokens.StartsPath (p.tokens ++ after) := by
  obtain ⟨lead, first, others⟩ := p
  cases lead with
  | true =>
    simp only [tokens, Tokens.sign_separator, if_true]
    exact .mark
  | false =>
    refine .word ?_
    have hv := hp.valid first (List.mem_cons_self ..)
    have hf := hp.first
    simp [Tokens.isSegment, Tokens.pathWords, Tokens.isPathWord] at hv hf ⊢
    tauto

/-- A path with one more name. -/
def append (p : PlainPath) (name : String) : PlainPath := ⟨p.lead, p.first, p.others ++ [name]⟩

theorem append_tokens (p : PlainPath) (name : String) : (p.append name).tokens =
    p.tokens ++ Tokens.sign "::" ++ Tokens.word name := by
  simp only [append, tokens, behind_append, Tokens.sign_separator]
  cases p.lead <;> simp [Tokens.word]

theorem Free.append {p : PlainPath} {name : String} (hp : p.Free) (hn : Tokens.isIdent name = true) :
    (p.append name).Free where
  valid := by
    intro s hs
    rw [PlainPath.append, ← List.cons_append, List.mem_append, List.mem_singleton] at hs
    rcases hs with hs | rfl
    · exact hp.valid s hs
    · simp [Tokens.isSegment, hn]
  first := hp.first

theorem free_word {name : String} (h : Tokens.isPathWord name = true) : Free ⟨false, name, []⟩ where
  valid := by
    intro s hs
    obtain rfl := List.mem_singleton.1 hs
    simp [Tokens.isPathWord] at h
    simp [Tokens.isSegment, Tokens.pathWords]
    tauto
  first := .inr (by rintro rfl; exact absurd h (by decide))

theorem tree_isKind (p : PlainPath) {k : Kind} (hk : k ≠ .path) : p.tree.isKind k = false := by
  simp [tree, Tree.isKind, Tree.kind?, hk.symm]

end PlainPath

namespace Grammar
open Code.Parser Tokens PlainPath

variable (g : Grammar) {name : String} {names : List String} {after : Tokens}

theorem segment_run (inExpr : Bool) (hn : isSegment name = true)
    (hl : startsSign "<" after = false)
    (hm : (startsSign "::" after && startsSign "<" (skip (skip after))) = false) :
    (g.segment inExpr).run (.ident name :: after) = .ok (PlainPath.segment name, after) := by
  unfold segment
  by_cases hk : ["super", "self", "crate", "try"].any (name == ·) = true
  · simp only [StateT.run_bind, rest_run, ok_bind, startsWord_ident, hk, if_true, anyIdent_run]
    rfl
  simp only [StateT.run_bind, rest_run, ok_bind, startsWord_ident, hk, Bool.false_eq_true, if_false]
  split
  · simp [hl, hm, -Bool.and_eq_true, -Bool.or_eq_true]
    rfl
  · rename_i hs
    have hi : isIdent name = true := by
      simp [isSegment, pathWords] at hn hk hs
      simpa [hk, hs] using hn
    simp [hl, hm, ident_run hi, -Bool.and_eq_true, -Bool.or_eq_true]
    rfl

/-- A name is read where names behind it and the end of the path follow. -/
theorem segment_run_behind (inExpr : Bool) (names : List String) (hn : isSegment name = true)
    (hs : startsSign "::" after = false) (hl : startsSign "<" after = false) :
    (g.segment inExpr).run (.ident name :: (behind names ++ after)) =
      .ok (PlainPath.segment name, behind names ++ after) := by
  refine segment_run g inExpr hn ?_ ?_
  all_goals cases names <;> simp [hs, hl]

theorem pathRest_run (inExpr : Bool) (hv : ∀ name ∈ names, isSegment name = true)
    (hs : startsSign "::" after = false) (hl : startsSign "<" after = false) :
    (g.pathRest inExpr).run (behind names ++ after) = .ok (segments names, after) := by
  unfold pathRest
  refine iterate_run fun n hn => ?_
  induction names generalizing n with
  | nil =>
    cases n with
    | zero => contradiction
    | succ n =>
      refine loop_stop ?_
      simp [pathGoesOn, hs]
      rfl
  | cons name names ih =>
    cases n with
    | zero => contradiction
    | succ n =>
      have hseg := g.segment_run_behind inExpr names (hv name (List.mem_cons_self ..)) hs hl
      refine loop_more [.sign "::", PlainPath.segment name] ?_
        (ih (fun n hn => hv n (List.mem_cons_of_mem _ hn)) n ?_)
      · simp [pathGoesOn, sign_run, hseg]
      · simp [Token.spanList, Token.span] at hn
        omega

theorem path_run (inExpr : Bool) {p : PlainPath} (hp : p.Valid)
    (hs : startsSign "::" after = false) (hl : startsSign "<" after = false) :
    (g.path inExpr).run (p.tokens ++ after) = .ok (p.tree, after) := by
  have hseg := g.segment_run_behind inExpr p.others (hp _ (List.mem_cons_self ..)) hs hl
  have hrest := g.pathRest_run inExpr (fun n hn => hp n (List.mem_cons_of_mem _ hn)) hs hl
  unfold path PlainPath.tokens PlainPath.tree
  cases p.lead <;> simp [sign_separator, sign?_run, hseg, hrest]

variable {p : PlainPath}

theorem startsBang_of_endsPath (h : EndsPath after) : startsBang after = false := by
  simp [startsBang, h.bang]

theorem qualifiedPath_run (inExpr : Bool) (hp : p.Valid) (h : EndsPath after) :
    (g.qualifiedPath inExpr).run (p.tokens ++ after) = .ok (p.tree, after) := by
  have hpath := g.path_run inExpr hp h.separator h.angle
  have hf : afterSign "<" (p.tokens ++ after) = none := by
    unfold PlainPath.tokens
    cases p.lead <;> simp [sign_separator]
  simp [qualifiedPath, sign?_run, hf, hpath]

theorem namedType_run (plus : Bool) (hp : p.Valid) (h : EndsPath after) :
    (g.namedType plus Tree.none).run (p.tokens ++ after) =
      .ok (.node .pathType [p.tree], after) := by
  have hpath := g.qualifiedPath_run false hp h
  unfold namedType
  simp [hpath, tree_isKind, startsBang_of_endsPath h, h.plus, isAbsent, Tree.none]
  rfl

theorem typeRule_run (plus close : Bool) (hp : p.Free) (h : EndsPath after) :
    (g.typeRule plus close).run (p.tokens ++ after) = .ok (.node .pathType [p.tree], after) := by
  have hn := g.namedType_run plus hp.valid h
  have hs := hp.starts after
  unfold typeRule
  generalize p.tokens ++ after = ts at hs hn ⊢
  refine bind_run sees_run ?_
  cases hs with
  | word hw =>
    refine bind_run seesWord_run ?_
    rw [startsWord_ident, ne_of_isPathWord hw (by decide)]
    refine bind_run (a := Tree.none) rfl (bind_run rest_run ?_)
    simp (disch := decide) [isAbsent, Tree.none, ne_of_isPathWord hw]
    simp [isPathWord] at hw
    simp [hw]
    exact hn
  | mark =>
    refine bind_run seesWord_run ?_
    refine bind_run (a := Tree.none) rfl (bind_run rest_run ?_)
    simp [isAbsent, Tree.none]
    exact hn

theorem second_not_hash (p : PlainPath) (h : startsSign "#" after = false) :
    startsSign "#" (skip (p.tokens ++ after)) = false := by
  obtain ⟨_ | _, first, _ | _⟩ := p <;> simp [PlainPath.tokens, sign_separator, h]

/-- A path begins an expression; what follows decides which. -/
theorem atom_path {braces : Bool} {x : Except Fault (Tree × Tokens)} (hp : p.Free)
    (h : EndsPath after) (hx : (g.afterPath p.tree braces).run after = x) :
    (g.atom braces).run (p.tokens ++ after) = x := by
  have hn : (g.qualifiedPath true >>= fun t => g.afterPath t braces).run (p.tokens ++ after) = x :=
    bind_run (g.qualifiedPath_run true hp.valid h) hx
  have hs := hp.starts after
  have h2 := second_not_hash p h.hash
  unfold atom
  refine bind_run rest_run ?_
  generalize p.tokens ++ after = ts at hs hn h2 ⊢
  cases hs with
  | word hw =>
    simp at h2
    simp (disch := decide) [startsAsyncBlock, startsClosure, startsBinder, startsExprPath,
      startsPath, h2, ne_of_isPathWord hw]
    simp [isPathWord] at hw
    rw [if_pos (by tauto)]
    exact hn
  | mark =>
    simp at h2
    simp (disch := decide) [startsAsyncBlock, startsClosure, startsBinder, startsExprPath, startsPath]
    rw [StateT.run_bind] at hn
    exact hn

theorem atom_run (braces : Bool) (hp : p.Free) (h : EndsPath after)
    (hb : (braces && startsGroup .brace after) = false) :
    (g.atom braces).run (p.tokens ++ after) = .ok (.node .pathExpr [p.tree], after) := by
  refine g.atom_path hp h ?_
  unfold afterPath
  refine bind_run rest_run ?_
  rw [startsBang_of_endsPath h, hb]
  rfl

end Grammar

end Courier.Code
