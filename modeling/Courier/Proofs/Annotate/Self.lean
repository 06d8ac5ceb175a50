import Courier.Proofs.Annotate.Struct
import Courier.Proofs.Code.Structs

/-!
The name `Self` in the types of an annotated struct. It is replaced where it is a type of its own,
and left in paths that begin with it, in expressions and in tokens that were not looked into.
-/
namespace Courier.Annotate
open Code Code.Parser Code.Grammar

/-! ## The name of a struct -/

/-- A name that is an identifier. -/
def IsName (t : Code.Tree) : Prop := ∃ n, t = Tree.word n ∧ Tokens.isIdent n

/-- If the tree is a struct with named fields, its name is an identifier. -/
def Named (t : Code.Tree) : Prop := ∀ visibility name fields,
  namedStruct? t = some (visibility, name, fields) → IsName name

theorem named_of_parseItem {ts : Tokens} {item : Code.Tree} (h : parseItem ts = .ok item) :
    Named item := by
  intro visibility name fields hs
  unfold namedStruct? at hs
  split at hs
  · cases hs
    cases shaped_of_parseItem h _ rfl with
    | named hn => exact ⟨_, rfl, hn⟩
  · cases hs

/-! ## Renamed tokens -/

/-- Tokens in which some words `Self`, by their number, are another name, and all else is the same. -/
inductive Renamed (name : String) : Nat → Tokens → Tokens → Prop
  | nil : Renamed name 0 [] []
  | keep {k t ts us} : Renamed name k ts us → Renamed name k (t :: ts) (t :: us)
  | self {k ts us} : Renamed name k ts us →
      Renamed name (k + 1) (.ident "Self" :: ts) (.ident name :: us)
  | group {j k d as bs ts us} : Renamed name j as bs → Renamed name k ts us →
      Renamed name (j + k) (.group d as :: ts) (.group d bs :: us)

namespace Renamed

variable {name : String} {j k : Nat} {as bs ts us : Tokens}

theorem refl (ts : Tokens) : Renamed name 0 ts ts := by
  induction ts with
  | nil => exact .nil
  | cons t ts ih => exact .keep ih

theorem append (h : Renamed name j as bs) (h' : Renamed name k ts us) :
    Renamed name (j + k) (as ++ ts) (bs ++ us) := by
  induction h with
  | nil => rwa [Nat.zero_add]
  | keep _ ih => exact .keep ih
  | self _ ih =>
    rw [Nat.add_right_comm]
    exact .self ih
  | group ha _ _ ih =>
    rw [Nat.add_assoc]
    exact .group ha ih

/-- The words `Self` that are left and those that were replaced. -/
theorem count_wordsIn (hn : name ≠ "Self") (h : Renamed name k ts us) :
    (Token.wordsIn us).count "Self" + k = (Token.wordsIn ts).count "Self" := by
  induction h with
  | nil => rfl
  | keep _ ih =>
    simp only [Token.wordsIn, List.count_append]
    omega
  | self _ ih =>
    simp only [Token.wordsIn, Token.words, List.count_append, List.count_singleton_self,
      List.count_singleton, beq_iff_eq, if_neg hn]
    omega
  | group _ _ iha ih =>
    simp only [Token.wordsIn, Token.words, List.count_append]
    omega

end Renamed

/-! ## Types that are replaced -/

mutual
/-- The trees in a tree and the tree itself, but for those in a form that is kept as it is written. -/
def subtrees : Code.Tree → List Code.Tree
  | .node k ps =>
    .node k ps :: if k == .raw && ps.head?.any isFixed then [] else subtreesIn ps
  | .group d ps => .group d ps :: subtreesIn ps
  | t => [t]

def subtreesIn : List Code.Tree → List Code.Tree
  | [] => []
  | t :: ts => subtrees t ++ subtreesIn ts
end

/-- How many types in a tree are `Self` and nothing else. -/
def selfTypes (t : Code.Tree) : Nat := (subtrees t).countP isSelf

def selfTypesIn (ts : List Code.Tree) : Nat := (subtreesIn ts).countP isSelf

theorem selfTypes_node {k : Kind} {ps : List Code.Tree} (hs : isSelf (.node k ps) = false)
    (hr : (k == .raw && ps.head?.any isFixed) = false) :
    selfTypes (.node k ps) = selfTypesIn ps := by
  simp [selfTypes, selfTypesIn, subtrees, hs, hr]

theorem selfTypesIn_cons (t : Code.Tree) (ts : List Code.Tree) :
    selfTypesIn (t :: ts) = selfTypes t + selfTypesIn ts :=
  List.countP_append ..

theorem isSelf_node {k : Kind} (hk : k ≠ .pathType) (ps : List Code.Tree) :
    isSelf (.node k ps) = false := by
  simp [isSelf, hk]

theorem selfTypes_fixed {ps : List Code.Tree} (h : ps.head?.any isFixed) :
    selfTypes (.node .raw ps) = 0 := by
  simp [selfTypes, subtrees, h, isSelf_node]

theorem selfTypes_group (d : Delimiter) (ps : List Code.Tree) :
    selfTypes (.group d ps) = selfTypesIn ps := by
  simp [selfTypes, selfTypesIn, subtrees, isSelf]

mutual
theorem tokens_resolveSelf (name : String) (t : Code.Tree) :
    Renamed name (selfTypes t) t.tokens (resolveSelf (Tree.word name) t).tokens := by
  match t with
  | .token t => exact .refl _
  | .sign s => exact .refl _
  | .lifetime l => exact .refl _
  | .group d ps =>
    rw [selfTypes_group]
    exact .group (tokens_resolveEach name ps) .nil
  | .node k ps =>
    have h := tokens_resolveEach name ps
    unfold resolveSelf
    split
    · rename_i heq
      cases heq
      split
      · -- the one place where a word is replaced
        rename_i hs
        rw [isSelf, beq_iff_eq] at hs
        cases hs
        exact .self .nil
      · rename_i hs
        rw [selfTypes_node (by simpa using hs) rfl]
        exact h
    · rename_i heq
      cases heq
      split
      · -- nothing in a form that is kept is a type
        rename_i hf
        rw [selfTypes_fixed hf]
        exact .refl _
      · rename_i hf
        rw [selfTypes_node (isSelf_node (by decide) ps) (by simpa using hf)]
        exact h
    · rename_i hk hr heq
      cases heq
      rw [selfTypes_node (isSelf_node hk ps) (by simpa using fun h => absurd h hr)]
      exact h
    · rename_i heq
      cases heq
    · rename_i hnode _
      exact (hnode k ps rfl).elim

theorem tokens_resolveEach (name : String) (ts : List Code.Tree) :
    Renamed name (selfTypesIn ts) (Tree.tokensList ts)
      (Tree.tokensList (resolveEach (Tree.word name) ts)) := by
  match ts with
  | [] => exact .nil
  | t :: ts =>
    rw [selfTypesIn_cons]
    exact (tokens_resolveSelf name t).append (tokens_resolveEach name ts)
end

/-! ## Declarations -/

/-- The types of a declared struct are those of its fields, token for token, with the struct's name
for each type that is `Self`. So the word is left exactly where some `Self` is no type of its own. -/
theorem declarationOf_renamed {us : Tokens} {item visibility name : Code.Tree}
    {fields : List (Code.Tree × Code.Tree)} (hi : parseItem us = .ok item)
    (hs : namedStruct? item = some (visibility, name, fields)) :
    ∃ n, name = Tree.word n ∧ n ≠ "Self" ∧
      (declarationOf item).members =
        fields.map (fun f => .stored f.1.text (some (resolveSelf name f.2).text)) ∧
      ∀ f ∈ fields, Renamed n (selfTypes f.2) f.2.tokens (resolveSelf name f.2).tokens ∧
        ("Self" ∉ Token.wordsIn (resolveSelf name f.2).tokens ↔
          selfTypes f.2 = (Token.wordsIn f.2.tokens).count "Self") := by
  obtain ⟨n, rfl, hn⟩ := named_of_parseItem hi _ _ _ hs
  have hne : n ≠ "Self" := by
    rintro rfl
    exact absurd hn (by decide)
  refine ⟨n, rfl, hne, congrArg Declaration.members (declarationOf_struct hs).1, fun f _ => ?_⟩
  have hr := tokens_resolveSelf n f.2
  have hc := hr.count_wordsIn hne
  refine ⟨hr, ?_⟩
  rw [← List.count_eq_zero]
  omega

/-- A list of the struct's own type, and bytes by a constant of it. -/
def ownConstant : Code.Tree :=
  .node .structItem [.node .attributes [], .node .visibility [], Tree.word "struct",
    Tree.word "A", Tree.none, Tree.none,
    .node .fields [.group .brace
      [plainField "a" (Grammar.genericTree "Vec" (.node .pathType [PlainPath.tree ⟨false, "Self", []⟩])),
        .sign ",",
        plainField "b" (.node .arrayType [.group .bracket
          [.node .pathType [PlainPath.tree ⟨false, "u8", []⟩], .sign ";",
            .node .pathExpr [PlainPath.tree ⟨false, "Self", ["N"]⟩]]])]],
    Tree.none, Tree.none]

theorem declarationOf_renamed_of_ownConstant :
    parseItem ownConstant.tokens = .ok ownConstant ∧
      (declarationOf ownConstant).members =
        [.stored "a" (some "Vec < A >"), .stored "b" (some "[u8 ; Self :: N]")] ∧
      ∀ visibility name fields, namedStruct? ownConstant = some (visibility, name, fields) →
        fields.map (fun f => decide ("Self" ∈ Token.wordsIn (resolveSelf name f.2).tokens)) =
          [false, true] := by
  have hi : parseItem ownConstant.tokens = .ok ownConstant := by decide +kernel
  refine ⟨hi, ?_, fun visibility name fields hs => ?_⟩
  · obtain ⟨_, _, _, hm, _⟩ := declarationOf_renamed hi (rfl : namedStruct? ownConstant = some _)
    exact hm.trans (by decide +kernel)
  · obtain ⟨n, rfl, _, _, hf⟩ := declarationOf_renamed hi hs
    cases hs
    have ha := (hf _ (.head _)).2.mpr (by decide +kernel)
    have hb := mt (hf _ (.tail _ (.head _))).2.mp (by decide +kernel)
    rw [not_not] at hb
    exact congrArg₂ (fun x y => [x, y]) (decide_eq_false ha) (decide_eq_true hb)

end Courier.Annotate
