import Courier.Proofs.Code.Elements
import Mathlib.Data.List.Find

/-!
Patterns and expressions in front of a comma.
-/
namespace Courier.Code

namespace Grammar
open Code.Parser Tokens

variable {g g' : Grammar} {after : Tokens}

@[simp] theorem startsAlternative_comma (ts : Tokens) :
    startsAlternative (ts ++ .comma :: after) = startsAlternative ts := by
  simp [startsAlternative]

@[simp] theorem startsPath_comma (ts : Tokens) : startsPath (ts ++ .comma :: after) = startsPath ts := by
  simp [startsPath]

theorem endsRange_comma {ts : Tokens} (hn : ts = [] ∨ next? ts ≠ none) :
    endsRange (ts ++ .comma :: after) = endsRange ts := by
  rcases hn with rfl | hn
  · simp only [endsRange, List.any_cons]
    rfl
  · cases ts with
    | nil => exact absurd rfl hn
    | cons t ts =>
      simp only [endsRange, List.any_cons, List.any_nil,
        startsSign_mark_comma (s := ",") (by simp; rfl) hn]
      simp (disch := decide) only [startsSign_comma, startsWord_comma]
      rfl

@[simp] theorem binaryOperator?_comma (ts : Tokens) :
    binaryOperator? (ts ++ .comma :: after) = binaryOperator? ts := by
  have h : ∀ op ∈ binaryOperators, ',' ∉ op.1.toList := by decide
  exact List.find?_congr fun op hop => startsSign_comma (h op hop)

@[simp] theorem startsAssignment_comma (ts : Tokens) :
    startsAssignment (ts ++ .comma :: after) = startsAssignment ts := by
  simp [startsAssignment]

@[simp] theorem nextLevel_comma (ts : Tokens) :
    nextLevel (ts ++ .comma :: after) = nextLevel ts := by
  simp [nextLevel]

@[simp] theorem startsDot_comma (ts : Tokens) :
    startsDot (ts ++ .comma :: after) = startsDot ts := by
  simp [startsDot]

/-- Behind a word that is there, the comma stands behind the rest. -/
theorem skip_comma_of_word {w : String} {ts : Tokens} (h : startsWord w ts = true) :
    skip (ts ++ .comma :: after) = skip ts ++ .comma :: after :=
  skip_comma (next?_of_startsWord h)

@[simp] theorem startsBinder_comma (ts : Tokens) :
    startsBinder (ts ++ .comma :: after) = startsBinder ts := by
  cases hw : startsWord "for" ts with
  | false => simp [startsBinder, hw]
  | true =>
    cases hs : startsSign "<" (skip ts) with
    | false => simp [startsBinder, hs, skip_comma_of_word hw]
    | true =>
      simp [startsBinder, hs, skip_comma_of_word hw, skip_comma (next?_of_startsSign (by simp) hs)]

@[simp] theorem startsClosure_comma (ts : Tokens) :
    startsClosure (ts ++ .comma :: after) = startsClosure ts := by
  unfold startsClosure
  have hc := and_skip_comma after (b := startsWord "const" ts)
    (t := fun ts => !startsGroup .brace ts) next?_of_startsWord fun ts => by simp
  have ha := and_skip_comma after (b := startsWord "async" ts)
    (t := fun ts => startsSign "|" ts || startsWord "move" ts) next?_of_startsWord fun ts => by simp
  simp (disch := decide) only [startsSign_comma, startsWord_comma, startsBinder_comma, hc, ha]

@[simp] theorem startsAsyncBlock_comma (ts : Tokens) :
    startsAsyncBlock (ts ++ .comma :: after) = startsAsyncBlock ts := by
  cases hw : startsWord "async" ts with
  | false => simp [startsAsyncBlock, hw]
  | true =>
    cases hm : startsWord "move" (skip ts) with
    | false => simp [startsAsyncBlock, hm, skip_comma_of_word hw]
    | true => simp [startsAsyncBlock, hm, skip_comma_of_word hw, skip_comma_of_word hm]

@[simp] theorem startsExprPath_comma (ts : Tokens) :
    startsExprPath (ts ++ .comma :: after) = startsExprPath ts := by
  unfold startsExprPath
  have h := and_skip_comma after (b := startsWord "try" ts)
    (t := fun ts => startsSign "!" ts || startsSign "::" ts) next?_of_startsWord fun ts => by simp
  simp only [startsPath_comma, startsWord_comma, h]

theorem word_group_comma (w : String) (d : Delimiter) (ts : Tokens) :
    (startsWord w ts && startsGroup d (skip (ts ++ .comma :: after))) =
      (startsWord w ts && startsGroup d (skip ts)) :=
  and_skip_comma _ next?_of_startsWord fun _ => startsGroup_comma

@[simp] theorem startsBlockLike_comma (ts : Tokens) :
    startsBlockLike (ts ++ .comma :: after) = startsBlockLike ts := by
  simp only [startsBlockLike, startsWord_comma, startsBinder_comma, startsGroup_comma,
    startsLifetime_comma, word_group_comma]

@[simp] theorem startsExpr_comma (ts : Tokens) :
    startsExpr (ts ++ .comma :: after) = startsExpr ts := by
  simp [startsExpr]

theorem endsOpenRange_comma {ts : Tokens} (braces : Bool) (hn : ts = [] ∨ next? ts ≠ none) :
    endsOpenRange braces (ts ++ .comma :: after) = endsOpenRange braces ts := by
  rcases hn with rfl | hn
  · have h : startsSign "," (.comma :: after) = true := by
      simp only [startsSign, afterSign]
      rfl
    simp [endsOpenRange, h]
  · cases ts with
    | nil => exact absurd rfl hn
    | cons t ts =>
      simp only [endsOpenRange, List.any_cons, List.any_nil,
        startsSign_mark_comma (s := ",") (by simp; rfl) hn]
      simp (disch := decide) only [startsSign_comma, startsWord_comma, startsDot_comma, startsGroup_comma]
      rfl

theorem weightList_append (ts us : Tokens) :
    Token.weightList (ts ++ us) = Token.weightList ts + Token.weightList us := by
  induction ts with
  | nil => simp [Token.weightList]
  | cons t ts ih => simp [Token.weightList, ih, Nat.add_assoc]

@[simp] theorem rangeLimit_before : Parser.Before after rangeLimit rangeLimit := by
  unfold rangeLimit
  repeat' first | gcongr | split
  all_goals simp

@[simp] theorem member_before : Parser.Before after member member := by
  unfold member
  refine Before.look fun ts => .ite_congr (by simp) ident_before ?_
  rw [literal?_comma]
  rcases literal? ts with _ | ⟨_ | _ | _ | _, left⟩
  case some.literal =>
    simp only [Option.map_some]
    split
    · exact .set left fun _ => pure_before _
    · simp
  all_goals simp

@[simp] theorem positions_before (e : Tree) (ps : List String) :
    Parser.Before after (positions e ps) (positions e ps) := by
  induction ps generalizing e with
  | nil => simp [positions]
  | cons p ps ih =>
    rw [positions]
    split
    · exact ih _
    · simp

/-- What is there without the comma is there with it. -/
@[simp] theorem afterCast_before : Parser.Before after afterCast afterCast := by
  unfold afterCast
  refine Before.look fun ts => ?_
  simp (disch := decide) only [startsDot_comma, startsSign_comma, startsGroup_comma]
  by_cases hd : startsDot ts = true
  · simp only [hd, if_true]
    split
    · simp
    · rename_i hw
      split at hw
      · cases hw
      · split at hw <;> cases hw
  · simp only [hd, Bool.false_eq_true, if_false]
    split <;> simp

@[simp] theorem rangeMark_before : Parser.Before after rangeMark rangeMark := by
  unfold rangeMark
  repeat' first | gcongr | split
  all_goals simp

@[simp] theorem label_before : Parser.Before after label label := by
  unfold label
  gcongr <;> simp

@[simp] theorem builtin_before : Parser.Before after builtin builtin := by
  unfold builtin
  refine (word_before _).bind fun _ => (sign_before _).bind fun _ => ident_before.bind fun _ => ?_
  refine Before.get fun ts => ?_
  rw [next?_comma]
  rcases next? ts with _ | ⟨_ | _ | _ | ⟨_ | _ | _ | _, body⟩, left⟩
  case some.group.paren => exact .set left fun _ => pure_before _
  all_goals simp

section
variable (hb : g.Below g') (h : Grammar.Before after g g')

/-! ## Within brackets -/

section
include hb

@[gcongr] theorem fullBlock_before : Parser.Before after g.fullBlock g'.fullBlock := by
  unfold fullBlock block
  gcongr
  simp

@[gcongr] theorem parenthesizedPattern_before :
    Parser.Before after g.parenthesizedPattern g'.parenthesizedPattern := by
  unfold parenthesizedPattern
  gcongr
  split <;> simp

@[gcongr] theorem callList_before : Parser.Before after g.callList g'.callList := by
  unfold callList
  gcongr

@[gcongr] theorem afterPath_before (path : Tree) (braces : Bool) :
    Parser.Before after (g.afterPath path braces) (g'.afterPath path braces) := by
  unfold afterPath
  gcongr <;> simp

@[gcongr] theorem parenthesizedExpr_before :
    Parser.Before after g.parenthesizedExpr g'.parenthesizedExpr := by
  unfold parenthesizedExpr
  gcongr
  split <;> simp

@[gcongr] theorem array_before : Parser.Before after g.array g'.array := by
  unfold array
  refine Before.get fun ts => ?_
  rw [next?_comma]
  rcases next? ts with _ | ⟨_ | _ | _ | ⟨_ | _ | _ | _, body⟩, left⟩
  case some.group.bracket =>
    refine Before.set left fun _ => .ite (pure_before _) ?_
    refine (lift_run_before (fullExpr_below hb) _).bind fun x => .ite (pure_before _) (.ite ?_ (.ite ?_ ?_))
    · refine (lift_all_before ?_ _).bind fun _ => pure_before _
      gcongr
    · refine (lift_all_before ?_ _).bind fun _ => pure_before _
      gcongr
    · simp
  all_goals simp

@[gcongr] theorem exprAttributes_before :
    Parser.Before after g.exprAttributes g'.exprAttributes := by
  unfold exprAttributes
  gcongr
  simp

end

/-! ## Operators -/

section
include h

@[gcongr] theorem expr_before (braces : Bool) : Parser.Before after (g.expr braces) (g'.expr braces) :=
  h.expr braces

@[gcongr] theorem unary_before (braces : Bool) :
    Parser.Before after (g.unary braces) (g'.unary braces) := h.unary braces

@[gcongr] theorem operators_before (left : Tree) (braces : Bool) (level : Nat) :
    Parser.Before after (g.operators left braces level) (g'.operators left braces level) :=
  h.operators left braces level

@[gcongr] theorem operand_before (right : Tree) (braces : Bool) (level : Nat) :
    Parser.Before after (g.operand right braces level) (g'.operand right braces level) :=
  h.operand right braces level

@[gcongr] theorem trailers_before (left : Tree) :
    Parser.Before after (g.trailers left) (g'.trailers left) := h.trailers left

@[gcongr] theorem pattern_before : Parser.Before after g.pattern g'.pattern := h.pattern

@[gcongr] theorem branches_before : Parser.Before after g.branches g'.branches := h.branches

@[gcongr] theorem fullExpr_before : Parser.Before after g.fullExpr g'.fullExpr := by
  unfold fullExpr
  gcongr

@[gcongr] theorem alternatives_before : Parser.Before after g.alternatives g'.alternatives := by
  unfold alternatives
  gcongr <;> simp

@[gcongr] theorem namePattern_before : Parser.Before after g.namePattern g'.namePattern := by
  unfold namePattern
  dsimp only
  repeat' first | gcongr | split
  all_goals simp

@[gcongr] theorem letExpr_before (braces : Bool) :
    Parser.Before after (g.letExpr braces) (g'.letExpr braces) := by
  unfold letExpr
  gcongr <;> simp

@[gcongr] theorem operandRule_before (right : Tree) (braces : Bool) (level : Nat) :
    Parser.Before after (g.operandRule right braces level) (g'.operandRule right braces level) := by
  unfold operandRule
  refine Before.look fun ts => ?_
  simp only [nextLevel_comma]
  refine .ite ((operators_before h _ _ _).bind fun e => Before.look fun us => ?_) (pure_before _)
  refine .ite_congr ?_ (pure_before _) (operand_before h _ _ _)
  simp [weightList_append]

@[gcongr] theorem operandAt_before (braces : Bool) (level : Nat) :
    Parser.Before after (g.operandAt braces level) (g'.operandAt braces level) := by
  unfold operandAt
  gcongr

@[gcongr] theorem rangeEnd_before (mark : Tree) (braces : Bool) :
    Parser.Before after (g.rangeEnd mark braces) (g'.rangeEnd mark braces) := by
  unfold rangeEnd
  refine Before.end_or (fun ts => ?_) fun b => ?_
  · by_cases hn : ts = [] ∨ next? ts ≠ none
    · exact .inl (endsOpenRange_comma braces hn)
    · right
      rw [not_or, Classical.not_not] at hn
      have he : endsOpenRange braces ts = false := by
        cases ts with
        | nil => exact absurd rfl hn.1
        | cons t ts =>
          simp (disch := decide) [endsOpenRange, startsDot, startsSign_of_none hn.2, startsWord_of_none hn.2,
            startsGroup_of_none hn.2]
      rw [he, Bool.and_false]
      exact ((h.unary_starves braces).bind _) ts hn.2
  · gcongr
    simp

@[gcongr] theorem operatorsRule_before (left : Tree) (braces : Bool) (level : Nat) :
    Parser.Before after (g.operatorsRule left braces level) (g'.operatorsRule left braces level) := by
  unfold operatorsRule
  refine .ite (pure_before _) (Before.look fun ts => ?_)
  simp only [binaryOperator?_comma]
  split
  · repeat' first | gcongr | split
    all_goals simp
  · refine .ite_congr (by simp) ?_ (.ite_congr (by simp) ?_ (.ite_congr (by simp) ?_ (pure_before _)))
    all_goals gcongr <;> simp

@[gcongr] theorem exprRule_before (braces : Bool) :
    Parser.Before after (g.exprRule braces) (g'.exprRule braces) := by
  unfold exprRule
  gcongr

@[gcongr] theorem jumpValue_before (go : Bool) :
    Parser.Before after (g.jumpValue go) (g'.jumpValue go) := by
  unfold jumpValue
  gcongr <;> simp

@[gcongr] theorem breakExpr_before (braces : Bool) :
    Parser.Before after (g.breakExpr braces) (g'.breakExpr braces) := by
  unfold breakExpr
  dsimp only
  gcongr <;> simp

end

include hb h

/-! ## Patterns -/

@[gcongr] theorem rangeBound_before : Parser.Before after g.rangeBound g'.rangeBound := by
  unfold rangeBound
  refine Before.look_or (fun ts => ?_) fun ts => ?_
  · by_cases hn : ts = [] ∨ next? ts ≠ none
    · left
      simp only [endsRange_comma hn, startsLiteral_comma, startsPath_comma, startsWord_comma]
    · right
      rw [not_or, Classical.not_not] at hn
      cases ts with
      | nil => exact absurd rfl hn.1
      | cons t ts =>
        simp (disch := decide) only [endsRange, startsPath, startsSign_of_none hn.2,
          startsWord_of_none hn.2, startsLiteral_of_none hn.2, startsIdent_of_none hn.2,
          List.isEmpty_cons, List.any_cons, List.any_nil, Bool.or_self, Bool.false_and,
          Bool.false_eq_true, if_false]
        exact missing_starves _ _ hn.2
  gcongr <;> simp

@[gcongr] theorem rangeFrom_before (start : Tree) :
    Parser.Before after (g.rangeFrom start) (g'.rangeFrom start) := by
  unfold rangeFrom
  dsimp only
  gcongr <;> simp

@[gcongr] theorem pathPattern_before : Parser.Before after g.pathPattern g'.pathPattern := by
  unfold pathPattern
  gcongr <;> simp

@[gcongr] theorem patternRule_before : Parser.Before after g.patternRule g'.patternRule := by
  unfold patternRule
  refine Before.look fun ts => ?_
  have he := and_skip_comma after (b := startsIdent ts) (t := fun ts =>
    Tokens.startsSign "::" ts || Tokens.startsSign "!" ts || Tokens.startsGroup .brace ts ||
      Tokens.startsGroup .paren ts || Tokens.startsSign ".." ts)
    next?_of_startsIdent fun ts => by simp
  have hs := and_skip_comma after (b := startsWord "self" ts)
    (t := startsSign "::") next?_of_startsWord fun ts => startsSign_comma (by simp)
  dsimp only
  refine .ite_congr ?_ (pathPattern_before hb h) ?_
  · simp (disch := decide) only [startsIdent_comma, startsWord_comma, startsSign_comma, he, hs]
  refine .ite_congr (by simp) (.bind (word_before _) fun _ => pure_before _) ?_
  refine .ite_congr (by simp) ?_ ?_
  · gcongr <;> simp
  refine .ite_congr (by simp) ?_ ?_
  · gcongr <;> simp
  refine .ite_congr (by simp) (namePattern_before h) ?_
  refine .ite_congr (by simp) ?_ ?_
  · gcongr <;> simp
  refine .ite_congr (by simp) (parenthesizedPattern_before hb) ?_
  refine .ite_congr (by simp) ?_ ?_
  · gcongr
    simp
  refine .ite_congr (by simp) ?_ (missing_before _)
  gcongr <;> simp

/-! ## Trailers -/

@[gcongr] theorem afterDot_before (e : Tree) :
    Parser.Before after (g.afterDot e) (g'.afterDot e) := by
  unfold afterDot
  dsimp only
  repeat' first | gcongr | split
  all_goals simp

@[gcongr] theorem dotted_before (e : Tree) :
    Parser.Before after (g.dotted e) (g'.dotted e) := by
  unfold dotted
  refine (sign_before _).bind fun _ => Before.get fun ts => ?_
  rw [literal?_comma]
  rcases literal? ts with _ | ⟨_ | _ | _ | _, left⟩
  case some.literal =>
    refine .ite (.set left fun _ => ?_) (afterDot_before hb h e)
    gcongr <;> simp
  all_goals exact afterDot_before hb h e

@[gcongr] theorem trailersRule_before (e : Tree) :
    Parser.Before after (g.trailersRule e) (g'.trailersRule e) := by
  unfold trailersRule
  gcongr <;> simp

/-! ## Expressions without binary operators -/

@[gcongr] theorem groupExpr_before (braces : Bool) :
    Parser.Before after (g.groupExpr braces) (g'.groupExpr braces) := by
  unfold groupExpr
  repeat' first | gcongr | split
  all_goals simp

@[gcongr] theorem closureParameter_before :
    Parser.Before after g.closureParameter g'.closureParameter := by
  unfold closureParameter
  gcongr <;> simp

@[gcongr] theorem closure_before (braces : Bool) :
    Parser.Before after (g.closure braces) (g'.closure braces) := by
  unfold closure
  dsimp only
  repeat' first | gcongr | split
  all_goals simp

@[gcongr] theorem branchesRule_before :
    Parser.Before after g.branchesRule g'.branchesRule := by
  unfold branchesRule
  refine (word_before _).bind fun _ => (expr_before h _).bind fun _ => (plainBlock_before hb).bind fun _ => ?_
  refine (word?_before _).bind fun o => ?_
  split
  · simp
  refine Before.look fun ts => .ite_congr (by simp) ?_ (.ite_congr (by simp) ?_ (fail_before _))
  all_goals gcongr; simp

@[gcongr] theorem labelled_before (label : Tree) :
    Parser.Before after (g.labelled label) (g'.labelled label) := by
  unfold labelled
  refine Before.look fun ts => .ite_congr (by simp) ?_ (.ite_congr (by simp) ?_ (.ite_congr (by simp) ?_ (.ite_congr (by simp) ?_ (fail_before _))))
  all_goals gcongr <;> simp

@[gcongr] theorem choice_before : Parser.Before after g.choice g'.choice := by
  unfold choice
  gcongr <;> simp

@[gcongr] theorem blockLike_before : Parser.Before after g.blockLike g'.blockLike := by
  unfold blockLike
  refine Before.rest (fun ts => by simp) fun ts => ?_
  refine .ite (label_before.bind fun l => labelled_before hb h l) ?_
  gcongr <;> simp

@[gcongr] theorem atom_before (braces : Bool) :
    Parser.Before after (g.atom braces) (g'.atom braces) := by
  unfold atom
  refine Before.look fun ts => ?_
  dsimp only
  refine .ite_congr (by simp) (groupExpr_before hb h _) ?_
  refine .ite_congr (by simp) (.bind literal_before fun _ => pure_before _) ?_
  refine .ite_congr (by simp) ?_ ?_
  · gcongr <;> simp
  refine .ite_congr (by rw [startsWord_comma, word_group_comma]) (blockLike_before hb h) ?_
  refine .ite_congr (by simp) (closure_before hb h _) ?_
  refine .ite_congr ?_ builtin_before ?_
  · rw [startsWord_comma, and_skip_comma _ next?_of_startsWord (t := startsSign "#")
      fun ts => startsSign_comma (by simp)]
  refine .ite_congr (by simp) ?_ ?_
  · gcongr
  refine .ite_congr (by simp) (parenthesizedExpr_before hb) ?_
  refine .ite_congr (by simp) (breakExpr_before h _) ?_
  refine .ite_congr (by simp) ?_ ?_
  · gcongr <;> simp
  refine .ite_congr (by simp) ?_ ?_
  · gcongr <;> simp
  refine .ite_congr (by simp) ?_ ?_
  · gcongr <;> simp
  refine .ite_congr (by simp) (array_before hb) ?_
  refine .ite_congr (by simp) (letExpr_before h _) ?_
  refine .ite_congr (by simp) ?_ ?_
  · gcongr <;> simp
  refine .ite_congr (by simp) (blockLike_before hb h) ?_
  refine .ite_congr (by simp) ?_ ?_
  · gcongr <;> simp
  exact .ite_congr (by simp) (.bind (word_before _) fun _ => pure_before _) (missing_before _)

@[gcongr] theorem unaryRule_before (braces : Bool) :
    Parser.Before after (g.unaryRule braces) (g'.unaryRule braces) := by
  unfold unaryRule
  refine (exprAttributes_before hb).bind fun as => Before.look fun ts => ?_
  refine .ite_congr (by simp) ?_ (.ite_congr (by simp) ?_ ?_)
  · gcongr
    simp
  · refine (sign_before _).bind fun mark => Before.look fun ts => ?_
    have hr := and_skip_comma after (b := startsWord "raw" ts)
      (t := fun ts => startsWord "mut" ts || startsWord "const" ts) next?_of_startsWord
      fun ts => by simp
    refine .ite_congr (by simp only [startsWord_comma, hr]) ?_ ?_
    · gcongr <;> simp
    · dsimp only
      gcongr <;> simp
  · simp (disch := decide) only [List.find?_cons, List.find?_nil, startsSign_comma]
    split
    all_goals gcongr <;> simp

end

/-! ## Expressions need a token -/

section
variable (g : Grammar)

theorem exprAttributes_of_none {ts : Tokens} (hn : next? ts = none) :
    g.exprAttributes.run ts = .ok ([], ts) :=
  manyWhile_run_of_not (by simp [startsSign_of_none hn])

theorem groupExpr_starves (he : ∀ braces, (g.expr braces).Starves) (braces : Bool) :
    (g.groupExpr braces).Starves :=
  (hidden_starves (he true)).bind _

theorem atom_starves (he : ∀ braces, (g.expr braces).Starves) (braces : Bool) :
    (g.atom braces).Starves := by
  unfold atom
  refine .rest fun ts hn => ?_
  by_cases hh : startsHidden ts = true
  · simp only [hh, if_true]
    exact groupExpr_starves g he braces
  · simp (disch := decide) only [hh, startsLiteral_of_none hn, startsAsyncBlock, startsClosure,
      startsBinder, startsExprPath, startsPath, startsBlockLike, startsIdent_of_none hn,
      startsSign_of_none hn, startsWord_of_none hn, startsGroup_of_none hn,
      startsLifetime_of_none hn, List.any_cons, List.any_nil, Bool.false_and, Bool.or_self,
      Bool.false_eq_true, if_false]
    exact missing_starves _

theorem unaryRule_starves (he : ∀ braces, (g.expr braces).Starves) (braces : Bool) :
    (g.unaryRule braces).Starves := by
  unfold unaryRule
  refine .of_run (fun ts hn => exprAttributes_of_none g hn) (.rest fun ts hn => ?_)
  have ha := atom_starves g he braces
  simp (disch := decide) only [startsSign_of_none hn, List.find?_cons, List.find?_nil,
    Bool.false_eq_true, if_false]
  split
  · exact ha.bind _
  · exact ha.bind _

theorem exprRule_starves (hu : ∀ braces, (g.unary braces).Starves) (braces : Bool) :
    (g.exprRule braces).Starves := by
  unfold exprRule
  exact (hu braces).bind _

end

/-! ## All depths -/

theorem ofDepth_before (after : Tokens) (n : Nat) :
    Grammar.Before after (ofDepth n) (ofDepth n) := by
  induction n with
  | zero => constructor <;> intros <;> first | exact throw_before _ | exact throw_starves _
  | succ n ih =>
    have hb : (ofDepth n).Below (ofDepth n) := ofDepth_below (Nat.le_refl n)
    exact
      { type := typeRule_before hb ih
        bound := boundRule_before hb ih
        expr := exprRule_before ih
        unary := unaryRule_before hb ih
        operators := operatorsRule_before ih
        operand := operandRule_before ih
        trailers := trailersRule_before hb ih
        pattern := patternRule_before hb ih
        branches := branchesRule_before hb ih
        bound_starves := boundRule_starves _
        expr_starves := exprRule_starves _ ih.unary_starves
        unary_starves := unaryRule_starves _ ih.expr_starves }

end Grammar

end Courier.Code
