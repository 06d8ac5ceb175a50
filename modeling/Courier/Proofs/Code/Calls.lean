import Courier.Proofs.Code.Plain

/-! Chains of calls and fields behind a path, step by step. -/
namespace Courier.Code

namespace Tokens

/-- An atom begins here: a path, one into a type between angle brackets, or a closure. -/
inductive StartsAtom : Tokens → Prop
  | path {ts : Tokens} (h : StartsPath ts) : StartsAtom ts
  | angle {r : Tokens} : StartsAtom (.punct '<' false :: r)
  | bar {r : Tokens} : StartsAtom (.punct '|' false :: r)

/-- An expression ends in front of these: nothing, or a comma. -/
inductive EndsExpr : Tokens → Prop
  | nil : EndsExpr []
  | comma {r : Tokens} : EndsExpr (.comma :: r)

/-- What may follow a link of a chain: the end of the expression, or the dot of the next link. -/
inductive Trails : Tokens → Prop
  | ends {ts : Tokens} (h : EndsExpr ts) : Trails ts
  | dot {r : Tokens} : Trails (.punct '.' false :: r)

variable {after : Tokens}

theorem Trails.endsPath (h : Trails after) : EndsPath after := by
  rcases h with (_ | _) | _ <;> constructor <;> simp [Token.comma]

theorem Trails.startsGroup (h : Trails after) (d : Delimiter) : startsGroup d after = false := by
  rcases h with (_ | _) | _ <;> simp [Token.comma]

theorem endsPath_paren {body : Tokens} : EndsPath (.group .paren body :: after) := by
  constructor <;> simp

end Tokens

namespace Parser
open Tokens

variable {ts after : Tokens}

theorem grouped_run {d : Delimiter} {p : Parser (List Tree)} (ps : List Tree) (hd : d ≠ .hidden)
    (h : p.run ts = .ok (ps, [])) :
    (grouped d p).run (.group d ts :: after) = .ok (.group d ps, after) := by
  have ha := all_of_run h
  have hn : next? (.group d ts :: after) = some (.group d ts, after) := by
    cases d <;> first | contradiction | simp
  simp only [grouped, group, StateT.run_bind, StateT.run_get, pure_bind, hn, ha, beq_self_eq_true,
    if_true]
  rfl

theorem separated_nil {sep : String} {p : Parser Tree} : (separated sep p).run [] = .ok ([], []) :=
  rfl

theorem separated_one {sep : String} {p : Parser Tree} {t : Tree} (hts : ts ≠ [])
    (h : p.run ts = .ok (t, [])) : (separated sep p).run ts = .ok ([t], []) := by
  unfold separated
  refine iterate_stop (bind_run finished_run ?_)
  rw [if_neg (by simpa using hts)]
  exact bind_run h (bind_run finished_run rfl)

end Parser

namespace Grammar
open Code.Parser Tokens

variable (g : Grammar) {t c : Tree} {name : String} {ts r after : Tokens} {braces : Bool}

/-- An expression that further calls and operators may follow. -/
def IsOperand (t : Tree) : Prop :=
  ∃ k ps, t = .node k ps ∧ k ∈ [.pathExpr, .fieldExpr, .methodExpr, .callExpr]

theorem isOperand_path (ps : List Tree) : IsOperand (.node .pathExpr ps) := ⟨_, ps, rfl, by simp⟩

theorem isOperand_field (ps : List Tree) : IsOperand (.node .fieldExpr ps) := ⟨_, ps, rfl, by simp⟩

theorem isOperand_method (ps : List Tree) : IsOperand (.node .methodExpr ps) := ⟨_, ps, rfl, by simp⟩

theorem isOperand_call (ps : List Tree) : IsOperand (.node .callExpr ps) := ⟨_, ps, rfl, by simp⟩

theorem IsOperand.isRange (h : IsOperand t) : Code.isRange t = false := by
  obtain ⟨k, ps, rfl, hk⟩ := h
  simp only [List.mem_cons, List.not_mem_nil, or_false] at hk
  rcases hk with rfl | rfl | rfl | rfl <;> rfl

/-! ## Lists of arguments -/

theorem callList_nil : g.callList.run (.group .paren [] :: after) = .ok (.group .paren [], after) :=
  grouped_run _ (by simp) separated_nil

theorem callList_one (hts : ts ≠ []) (h : g.fullExpr.run ts = .ok (t, [])) :
    g.callList.run (.group .paren ts :: after) = .ok (.group .paren [t], after) :=
  grouped_run _ (by simp) (separated_one hts h)

/-! ## Steps of a chain -/

theorem trailersRule_stop (h : EndsExpr after) : (g.trailersRule t).run after = .ok (t, after) := by
  unfold trailersRule
  refine bind_run rest_run ?_
  cases h <;> simp [startsDot, Token.comma] <;> rfl

theorem trailersRule_call {x : Except Fault (Tree × Tokens)}
    (hc : g.callList.run (.group .paren ts :: after) = .ok (c, after))
    (h : (g.trailers (.node .callExpr [t, c])).run after = x) :
    (g.trailersRule t).run (.group .paren ts :: after) = x := by
  unfold trailersRule
  refine bind_run rest_run ?_
  rw [if_pos (by simp)]
  exact bind_run hc h

theorem member_run (hn : isIdent name = true) : member.run (.ident name :: after) = .ok (Tree.word name, after) := by
  unfold member
  refine bind_run rest_run ?_
  rw [startsIdent_ident, hn, if_pos rfl]
  exact ident_run hn

/-- An identifier behind a dot is no number. -/
theorem dotted_ident (hn : isIdent name = true) :
    (g.dotted t).run (.punct '.' false :: .ident name :: ts) =
      (g.afterDot t).run (.ident name :: ts) := by
  have hl : literal? (.ident name :: ts) = none := by
    rw [literal?, next?_ident]
    simp [ne_of_isIdent hn (w := "true") (by decide), ne_of_isIdent hn (w := "false") (by decide)]
  unfold dotted
  refine bind_run (a := .sign ".") (r := .ident name :: ts) (by simp [sign_run]) ?_
  refine bind_run (a := .ident name :: ts) (r := .ident name :: ts) rfl ?_
  rw [hl]

theorem afterDot_method (hn : isIdent name = true)
    (hc : g.callList.run (.group .paren ts :: after) = .ok (c, after)) :
    (g.afterDot t).run (.ident name :: .group .paren ts :: after) =
      .ok (.node .methodExpr [t, .sign ".", Tree.word name, Tree.none, c], after) := by
  unfold afterDot
  refine bind_run (word?_other (ne_of_isIdent hn (by decide))) (bind_run (member_run hn) ?_)
  refine bind_run seesSign_run ?_
  simp [hc, isAbsent, Tree.none, isNamed, Tree.word]

theorem afterDot_field (hn : isIdent name = true) (hs : startsSign "::" after = false)
    (hp : startsGroup .paren after = false) :
    (g.afterDot t).run (.ident name :: after) =
      .ok (.node .fieldExpr [t, .sign ".", Tree.word name], after) := by
  unfold afterDot
  refine bind_run (word?_other (ne_of_isIdent hn (by decide))) (bind_run (member_run hn) ?_)
  refine bind_run seesSign_run ?_
  simp [hs, hp, isAbsent, Tree.none, isNamed, Tree.word]
  rfl

theorem trailersRule_dot {x : Except Fault (Tree × Tokens)} {e : Tree} (ht : IsOperand t)
    (hn : isIdent name = true) (hd : (g.afterDot t).run (.ident name :: ts) = .ok (e, after))
    (h : (g.trailers e).run after = x) :
    (g.trailersRule t).run (.punct '.' false :: .ident name :: ts) = x := by
  unfold trailersRule
  refine bind_run rest_run ?_
  rw [if_neg (by simp), if_pos (by simp [startsDot, ht.isRange])]
  exact bind_run ((g.dotted_ident hn).trans hd) h

/-! ## Operands and what ends them -/

theorem exprAttributes_run (hs : startsSign "#" ts = false) :
    g.exprAttributes.run ts = .ok ([], ts) :=
  manyWhile_run_of_not (by simp [hs])

@[simp] theorem withAttributes_nil (e : Tree) : withAttributes [] e = e := by
  rw [withAttributes]

/-- Without a mark in front of it, an expression has no unary operator. -/
theorem unaryRule_plain {e : Tree} (hh : startsHidden ts = false)
    (hs : ∀ s ∈ ["#", "&", "*", "!", "-"], startsSign s ts = false)
    (ha : (g.atom braces).run ts = .ok (t, after))
    (h : (g.trailers t).run after = .ok (e, r)) : (g.unaryRule braces).run ts = .ok (e, r) := by
  unfold unaryRule
  refine bind_run (g.exprAttributes_run (hs _ (by simp))) (bind_run rest_run ?_)
  rw [if_neg (by simp [hh]), if_neg (by simp [hs])]
  simp [hs, ha, h]

theorem unaryRule_run {e : Tree} (h : StartsAtom ts)
    (ha : (g.atom braces).run ts = .ok (t, after))
    (ht : (g.trailers t).run after = .ok (e, r)) : (g.unaryRule braces).run ts = .ok (e, r) := by
  refine g.unaryRule_plain ?_ ?_ ha ht
  all_goals rcases h with (_ | _) | _ | _ <;> simp

theorem unaryRule_borrow (hs : StartsAtom ts) (hr : startsWord "raw" ts = false)
    (h : (g.unary braces).run ts = .ok (t, after)) :
    (g.unaryRule braces).run (.punct '&' false :: ts) =
      .ok (.node .referenceExpr [.sign "&", Tree.none, t], after) := by
  have hm : (word? "mut").run ts = .ok (none, ts) := by
    rcases hs with (hw | _) | _ | _
    · exact word?_other (ne_of_isPathWord hw (by decide))
    all_goals simp
  unfold unaryRule
  refine bind_run (g.exprAttributes_run (by simp)) (bind_run rest_run ?_)
  rw [if_neg (by simp), if_pos (by simp)]
  refine bind_run (a := .sign "&") (r := ts) (by simp [sign_run]) (bind_run rest_run ?_)
  dsimp only
  rw [hr, Bool.false_and, if_neg (by simp)]
  refine bind_run hm (bind_run h ?_)
  simp
  rfl

theorem operatorsRule_stop {level : Nat} (ht : isRange t = false) (h : EndsExpr after) :
    (g.operatorsRule t braces level).run after = .ok (t, after) := by
  unfold operatorsRule
  rw [if_neg (by simp [ht])]
  refine bind_run rest_run ?_
  cases h with
  | nil =>
    have hb : binaryOperator? [] = none := by decide
    simp [hb, startsAssignment]
    rfl
  | comma => simp [binaryOperator?, binaryOperators, startsAssignment, Token.comma]; rfl

theorem exprRule_run
    (hu : (g.unary braces).run ts = .ok (t, after))
    (ho : (g.operators t braces Level.lowest).run after = .ok (t, after)) :
    (g.exprRule braces).run ts = .ok (t, after) := bind_run hu ho

/-! ## Closures -/

theorem namePattern_run (hn : isIdent name = true) (after : Tokens) (hs : startsSign "@" after = false) :
    g.namePattern.run (.ident name :: after) =
      .ok (.node .namePattern [Tree.none, Tree.none, Tree.word name], after) := by
  unfold namePattern
  refine bind_run (word?_other (ne_of_isIdent hn (by decide))) ?_
  refine bind_run (word?_other (ne_of_isIdent hn (by decide))) ?_
  refine bind_run seesWord_run ?_
  rw [startsWord_ident, ne_of_isIdent hn (by decide)]
  refine bind_run (ident_run hn) ?_
  have ha : afterSign "@" after = none := by simpa [startsSign] using hs
  refine bind_run (a := none) (r := after) (by rw [sign?_run, ha]) ?_
  rfl

theorem patternRule_name (hn : isIdent name = true) {m : Char} (hm : m = '|' ∨ m = ':')
    (ts : Tokens) :
    g.patternRule.run (.ident name :: .punct m false :: ts) =
      .ok (.node .namePattern [Tree.none, Tree.none, Tree.word name], .punct m false :: ts) := by
  have hp := g.namePattern_run hn (.punct m false :: ts)
    (by rcases hm with rfl | rfl <;> simp)
  unfold patternRule
  refine bind_run rest_run ?_
  rcases hm with rfl | rfl
  all_goals
    simp (disch := decide) [ne_of_isIdent hn, hn]
    exact hp

/-- A closure of one parameter. -/
def closureOf (t e : Tree) : Tree :=
  .node .closureExpr [Tree.none, Tree.none, Tree.none, Tree.none, Tree.none,
    .node .parameters [.sign "|", t, .sign "|"], Tree.none, e]

theorem closure_run (hs : StartsAtom ts)
    (hp : ∀ ts, g.pattern.run (.ident name :: .punct '|' false :: ts) =
      .ok (t, .punct '|' false :: ts))
    {e : Tree} (he : (g.expr braces).run ts = .ok (e, after)) :
    (g.closure braces).run (.punct '|' false :: .ident name :: .punct '|' false :: ts) =
      .ok (closureOf t e, after) := by
  unfold closure
  have harrow : (sign? "->").run ts = .ok (none, ts) := by
    rcases hs with (hw | _) | _ | _ <;> simp [sign?_run]
  refine bind_run seesWord_run ?_
  rw [startsWord_punct]
  refine bind_run (a := Tree.none) rfl ?_
  refine bind_run word?_punct (bind_run word?_punct (bind_run word?_punct (bind_run word?_punct ?_)))
  refine bind_run (a := .sign "|") (r := .ident name :: .punct '|' false :: ts) (by simp [sign_run]) ?_
  refine bind_run (a := [t]) (r := .punct '|' false :: ts) ?_ ?_
  · unfold untilSign
    refine iterate_stop (bind_run seesSign_run ?_)
    rw [if_neg (by simp)]
    refine bind_run (a := t) (r := .punct '|' false :: ts) ?_ ?_
    · unfold closureParameter
      refine bind_run (manyWhile_run_of_not (by simp)) (bind_run (hp ts) ?_)
      refine bind_run seesSign_run ?_
      rw [if_neg (by simp)]
      rfl
    · refine bind_run seesSign_run ?_
      rw [if_pos (by simp)]
      rfl
  refine bind_run (a := .sign "|") (r := ts) (by simp [sign_run]) (bind_run harrow ?_)
  refine bind_run he ?_
  rfl

theorem atom_closure {x : Except Fault (Tree × Tokens)}
    (h : (g.closure braces).run (.punct '|' false :: ts) = x) :
    (g.atom braces).run (.punct '|' false :: ts) = x := by
  unfold atom
  refine bind_run rest_run ?_
  simp [startsAsyncBlock, startsClosure, h]

/-! ## Functions of a trait for a type -/

/-- The end of a path into a type, with the name it leads to. -/
def behindTrait (name : String) (after : Tokens) : Tokens :=
  .punct '>' false :: .punct ':' true :: .punct ':' false :: .ident name :: after

theorem qualifiedPath_as {p : PlainPath} {type : Tree}
    (ht : g.fullType.run ts = .ok (type, .ident "as" :: (p.tokens ++ behindTrait name after)))
    (hp : p.Valid) (hn : isIdent name = true) (ha : EndsPath after) :
    (g.qualifiedPath true).run (.punct '<' false :: ts) =
      .ok (.node .qualified [.sign "<", type, Tree.word "as", p.tree, .sign ">", .sign "::",
        PlainPath.segment name], after) := by
  have hpath : (g.path false).run (p.tokens ++ behindTrait name after) =
      .ok (p.tree, behindTrait name after) :=
    g.path_run false hp (by simp [behindTrait]) (by simp [behindTrait])
  have hseg : (g.segment true).run (.ident name :: after) = .ok (PlainPath.segment name, after) :=
    g.segment_run true (by simp [isSegment, hn]) ha.angle (by simp [ha.separator])
  have hend : afterSign "::" after = none := by simpa [startsSign] using ha.separator
  unfold qualifiedPath
  refine bind_run (a := some (.sign "<")) (r := ts) (by simp [sign?_run]) (bind_run ht ?_)
  refine bind_run word?_self (bind_run hpath ?_)
  refine bind_run (a := [Tree.word "as", p.tree]) (r := behindTrait name after) rfl ?_
  refine bind_run (a := .sign ">") (r := (behindTrait name after).tail)
    (by simp [sign_run, behindTrait]) ?_
  refine bind_run (a := .sign "::") (r := .ident name :: after) (by simp [sign_run, behindTrait]) ?_
  refine bind_run hseg (bind_run (a := []) (r := after) ?_ rfl)
  refine iterate_stop (bind_run (a := none) (r := after) ?_ rfl)
  rw [sign?_run, hend]

theorem atom_qualified {ps : List Tree}
    (h : (g.qualifiedPath true).run (.punct '<' false :: ts) = .ok (.node .qualified ps, after))
    (ha : EndsPath after) (hb : (braces && startsGroup .brace after) = false) :
    (g.atom braces).run (.punct '<' false :: ts) =
      .ok (.node .pathExpr [.node .qualified ps], after) := by
  have hp : (g.afterPath (.node .qualified ps) braces).run after =
      .ok (.node .pathExpr [.node .qualified ps], after) := by
    unfold afterPath
    refine bind_run rest_run ?_
    rw [startsBang_of_endsPath ha, hb]
    rfl
  unfold atom
  refine bind_run rest_run ?_
  simp [startsAsyncBlock, startsClosure, startsBinder, startsExprPath, startsPath, h, hp]

end Grammar

end Courier.Code
