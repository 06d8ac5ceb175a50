import Courier.Proofs.Code.Comma

/-!
Paths, bounds and types in front of a comma: what is one on its own is the same one there.
-/
namespace Courier.Code

/-- A parser that needs a token to begin with. -/
def Parser.Starves {α : Type} (p : Parser α) : Prop :=
  ∀ ts, Tokens.next? ts = none → ∀ x, p.run ts ≠ .ok x

/-- The parts of the grammar that may stand in front of a comma. -/
structure Grammar.Before (after : Tokens) (g g' : Grammar) : Prop where
  type : ∀ plus close, Parser.Before after (g.type plus close) (g'.type plus close)
  bound : ∀ capture const, Parser.Before after (g.bound capture const) (g'.bound capture const)
  expr : ∀ braces, Parser.Before after (g.expr braces) (g'.expr braces)
  unary : ∀ braces, Parser.Before after (g.unary braces) (g'.unary braces)
  operators : ∀ left braces level,
    Parser.Before after (g.operators left braces level) (g'.operators left braces level)
  operand : ∀ right braces level,
    Parser.Before after (g.operand right braces level) (g'.operand right braces level)
  trailers : ∀ left, Parser.Before after (g.trailers left) (g'.trailers left)
  pattern : Parser.Before after g.pattern g'.pattern
  branches : Parser.Before after g.branches g'.branches
  bound_starves : ∀ capture const, (g.bound capture const).Starves
  expr_starves : ∀ braces, (g.expr braces).Starves
  unary_starves : ∀ braces, (g.unary braces).Starves

namespace Parser
open Tokens

variable {after : Tokens} {α β : Type} {p p' q q' : Parser α} {f : α → Parser β}

/-! ## Nothing to begin with -/

theorem Starves.bind (h : p.Starves) (f : α → Parser β) : (p >>= f).Starves := by
  intro ts hn x hx
  rw [StateT.run_bind] at hx
  cases hp : p.run ts with
  | error e =>
    rw [hp] at hx
    cases hx
  | ok y => exact h ts hn y hp

theorem Starves.sees {t : Tokens → Bool} {b : Bool} {f : Bool → Parser α}
    (ht : ∀ ts, next? ts = none → t ts = b) (h : (f b).Starves) : (sees t >>= f).Starves := by
  intro ts hn x hx
  change (f (t ts)).run ts = _ at hx
  rw [ht ts hn] at hx
  exact h ts hn x hx

/-- A first step that nothing to begin with does not stop. -/
theorem Starves.of_run {a : α} (hp : ∀ ts, next? ts = none → p.run ts = .ok (a, ts))
    (h : (f a).Starves) : (p >>= f).Starves := by
  intro ts hn x hx
  rw [StateT.run_bind, hp ts hn] at hx
  exact h ts hn x hx

theorem Starves.rest {k : Tokens → Parser α} (h : ∀ ts, next? ts = none → (k ts).Starves) :
    (rest >>= k).Starves :=
  fun ts hn => h ts hn ts hn

theorem Starves.seesWord {w : String} {f : Bool → Parser α} (h : (f false).Starves) :
    (seesWord w >>= f).Starves :=
  .sees (fun _ hn => startsWord_of_none hn) h

theorem Starves.sign? {s : String} {f : Option Tree → Parser α} (hs : s.toList ≠ [])
    (h : (f none).Starves) : (sign? s >>= f).Starves := by
  intro ts hn x hx
  rw [StateT.run_bind, sign?_run, afterSign_of_none hn hs] at hx
  exact h ts hn x hx

theorem Starves.word? {w : String} {f : Option Tree → Parser α} (h : (f none).Starves) :
    (word? w >>= f).Starves := by
  intro ts hn x hx
  have hw : (Parser.word? w).run ts = .ok (none, ts) := by
    simp only [Parser.word?, StateT.run_bind, StateT.run_get, pure_bind, hn]
    rfl
  rw [StateT.run_bind, hw] at hx
  exact h ts hn x hx

theorem throw_starves (e : Fault) : Starves (throw e : Parser α) := by
  intro ts hn x hx
  cases hx

theorem missing_starves (what : String) : Starves (missing what : Parser α) := by
  intro ts hn x hx
  cases hx

theorem sign_starves {s : String} (hs : s.toList ≠ []) : (sign s).Starves := by
  unfold sign
  exact .sign? hs (throw_starves _)

theorem ident_starves : ident.Starves := by
  intro ts hn x hx
  simp only [ident, StateT.run_bind, StateT.run_get, pure_bind, hn] at hx
  exact missing_starves _ ts hn x hx

theorem lifetime_starves : lifetime.Starves := by
  intro ts hn x hx
  simp only [lifetime, StateT.run_bind, StateT.run_get, pure_bind, next?_eq_none.1 hn] at hx
  exact missing_starves _ ts hn x hx

theorem manyWhile_run_of_not {go : Tokens → Bool} {p : Parser Tree} {ts : Tokens}
    (h : go ts = false) : (manyWhile go p).run ts = .ok ([], ts) := by
  simp [manyWhile, iterate, budget, iterate.loop, Parser.sees, h]
  rfl

theorem hidden_starves (h : p.Starves) : (hidden p).Starves := by
  intro ts hn x hx
  simp only [hidden, StateT.run_bind, StateT.run_get, pure_bind] at hx
  split at hx
  · rename_i body r
    have hb : next? body = none := by
      rw [next?_eq_none] at hn ⊢
      rw [openFront, openToken] at hn
      cases ho : openFront body with
      | nil => rfl
      | cons t r =>
        rw [ho] at hn
        cases hn
    rw [all] at hx
    cases hp : p.run body with
    | error e =>
      rw [hp] at hx
      cases hx
    | ok y => exact h body hb y hp
  · exact missing_starves _ ts hn x hx

/-- An end that a comma may be, where what would follow fails without it. -/
theorem Before.end_or {ends : Tokens → Bool} {f f' : Bool → Parser α}
    (he : ∀ ts, ends (ts ++ .comma :: after) = ends ts ∨ ∀ x, (f (ends ts)).run ts ≠ .ok x)
    (h : ∀ b, Before after (f b) (f' b)) : Before after (sees ends >>= f) (sees ends >>= f') := by
  intro ts a r hr
  change (f (ends ts)).run ts = _ at hr
  change (f' (ends (ts ++ .comma :: after))).run _ = _
  rcases he ts with he | he
  · rw [he]
    exact h _ ts a r hr
  · exact absurd hr (he _)

theorem startsSign_mark_comma {s : String} {c : Char} {ts : Tokens} (hs : s.toList = [c])
    (hn : next? ts ≠ none) : startsSign s (ts ++ .comma :: after) = startsSign s ts := by
  rw [startsSign, startsSign, afterSign, afterSign, hs, afterMarks, afterMarks, next?_comma]
  rcases h : next? ts with _ | ⟨_ | ⟨m, joint⟩ | _ | _, r⟩
  case none => exact absurd h hn
  case some.punct =>
    simp only [List.isEmpty_nil, Bool.true_or, Bool.and_true, afterMarks]
    split <;> rfl
  all_goals rfl

end Parser

namespace Grammar
open Code.Parser Tokens

variable {g g' : Grammar} {after : Tokens}

@[simp] theorem startsBound_comma (const : Bool) (ts : Tokens) :
    startsBound const (ts ++ .comma :: after) = startsBound const ts := by
  simp [startsBound]

@[simp] theorem startsBang_comma (ts : Tokens) : startsBang (ts ++ .comma :: after) = startsBang ts := by
  simp [startsBang]

@[simp] theorem pathGoesOn_comma (ts : Tokens) : pathGoesOn (ts ++ .comma :: after) = pathGoesOn ts := by
  simp [pathGoesOn]

@[simp] theorem convention_before : Parser.Before after convention convention := by
  unfold convention
  refine (word?_before _).bind fun o => ?_
  split
  · simp
  refine Before.get fun ts => ?_
  rw [next?_comma]
  rcases next? ts with _ | ⟨_ | _ | _ | _, left⟩
  case some.literal => exact .ite (.set left fun _ => pure_before _) (pure_before _)
  all_goals exact pure_before _

section
variable (hb : g.Below g') (h : Grammar.Before after g g')

/-! ## Parts -/

section
include h

@[gcongr] theorem type_before (plus close : Bool) :
    Parser.Before after (g.type plus close) (g'.type plus close) := h.type plus close

@[gcongr] theorem bound_before (capture const : Bool) :
    Parser.Before after (g.bound capture const) (g'.bound capture const) := h.bound capture const

@[gcongr] theorem fullType_before : Parser.Before after g.fullType g'.fullType := by
  unfold fullType
  gcongr

@[gcongr] theorem tightType_before : Parser.Before after g.tightType g'.tightType := by
  unfold tightType
  gcongr

end

section
include hb

@[gcongr] theorem plainBlock_before : Parser.Before after g.plainBlock g'.plainBlock := by
  unfold plainBlock block
  gcongr
  simp

@[gcongr] theorem constArgument_before :
    Parser.Before after g.constArgument g'.constArgument := by
  unfold constArgument
  gcongr <;> simp

@[gcongr] theorem outerAttribute_before :
    Parser.Before after g.outerAttribute g'.outerAttribute := by
  unfold outerAttribute
  gcongr <;> simp

@[gcongr] theorem outerAttributes_before :
    Parser.Before after g.outerAttributes g'.outerAttributes := by
  unfold outerAttributes
  gcongr
  simp

end

/-! ## Paths -/

theorem genericArgument_ends (ts : Tokens) :
    genericArgument.ends (ts ++ .comma :: after) = genericArgument.ends ts ∨
      next? ts = none ∧ genericArgument.ends ts = false := by
  by_cases hn : next? ts = none
  · exact .inr ⟨hn, by simp [genericArgument.ends, startsSign_of_none hn]⟩
  · left
    rw [genericArgument.ends, genericArgument.ends, startsSign_mark_comma (by simp; rfl) hn,
      startsSign_mark_comma (by simp; rfl) hn]

include h in
/-- The bounds of an associated type: a comma ends them as the end of the tokens does not. -/
theorem constraints_before : Parser.Before after
    (iterate do
      if ← sees genericArgument.ends then return ([], false)
      let b ← g.bound false true
      if ← sees genericArgument.ends then return ([b], false)
      return ([b, ← sign "+"], true))
    (iterate do
      if ← sees genericArgument.ends then return ([], false)
      let b ← g'.bound false true
      if ← sees genericArgument.ends then return ([b], false)
      return ([b, ← sign "+"], true)) := by
  refine iterate_before (Before.end_or (fun ts => (genericArgument_ends ts).imp_right ?_) fun b => ?_)
  · rintro ⟨hn, he⟩
    rw [he]
    exact (h.bound_starves _ _).bind _ ts hn
  refine .ite (pure_before _) ((bound_before h _ _).bind fun b => ?_)
  refine Before.end_or (fun ts => (genericArgument_ends ts).imp_right ?_) fun b => ?_
  · rintro ⟨hn, he⟩
    rw [he]
    exact (sign_starves (by simp)).bind _ ts hn
  · gcongr <;> simp

section
include hb h

@[gcongr] theorem genericArgument_before :
    Parser.Before after g.genericArgument g'.genericArgument := by
  unfold genericArgument
  refine Before.rest (fun ts => ?_) fun ts => ?_
  · simp only [startsLiteral_comma, startsGroup_comma, startsLifetime_comma]
    rw [and_skip_comma _ next?_of_startsLifetime (t := fun ts => !startsSign "+" ts)
      fun ts => by simp]
  refine .ite lifetime_before ?_
  refine .ite (.bind (constArgument_before hb) fun _ => pure_before _) ?_
  refine (fullType_before h).bind fun t => .ite ((sign?_before (by simp)).bind fun o => ?_)
    (pure_before _)
  split
  · refine Before.rest (fun ts => ?_) fun ts => ?_
    · simp
    · dsimp only
      gcongr
      all_goals simp
  refine (sign?_before (by simp)).bind fun o => ?_
  split
  · refine (constraints_before h).bind fun bs => pure_before _
  · simp

@[gcongr] theorem angleArguments_before :
    Parser.Before after g.angleArguments g'.angleArguments := by
  unfold angleArguments
  gcongr <;> simp

@[gcongr] theorem segment_before (inExpr : Bool) :
    Parser.Before after (g.segment inExpr) (g'.segment inExpr) := by
  unfold segment
  dsimp only
  gcongr
  all_goals simp

@[gcongr] theorem pathRest_before (inExpr : Bool) :
    Parser.Before after (g.pathRest inExpr) (g'.pathRest inExpr) := by
  unfold pathRest
  gcongr <;> simp

@[gcongr] theorem path_before (inExpr : Bool) :
    Parser.Before after (g.path inExpr) (g'.path inExpr) := by
  unfold path
  gcongr <;> simp

@[gcongr] theorem qualifiedPath_before (inExpr : Bool) :
    Parser.Before after (g.qualifiedPath inExpr) (g'.qualifiedPath inExpr) := by
  unfold qualifiedPath
  refine (sign?_before (by simp)).bind fun o => ?_
  split
  · gcongr
  dsimp only
  refine (fullType_before h).bind fun t => (word?_before _).bind fun o => ?_
  split <;> repeat' first | gcongr | split
  all_goals simp

end

/-! ## Bounds -/

theorem plusList_before {stop : Tokens → Bool} {p q : Parser Tree}
    (hs : ∀ ts, stop (ts ++ .comma :: after) = stop ts ∨ next? ts = none ∧ stop ts = false)
    (hp : p.Starves) (hpq : Parser.Before after p q) :
    Parser.Before after (plusList stop p) (plusList stop q) := by
  unfold plusList
  refine iterate_before (Before.end_or (fun ts => (hs ts).imp_right ?_) fun b => ?_)
  · rintro ⟨hn, he⟩
    rw [he]
    exact hp.bind _ ts hn
  refine .ite (pure_before _) (hpq.bind fun b => (sign?_before (by simp)).bind fun o => ?_)
  split <;> simp

theorem colonBounds_before {stop : Tokens → Bool} {p q : Parser Tree}
    (hs : ∀ ts, stop (ts ++ .comma :: after) = stop ts ∨ next? ts = none ∧ stop ts = false)
    (hp : p.Starves) (hpq : Parser.Before after p q) :
    Parser.Before after (colonBounds stop p) (colonBounds stop q) := by
  unfold colonBounds
  refine (sign?_before (by simp)).bind fun o => ?_
  split
  · simp
  · exact (plusList_before hs hp hpq).bind fun _ => pure_before _

theorem endsParameter_comma (ts : Tokens) :
    endsParameter (ts ++ .comma :: after) = endsParameter ts ∨
      next? ts = none ∧ endsParameter ts = false := by
  by_cases hn : next? ts = none
  · cases ts with
    | nil => exact .inl rfl
    | cons t ts => exact .inr ⟨hn, by simp [endsParameter, startsSign_of_none hn]⟩
  · left
    cases ts with
    | nil => exact absurd rfl hn
    | cons t ts =>
      simp only [endsParameter, List.any_cons, List.any_nil,
        startsSign_mark_comma (s := ",") (by simp; rfl) hn]
      simp (disch := decide) only [startsSign_comma]
      rfl

section
include hb h

@[gcongr] theorem parameter_before : Parser.Before after g.parameter g'.parameter := by
  unfold parameter
  refine (outerAttributes_before hb).bind fun as => Before.rest (fun ts => ?_) fun ts => ?_
  · simp
  refine .ite ?_ (.ite ?_ (.ite ?_ (missing_before _)))
  · refine lifetime_before.bind fun name => ?_
    exact (colonBounds_before endsParameter_comma lifetime_starves lifetime_before).bind
      fun _ => pure_before _
  · refine anyIdent_before.bind fun name => ?_
    refine (colonBounds_before endsParameter_comma (h.bound_starves _ _)
      (h.bound _ _)).bind fun bs => ?_
    dsimp only
    refine (sign?_before (by simp)).bind fun o => ?_
    split
    · gcongr <;> simp
    · simp
  · refine (word_before _).bind fun _ => ident_before.bind fun _ => (sign_before _).bind fun _ => ?_
    refine (fullType_before h).bind fun _ => ?_
    dsimp only
    refine (sign?_before (by simp)).bind fun o => ?_
    split
    · gcongr <;> simp
    · simp

@[gcongr] theorem binder_before : Parser.Before after g.binder g'.binder := by
  unfold binder
  gcongr <;> simp

end

@[gcongr] theorem resultType_before {p q : Parser Tree} (hpq : Parser.Before after p q) :
    Parser.Before after (resultType p) (resultType q) := by
  unfold resultType
  refine (sign?_before (by simp)).bind fun o => ?_
  split
  · gcongr
    simp
  · simp

section
include hb h

@[gcongr] theorem callArguments_before :
    Parser.Before after g.callArguments g'.callArguments := by
  unfold callArguments
  gcongr
  simp

@[gcongr] theorem traitBound_before (const : Bool) :
    Parser.Before after (g.traitBound const) (g'.traitBound const) := by
  unfold traitBound
  dsimp only
  repeat' first | gcongr | split
  all_goals simp

@[gcongr] theorem boundRule_before (capture const : Bool) :
    Parser.Before after (g.boundRule capture const) (g'.boundRule capture const) := by
  unfold boundRule
  dsimp only
  gcongr
  all_goals simp

omit hb in
@[gcongr] theorem bounds_before (plus capture const : Bool) :
    Parser.Before after (g.bounds plus capture const) (g'.bounds plus capture const) := by
  unfold bounds
  repeat' first | gcongr | split
  all_goals simp

omit hb in
@[gcongr] theorem traitBounds_before (plus capture const : Bool) (complaint : String) :
    Parser.Before after (g.traitBounds plus capture const complaint)
      (g'.traitBounds plus capture const complaint) := by
  unfold traitBounds
  gcongr <;> simp

omit hb in
@[gcongr] theorem objectBounds_before (plus : Bool) :
    Parser.Before after (g.objectBounds plus) (g'.objectBounds plus) := by
  unfold objectBounds
  gcongr

omit hb in
@[gcongr] theorem moreBounds_before : Parser.Before after g.moreBounds g'.moreBounds := by
  unfold moreBounds
  repeat' first | gcongr | split
  all_goals simp

/-! ## Types -/

@[gcongr] theorem functionType_before (lifetimes : Tree) :
    Parser.Before after (g.functionType lifetimes) (g'.functionType lifetimes) := by
  unfold functionType
  dsimp only
  gcongr
  all_goals simp

@[gcongr] theorem groupType_before (close : Bool) :
    Parser.Before after (g.groupType close) (g'.groupType close) := by
  unfold groupType
  dsimp only
  repeat' first | gcongr | split
  all_goals try simp

@[gcongr] theorem parenthesizedType_before (plus : Bool) :
    Parser.Before after (g.parenthesizedType plus) (g'.parenthesizedType plus) := by
  unfold parenthesizedType
  refine Before.get fun ts => ?_
  rw [next?_comma]
  rcases next? ts with _ | ⟨_ | _ | _ | ⟨_ | _ | _ | _, body⟩, left⟩
  case some.group.paren =>
    refine Before.set left fun _ => .ite (pure_before _) (.ite ?_ (.ite ?_ ?_))
    · refine (lift_all_before ?_ _).bind fun _ => pure_before _
      gcongr
    · refine (lift_all_before ?_ _).bind fun b => (moreBounds_before h).bind fun _ => pure_before _
      gcongr
    refine (lift_run_before (fullType_below hb) _).bind fun x => .ite ?_ ?_
    · refine (lift_all_before ?_ _).bind fun _ => pure_before _
      gcongr
    dsimp only
    repeat' first | gcongr | split
    all_goals simp
  all_goals simp

@[gcongr] theorem namedType_before (plus : Bool) (lifetimes : Tree) :
    Parser.Before after (g.namedType plus lifetimes) (g'.namedType plus lifetimes) := by
  unfold namedType
  dsimp only
  repeat' first | gcongr | split
  all_goals try simp

@[gcongr] theorem typeRule_before (plus close : Bool) :
    Parser.Before after (g.typeRule plus close) (g'.typeRule plus close) := by
  unfold typeRule
  dsimp only
  refine (sees_before fun _ => startsHidden_comma).bind fun b => .ite (groupType_before hb h close) ?_
  refine seesWord_before.bind fun b => (when_before b (binder_before hb h)).bind fun lifetimes => ?_
  refine Before.look fun ts => ?_
  refine .ite_congr (by simp) (missing_bind_before _ _ _) ?_
  refine .ite_congr (by simp) (parenthesizedType_before hb h _) ?_
  refine .ite_congr (by simp) (functionType_before hb h _) ?_
  refine .ite_congr (by simp) (namedType_before hb h _ _) ?_
  refine .ite_congr (by simp) ?_ ?_
  · repeat' first | gcongr | split
    all_goals simp
  refine .ite_congr (by simp) ?_ ?_
  · repeat' first | gcongr | split
    all_goals simp
  refine .ite_congr (by simp) ?_ ?_
  · repeat' first | gcongr | split
    all_goals simp
  refine .ite_congr (by simp) ?_ ?_
  · repeat' first | gcongr | split
    all_goals simp
  refine .ite_congr (by simp) (.bind (sign_before _) fun _ => pure_before _) ?_
  refine .ite_congr (by simp) ?_ ?_
  · repeat' first | gcongr | split
    all_goals simp
  refine .ite_congr (by simp) (.bind (word_before _) fun _ => pure_before _) ?_
  refine .ite_congr (by simp) ?_ (fail_before _)
  gcongr
  simp

end

end

/-! ## Bounds need a token -/

section
variable (g : Grammar)

theorem segment_starves (inExpr : Bool) : (g.segment inExpr).Starves := by
  unfold segment
  refine .rest fun ts hn => ?_
  simp only [startsWord_of_none hn, List.any_cons, List.any_nil, Bool.or_self, if_false,
    Bool.false_eq_true]
  exact ident_starves.bind _

theorem path_starves (inExpr : Bool) : (g.path inExpr).Starves := by
  unfold path
  exact .sign? (by simp) ((segment_starves g inExpr).bind _)

theorem traitBound_starves (const : Bool) : (g.traitBound const).Starves := by
  unfold traitBound
  refine .seesWord ?_
  simp only [Parser.when, Bool.false_eq_true, if_false, pure_bind]
  refine .sees (fun ts hn => startsGroup_of_none hn) ?_
  simp only [Bool.false_eq_true, if_false]
  refine .word? (.sign? (by simp) (.seesWord ?_))
  simp only [Bool.and_false, Bool.false_eq_true, if_false, pure_bind]
  exact (path_starves g false).bind _

theorem boundRule_starves (capture const : Bool) : (g.boundRule capture const).Starves := by
  unfold boundRule
  refine .rest fun ts hn => ?_
  simp only [startsLifetime_of_none hn, startsWord_of_none hn, startsGroup_of_none hn, if_false,
    Bool.false_eq_true]
  exact traitBound_starves g const

end

end Grammar

end Courier.Code
