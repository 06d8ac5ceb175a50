import Courier.Code.Grammar
import Mathlib.Tactic.GCongr

/-!
The depth of a grammar. A parser of a deeper grammar reads what the parser reads, unless the nesting
is too deep for it: all that is read at a depth is read alike from there on.
-/
namespace Courier.Code

/-- The second parser does what the first does, unless the nesting is too deep for that one. -/
def Parser.Below {α : Type} (p q : Parser α) : Prop :=
  ∀ ts, p.run ts = .error .tooDeep ∨ q.run ts = p.run ts

/-- The second grammar reads what the first does. -/
structure Grammar.Below (g g' : Grammar) : Prop where
  type : ∀ plus close, (g.type plus close).Below (g'.type plus close)
  bound : ∀ capture const, (g.bound capture const).Below (g'.bound capture const)
  expr : ∀ braces, (g.expr braces).Below (g'.expr braces)
  unary : ∀ braces, (g.unary braces).Below (g'.unary braces)
  operators : ∀ left braces level,
    (g.operators left braces level).Below (g'.operators left braces level)
  operand : ∀ right braces level,
    (g.operand right braces level).Below (g'.operand right braces level)
  trailers : ∀ left, (g.trailers left).Below (g'.trailers left)
  leading : g.leading.Below g'.leading
  pattern : g.pattern.Below g'.pattern
  branches : g.branches.Below g'.branches
  statements : g.statements.Below g'.statements
  item : g.item.Below g'.item
  imports : ∀ root, (g.imports root).Below (g'.imports root)

namespace Parser

variable {α β : Type} {p q r : Parser α} {f f' : α → Parser β}

@[refl] theorem Below.refl (p : Parser α) : p.Below p := fun _ => .inr rfl

theorem Below.trans (h : p.Below q) (h' : q.Below r) : p.Below r := by
  intro ts
  rcases h ts with h | h
  · exact .inl h
  · rw [← h]
    exact h' ts

theorem tooDeep_below (p : Parser α) : Below (throw .tooDeep) p := fun _ => .inl rfl

theorem Below.run_eq_ok (h : p.Below q) {ts left : Tokens} {a : α}
    (hp : p.run ts = .ok (a, left)) : q.run ts = .ok (a, left) := by
  rcases h ts with h | h
  · rw [hp] at h
    cases h
  · rw [h, hp]

/-! ## Composition -/

@[gcongr] theorem Below.bind (h : p.Below q) (hf : ∀ a, (f a).Below (f' a)) :
    Below (p >>= f) (q >>= f') := by
  intro ts
  rw [StateT.run_bind, StateT.run_bind]
  rcases h ts with h | h
  · rw [h]
    exact .inl rfl
  · rw [h]
    cases p.run ts with
    | error e => exact .inr rfl
    | ok x => exact hf x.1 x.2

@[gcongr] theorem Below.ite {b : Prop} [Decidable b] {p' q' : Parser α} (h : p.Below q)
    (h' : p'.Below q') : Below (if b then p else p') (if b then q else q') := by
  split
  · exact h
  · exact h'

theorem Below.run_all (h : p.Below q) (ts : Tokens) :
    all p ts = .error .tooDeep ∨ all q ts = all p ts := by
  unfold all
  rcases h ts with h | h
  · rw [h]
    exact .inl rfl
  · rw [h]
    exact .inr rfl

theorem Below.all_eq_ok (h : p.Below q) {ts : Tokens} {a : α} (hp : all p ts = .ok a) :
    all q ts = .ok a := by
  rcases h.run_all ts with h | h
  · rw [hp] at h
    cases h
  · rw [h, hp]

theorem lift_below {x y : Except Fault α} (h : x = .error .tooDeep ∨ y = x) :
    Below (liftM x : Parser α) (liftM y) := by
  rcases h with rfl | rfl
  · exact tooDeep_below _
  · rfl

theorem Below.lift_run (h : p.Below q) (ts : Tokens) :
    Below (liftM (p.run ts) : Parser (α × Tokens)) (liftM (q.run ts)) :=
  lift_below (h ts)

theorem Below.lift_all (h : p.Below q) (ts : Tokens) :
    Below (liftM (Parser.all p ts) : Parser α) (liftM (Parser.all q ts)) :=
  lift_below (h.run_all ts)

@[gcongr] theorem group_below (d : Delimiter) (h : p.Below q) : (group d p).Below (group d q) := by
  unfold group
  gcongr
  split
  · gcongr
    exact h.lift_all _
  · rfl

@[gcongr] theorem grouped_below {p q : Parser (List Tree)} (d : Delimiter) (h : p.Below q) :
    (grouped d p).Below (grouped d q) := by
  unfold grouped
  gcongr

@[gcongr] theorem hidden_below (h : p.Below q) : (hidden p).Below (hidden q) := by
  unfold hidden
  gcongr
  split
  · gcongr
    exact h.lift_all _
  · rfl

@[gcongr] theorem when_below {p q : Parser Tree} (b : Bool) (h : p.Below q) :
    (when b p).Below (when b q) := by
  unfold when
  gcongr

@[gcongr] theorem attempt_below (h : p.Below q) : (attempt p).Below (attempt q) := by
  unfold attempt
  gcongr with ts
  rcases h ts with h | h
  · rw [h]
    exact tooDeep_below _
  · rw [h]

theorem loop_below {p q : Parser (List Tree × Bool)} (h : p.Below q) (n : Nat) :
    (iterate.loop p n).Below (iterate.loop q n) := by
  induction n with
  | zero => rfl
  | succ n ih =>
    unfold iterate.loop
    gcongr
    split
    gcongr

@[gcongr] theorem iterate_below {p q : Parser (List Tree × Bool)} (h : p.Below q) :
    (iterate p).Below (iterate q) := by
  unfold iterate
  gcongr
  exact loop_below h _

variable {p q : Parser Tree}

@[gcongr] theorem separated_below (sep : String) (h : p.Below q) :
    (separated sep p).Below (separated sep q) := by
  unfold separated
  gcongr

@[gcongr] theorem many_below (h : p.Below q) : (many p).Below (many q) := by
  unfold many
  gcongr

@[gcongr] theorem untilSign_below (close sep : String) (h : p.Below q) :
    (untilSign close sep p).Below (untilSign close sep q) := by
  unfold untilSign
  gcongr

@[gcongr] theorem manyWhile_below (go : Tokens → Bool) (h : p.Below q) :
    (manyWhile go p).Below (manyWhile go q) := by
  unfold manyWhile
  gcongr

end Parser

namespace Grammar

variable {g g' : Grammar}

/-! ## The recursive parts -/

@[gcongr] theorem type_below (h : g.Below g') (plus close : Bool) :
    (g.type plus close).Below (g'.type plus close) := h.type plus close

@[gcongr] theorem bound_below (h : g.Below g') (capture const : Bool) :
    (g.bound capture const).Below (g'.bound capture const) := h.bound capture const

@[gcongr] theorem expr_below (h : g.Below g') (braces : Bool) :
    (g.expr braces).Below (g'.expr braces) := h.expr braces

@[gcongr] theorem unary_below (h : g.Below g') (braces : Bool) :
    (g.unary braces).Below (g'.unary braces) := h.unary braces

@[gcongr] theorem operators_below (h : g.Below g') (left : Tree) (braces : Bool) (level : Nat) :
    (g.operators left braces level).Below
      (g'.operators left braces level) := h.operators left braces level

@[gcongr] theorem operand_below (h : g.Below g') (right : Tree) (braces : Bool) (level : Nat) :
    (g.operand right braces level).Below
      (g'.operand right braces level) := h.operand right braces level

@[gcongr] theorem trailers_below (h : g.Below g') (left : Tree) :
    (g.trailers left).Below (g'.trailers left) := h.trailers left

@[gcongr] theorem leading_below (h : g.Below g') : g.leading.Below g'.leading := h.leading

@[gcongr] theorem pattern_below (h : g.Below g') : g.pattern.Below g'.pattern := h.pattern

@[gcongr] theorem branches_below (h : g.Below g') : g.branches.Below g'.branches := h.branches

@[gcongr] theorem statements_below
    (h : g.Below g') : g.statements.Below g'.statements := h.statements

@[gcongr] theorem item_below (h : g.Below g') : g.item.Below g'.item := h.item

@[gcongr] theorem imports_below (h : g.Below g') (root : Bool) :
    (g.imports root).Below (g'.imports root) := h.imports root

/-! ## Paths and attributes -/

@[gcongr] theorem fullType_below (h : g.Below g') : g.fullType.Below g'.fullType := by
  unfold fullType
  gcongr

@[gcongr] theorem tightType_below (h : g.Below g') : g.tightType.Below g'.tightType := by
  unfold tightType
  gcongr

@[gcongr] theorem fullExpr_below (h : g.Below g') : g.fullExpr.Below g'.fullExpr := by
  unfold fullExpr
  gcongr

@[gcongr] theorem block_below (h : g.Below g') {p q : Parser (List Tree)} (hp : p.Below q) :
    (g.block p).Below (g'.block q) := by
  unfold block
  gcongr

@[gcongr] theorem plainBlock_below (h : g.Below g') : g.plainBlock.Below g'.plainBlock := by
  unfold plainBlock
  gcongr

@[gcongr] theorem constArgument_below
    (h : g.Below g') : g.constArgument.Below g'.constArgument := by
  unfold constArgument
  gcongr

@[gcongr] theorem attributeValue_below (h : g.Below g') :
    g.attributeValue.Below g'.attributeValue := by
  unfold attributeValue
  dsimp only
  gcongr
  split <;> gcongr

@[gcongr] theorem metaAfter_below (h : g.Below g') (path : Tree) :
    (g.metaAfter path).Below (g'.metaAfter path) := by
  unfold metaAfter
  gcongr
  split <;> gcongr

@[gcongr] theorem attributeContent_below (h : g.Below g') :
    g.attributeContent.Below g'.attributeContent := by
  unfold attributeContent
  gcongr
  split <;> gcongr

@[gcongr] theorem outerAttribute_below (h : g.Below g') :
    g.outerAttribute.Below g'.outerAttribute := by
  unfold outerAttribute
  gcongr

@[gcongr] theorem outerAttributes_below (h : g.Below g') :
    g.outerAttributes.Below g'.outerAttributes := by
  unfold outerAttributes
  gcongr

@[gcongr] theorem innerAttribute_below (h : g.Below g') :
    g.innerAttribute.Below g'.innerAttribute := by
  unfold innerAttribute
  gcongr

@[gcongr] theorem innerAttributes_below (h : g.Below g') :
    g.innerAttributes.Below g'.innerAttributes := by
  unfold innerAttributes
  gcongr

@[gcongr] theorem fullBlock_below (h : g.Below g') : g.fullBlock.Below g'.fullBlock := by
  unfold fullBlock
  gcongr

@[gcongr] theorem genericArgument_below (h : g.Below g') :
    g.genericArgument.Below g'.genericArgument := by
  unfold genericArgument
  dsimp only
  repeat' first | gcongr | split

@[gcongr] theorem angleArguments_below (h : g.Below g') :
    g.angleArguments.Below g'.angleArguments := by
  unfold angleArguments
  gcongr

@[gcongr] theorem segment_below (h : g.Below g') (inExpr : Bool) :
    (g.segment inExpr).Below (g'.segment inExpr) := by
  unfold segment
  dsimp only
  gcongr

@[gcongr] theorem pathRest_below (h : g.Below g') (inExpr : Bool) :
    (g.pathRest inExpr).Below (g'.pathRest inExpr) := by
  unfold pathRest
  gcongr

@[gcongr] theorem path_below (h : g.Below g') (inExpr : Bool) :
    (g.path inExpr).Below (g'.path inExpr) := by
  unfold path
  gcongr

@[gcongr] theorem qualifiedPath_below (h : g.Below g') (inExpr : Bool) :
    (g.qualifiedPath inExpr).Below (g'.qualifiedPath inExpr) := by
  unfold qualifiedPath
  dsimp only
  repeat' first | gcongr | split

/-! ## Types -/

section
variable {p q : Parser Tree}

@[gcongr] theorem plusList_below (stop : Tokens → Bool) (h : p.Below q) :
    (plusList stop p).Below (plusList stop q) := by
  unfold plusList
  gcongr

@[gcongr] theorem colonBounds_below (stop : Tokens → Bool) (h : p.Below q) :
    (colonBounds stop p).Below (colonBounds stop q) := by
  unfold colonBounds
  gcongr
  split <;> gcongr

@[gcongr] theorem resultType_below (h : p.Below q) : (resultType p).Below (resultType q) := by
  unfold resultType
  gcongr
  split <;> gcongr

end

@[gcongr] theorem parameter_below (h : g.Below g') : g.parameter.Below g'.parameter := by
  unfold parameter
  dsimp only
  repeat' first | gcongr | split

@[gcongr] theorem parameters_below (h : g.Below g') : g.parameters.Below g'.parameters := by
  unfold parameters
  gcongr
  split <;> gcongr

@[gcongr] theorem binder_below (h : g.Below g') : g.binder.Below g'.binder := by
  unfold binder
  gcongr

@[gcongr] theorem callArguments_below
    (h : g.Below g') : g.callArguments.Below g'.callArguments := by
  unfold callArguments
  gcongr

@[gcongr] theorem traitBound_below (h : g.Below g') (const : Bool) :
    (g.traitBound const).Below (g'.traitBound const) := by
  unfold traitBound
  dsimp only
  gcongr
  split <;> gcongr

@[gcongr] theorem boundRule_below (h : g.Below g') (capture const : Bool) :
    (g.boundRule capture const).Below (g'.boundRule capture const) := by
  unfold boundRule
  gcongr

@[gcongr] theorem bounds_below (h : g.Below g') (plus capture const : Bool) :
    (g.bounds plus capture const).Below (g'.bounds plus capture const) := by
  unfold bounds
  gcongr

@[gcongr] theorem traitBounds_below (h : g.Below g') (plus capture const : Bool)
    (complaint : String) :
    (g.traitBounds plus capture const complaint).Below
      (g'.traitBounds plus capture const complaint) := by
  unfold traitBounds
  gcongr

@[gcongr] theorem objectBounds_below (h : g.Below g') (plus : Bool) :
    (g.objectBounds plus).Below (g'.objectBounds plus) := by
  unfold objectBounds
  gcongr

@[gcongr] theorem moreBounds_below (h : g.Below g') : g.moreBounds.Below g'.moreBounds := by
  unfold moreBounds
  gcongr
  split <;> gcongr

@[gcongr] theorem functionArgument_below (h : g.Below g') (self : Bool) :
    (g.functionArgument self).Below (g'.functionArgument self) := by
  unfold functionArgument
  dsimp only
  gcongr

@[gcongr] theorem functionArgumentOrDots_below (h : g.Below g') (self : Bool) :
    (g.functionArgumentOrDots self).Below (g'.functionArgumentOrDots self) := by
  unfold functionArgumentOrDots
  dsimp only
  gcongr

@[gcongr] theorem functionArguments_below (h : g.Below g') :
    g.functionArguments.Below g'.functionArguments := by
  unfold functionArguments
  gcongr
  split
  gcongr

@[gcongr] theorem functionType_below (h : g.Below g') (lifetimes : Tree) :
    (g.functionType lifetimes).Below (g'.functionType lifetimes) := by
  unfold functionType
  dsimp only
  gcongr

@[gcongr] theorem groupType_below (h : g.Below g') (close : Bool) :
    (g.groupType close).Below (g'.groupType close) := by
  unfold groupType
  dsimp only
  repeat' first | gcongr | split

@[gcongr] theorem parenthesizedType_below (h : g.Below g') (plus : Bool) :
    (g.parenthesizedType plus).Below (g'.parenthesizedType plus) := by
  unfold parenthesizedType
  dsimp only
  repeat' first | gcongr | split
  -- the contents of the group are read on their own
  all_goals first | refine Parser.Below.lift_run ?_ _ | refine Parser.Below.lift_all ?_ _
  all_goals gcongr

@[gcongr] theorem namedType_below (h : g.Below g') (plus : Bool) (lifetimes : Tree) :
    (g.namedType plus lifetimes).Below (g'.namedType plus lifetimes) := by
  unfold namedType
  dsimp only
  gcongr
  split <;> gcongr

@[gcongr] theorem typeRule_below (h : g.Below g') (plus close : Bool) :
    (g.typeRule plus close).Below (g'.typeRule plus close) := by
  unfold typeRule
  dsimp only
  repeat' first | gcongr | split

@[gcongr] theorem predicate_below (h : g.Below g') : g.predicate.Below g'.predicate := by
  unfold predicate
  gcongr

@[gcongr] theorem whereClause_below (h : g.Below g') : g.whereClause.Below g'.whereClause := by
  unfold whereClause
  gcongr
  split <;> gcongr

/-! ## Patterns -/

@[gcongr] theorem alternatives_below (h : g.Below g') : g.alternatives.Below g'.alternatives := by
  unfold alternatives
  gcongr

@[gcongr] theorem rangeBound_below (h : g.Below g') : g.rangeBound.Below g'.rangeBound := by
  unfold rangeBound
  gcongr

@[gcongr] theorem rangeFrom_below (h : g.Below g') (start : Tree) :
    (g.rangeFrom start).Below (g'.rangeFrom start) := by
  unfold rangeFrom
  gcongr

@[gcongr] theorem fieldPattern_below (h : g.Below g') : g.fieldPattern.Below g'.fieldPattern := by
  unfold fieldPattern
  dsimp only
  gcongr
  split <;> gcongr

@[gcongr] theorem pathPattern_below (h : g.Below g') : g.pathPattern.Below g'.pathPattern := by
  unfold pathPattern
  gcongr

@[gcongr] theorem namePattern_below (h : g.Below g') : g.namePattern.Below g'.namePattern := by
  unfold namePattern
  dsimp only
  repeat' first | gcongr | split

@[gcongr] theorem parenthesizedPattern_below (h : g.Below g') :
    g.parenthesizedPattern.Below g'.parenthesizedPattern := by
  unfold parenthesizedPattern
  gcongr

@[gcongr] theorem sliceElement_below (h : g.Below g') : g.sliceElement.Below g'.sliceElement := by
  unfold sliceElement
  gcongr

@[gcongr] theorem patternRule_below (h : g.Below g') : g.patternRule.Below g'.patternRule := by
  unfold patternRule
  dsimp only
  gcongr

/-! ## Operators -/

@[gcongr] theorem operandRule_below (h : g.Below g') (right : Tree) (braces : Bool) (level : Nat) :
    (g.operandRule right braces level).Below (g'.operandRule right braces level) := by
  unfold operandRule
  dsimp only
  gcongr

@[gcongr] theorem operandAt_below (h : g.Below g') (braces : Bool) (level : Nat) :
    (g.operandAt braces level).Below (g'.operandAt braces level) := by
  unfold operandAt
  gcongr

@[gcongr] theorem rangeEnd_below (h : g.Below g') (mark : Tree) (braces : Bool) :
    (g.rangeEnd mark braces).Below (g'.rangeEnd mark braces) := by
  unfold rangeEnd
  gcongr

@[gcongr] theorem operatorsRule_below (h : g.Below g') (left : Tree) (braces : Bool) (level : Nat) :
    (g.operatorsRule left braces level).Below (g'.operatorsRule left braces level) := by
  unfold operatorsRule
  dsimp only
  gcongr
  split <;> gcongr

@[gcongr] theorem exprRule_below (h : g.Below g') (braces : Bool) :
    (g.exprRule braces).Below (g'.exprRule braces) := by
  unfold exprRule
  gcongr

@[gcongr] theorem callList_below (h : g.Below g') : g.callList.Below g'.callList := by
  unfold callList
  gcongr

@[gcongr] theorem afterDot_below (h : g.Below g') (e : Tree) :
    (g.afterDot e).Below (g'.afterDot e) := by
  unfold afterDot
  dsimp only
  gcongr
  split <;> gcongr

@[gcongr] theorem dotted_below (h : g.Below g') (e : Tree) : (g.dotted e).Below (g'.dotted e) := by
  unfold dotted
  gcongr
  split <;> gcongr

@[gcongr] theorem trailersRule_below (h : g.Below g') (e : Tree) :
    (g.trailersRule e).Below (g'.trailersRule e) := by
  unfold trailersRule
  gcongr

/-! ## Expressions -/

@[gcongr] theorem fieldValue_below (h : g.Below g') : g.fieldValue.Below g'.fieldValue := by
  unfold fieldValue
  dsimp only
  gcongr

@[gcongr] theorem fieldValues_below (h : g.Below g') : g.fieldValues.Below g'.fieldValues := by
  unfold fieldValues
  gcongr
  split <;> gcongr

@[gcongr] theorem afterPath_below (h : g.Below g') (path : Tree) (braces : Bool) :
    (g.afterPath path braces).Below (g'.afterPath path braces) := by
  unfold afterPath
  gcongr

@[gcongr] theorem groupExpr_below (h : g.Below g') (braces : Bool) :
    (g.groupExpr braces).Below (g'.groupExpr braces) := by
  unfold groupExpr
  gcongr
  split <;> gcongr

@[gcongr] theorem closureParameter_below (h : g.Below g') :
    g.closureParameter.Below g'.closureParameter := by
  unfold closureParameter
  gcongr

@[gcongr] theorem closure_below (h : g.Below g') (braces : Bool) :
    (g.closure braces).Below (g'.closure braces) := by
  unfold closure
  dsimp only
  gcongr
  split <;> gcongr

@[gcongr] theorem parenthesizedExpr_below (h : g.Below g') :
    g.parenthesizedExpr.Below g'.parenthesizedExpr := by
  unfold parenthesizedExpr
  gcongr

@[gcongr] theorem array_below (h : g.Below g') : g.array.Below g'.array := by
  unfold array
  dsimp only
  repeat' first | gcongr | split
  -- the contents of the group are read on their own
  all_goals first | refine Parser.Below.lift_run ?_ _ | refine Parser.Below.lift_all ?_ _
  all_goals gcongr

@[gcongr] theorem letExpr_below (h : g.Below g') (braces : Bool) :
    (g.letExpr braces).Below (g'.letExpr braces) := by
  unfold letExpr
  gcongr

@[gcongr] theorem branchesRule_below (h : g.Below g') : g.branchesRule.Below g'.branchesRule := by
  unfold branchesRule
  gcongr
  split <;> gcongr

@[gcongr] theorem arm_below (h : g.Below g') {p q : Parser Tree} (hp : p.Below q) :
    (g.arm p).Below (g'.arm q) := by
  unfold arm
  dsimp only
  gcongr

@[gcongr] theorem labelled_below (h : g.Below g') (label : Tree) :
    (g.labelled label).Below (g'.labelled label) := by
  unfold labelled
  gcongr

@[gcongr] theorem choice_below (h : g.Below g') : g.choice.Below g'.choice := by
  unfold choice
  gcongr

@[gcongr] theorem blockLike_below (h : g.Below g') : g.blockLike.Below g'.blockLike := by
  unfold blockLike
  gcongr

@[gcongr] theorem jumpValue_below (h : g.Below g') (go : Bool) :
    (g.jumpValue go).Below (g'.jumpValue go) := by
  unfold jumpValue
  gcongr

@[gcongr] theorem breakExpr_below (h : g.Below g') (braces : Bool) :
    (g.breakExpr braces).Below (g'.breakExpr braces) := by
  unfold breakExpr
  dsimp only
  gcongr

@[gcongr] theorem atom_below (h : g.Below g') (braces : Bool) :
    (g.atom braces).Below (g'.atom braces) := by
  unfold atom
  dsimp only
  gcongr

@[gcongr] theorem exprAttributes_below (h : g.Below g') :
    g.exprAttributes.Below g'.exprAttributes := by
  unfold exprAttributes
  gcongr

@[gcongr] theorem unaryRule_below (h : g.Below g') (braces : Bool) :
    (g.unaryRule braces).Below (g'.unaryRule braces) := by
  unfold unaryRule
  dsimp only
  gcongr
  split <;> gcongr

@[gcongr] theorem leadingRule_below (h : g.Below g') : g.leadingRule.Below g'.leadingRule := by
  unfold leadingRule
  dsimp only
  gcongr

/-! ## Items -/

@[gcongr] theorem receiver_below (h : g.Below g') : g.receiver.Below g'.receiver := by
  unfold receiver
  dsimp only
  gcongr

@[gcongr] theorem input_below (h : g.Below g') (first : Bool) :
    (g.input first).Below (g'.input first) := by
  unfold input
  dsimp only
  repeat' first | gcongr | split

@[gcongr] theorem inputs_below (h : g.Below g') : g.inputs.Below g'.inputs := by
  unfold inputs
  gcongr
  split
  gcongr

@[gcongr] theorem signature_below (h : g.Below g') (safe : Bool) :
    (g.signature safe).Below (g'.signature safe) := by
  unfold signature
  dsimp only
  gcongr

@[gcongr] theorem functionRest_below (h : g.Below g') (attributes visibility modifier : Tree)
    (safe : Bool) :
    (g.functionRest attributes visibility modifier safe).Below
      (g'.functionRest attributes visibility modifier safe) := by
  unfold functionRest
  dsimp only
  gcongr
  split <;> gcongr

@[gcongr] theorem constRest_below (h : g.Below g') (attributes visibility modifier : Tree) :
    (g.constRest attributes visibility modifier).Below
      (g'.constRest attributes visibility modifier) := by
  unfold constRest
  dsimp only
  gcongr
  split <;> gcongr

@[gcongr] theorem boundList_below (h : g.Below g') (ends : Tokens → Bool) :
    (typeRest.boundList g ends).Below (typeRest.boundList g' ends) := by
  unfold typeRest.boundList
  gcongr

@[gcongr] theorem typeRest_below (h : g.Below g') (attributes visibility modifier : Tree)
    (before after : Bool) :
    (g.typeRest attributes visibility modifier before after).Below
      (g'.typeRest attributes visibility modifier before after) := by
  unfold typeRest
  dsimp only
  repeat' first | gcongr | split

@[gcongr] theorem namedField_below (h : g.Below g') : g.namedField.Below g'.namedField := by
  unfold namedField
  dsimp only
  gcongr

@[gcongr] theorem plainField_below (h : g.Below g') : g.plainField.Below g'.plainField := by
  unfold plainField
  dsimp only
  gcongr

@[gcongr] theorem namedFields_below (h : g.Below g') : g.namedFields.Below g'.namedFields := by
  unfold namedFields
  gcongr

@[gcongr] theorem plainFields_below (h : g.Below g') : g.plainFields.Below g'.plainFields := by
  unfold plainFields
  gcongr

@[gcongr] theorem structRest_below (h : g.Below g') (attributes visibility : Tree) :
    (g.structRest attributes visibility).Below (g'.structRest attributes visibility) := by
  unfold structRest
  dsimp only
  gcongr

@[gcongr] theorem variant_below (h : g.Below g') : g.variant.Below g'.variant := by
  unfold variant
  dsimp only
  repeat' first | gcongr | split

@[gcongr] theorem enumRest_below (h : g.Below g') (attributes visibility : Tree) :
    (g.enumRest attributes visibility).Below (g'.enumRest attributes visibility) := by
  unfold enumRest
  gcongr

@[gcongr] theorem unionRest_below (h : g.Below g') (attributes visibility : Tree) :
    (g.unionRest attributes visibility).Below (g'.unionRest attributes visibility) := by
  unfold unionRest
  gcongr

@[gcongr] theorem traitMember_below (h : g.Below g') : g.traitMember.Below g'.traitMember := by
  unfold traitMember
  dsimp only
  gcongr

@[gcongr] theorem members_below (h : g.Below g') {p q : Parser Tree} (hp : p.Below q) :
    (g.members p).Below (g'.members q) := by
  unfold members
  gcongr

@[gcongr] theorem superBounds_below (h : g.Below g') (ends : Tokens → Bool) :
    (g.superBounds ends).Below (g'.superBounds ends) := by
  unfold superBounds
  gcongr

@[gcongr] theorem traitRest_below (h : g.Below g') (attributes visibility : Tree) :
    (g.traitRest attributes visibility).Below (g'.traitRest attributes visibility) := by
  unfold traitRest
  dsimp only
  gcongr
  split <;> gcongr

@[gcongr] theorem implMember_below (h : g.Below g') : g.implMember.Below g'.implMember := by
  unfold implMember
  dsimp only
  gcongr

@[gcongr] theorem implRest_below (h : g.Below g') (attributes : Tree) :
    (g.implRest attributes).Below (g'.implRest attributes) := by
  unfold implRest
  dsimp only
  repeat' first | gcongr | split

@[gcongr] theorem moduleRest_below (h : g.Below g') (attributes visibility : Tree) :
    (g.moduleRest attributes visibility).Below (g'.moduleRest attributes visibility) := by
  unfold moduleRest
  dsimp only
  gcongr
  split <;> gcongr

@[gcongr] theorem foreignMember_below
    (h : g.Below g') : g.foreignMember.Below g'.foreignMember := by
  unfold foreignMember
  dsimp only
  repeat' first | gcongr | split

@[gcongr] theorem foreignRest_below (h : g.Below g') (attributes : Tree) :
    (g.foreignRest attributes).Below (g'.foreignRest attributes) := by
  unfold foreignRest
  dsimp only
  gcongr

@[gcongr] theorem importsRule_below (h : g.Below g') (root : Bool) :
    (g.importsRule root).Below (g'.importsRule root) := by
  unfold importsRule
  dsimp only
  gcongr
  split <;> gcongr

@[gcongr] theorem useRest_below (h : g.Below g') (attributes visibility : Tree) :
    (g.useRest attributes visibility).Below (g'.useRest attributes visibility) := by
  unfold useRest
  gcongr

@[gcongr] theorem staticRest_below (h : g.Below g') (start : Tokens)
    (attributes visibility : Tree) :
    (g.staticRest start attributes visibility).Below
      (g'.staticRest start attributes visibility) := by
  unfold staticRest
  dsimp only
  repeat' first | gcongr | split

@[gcongr] theorem itemRest_below (h : g.Below g') (start : Tokens) (attributes : Tree) :
    (g.itemRest start attributes).Below (g'.itemRest start attributes) := by
  unfold itemRest
  dsimp only
  gcongr

@[gcongr] theorem itemRule_below (h : g.Below g') : g.itemRule.Below g'.itemRule := by
  unfold itemRule
  dsimp only
  gcongr

/-! ## Statements -/

@[gcongr] theorem letStmt_below (h : g.Below g') (attributes : Tree) :
    (g.letStmt attributes).Below (g'.letStmt attributes) := by
  unfold letStmt
  dsimp only
  repeat' first | gcongr | split

@[gcongr] theorem statement_below (h : g.Below g') : g.statement.Below g'.statement := by
  unfold statement
  gcongr

@[gcongr] theorem statementsRule_below (h : g.Below g') :
    g.statementsRule.Below g'.statementsRule := by
  unfold statementsRule
  gcongr
  split <;> gcongr

/-! ## All parts -/

theorem ofDepth_below_succ (n : Nat) : (ofDepth n).Below (ofDepth (n + 1)) := by
  induction n with
  | zero =>
    constructor
    all_goals
      intros
      exact Parser.tooDeep_below _
  | succ n ih =>
    exact ⟨typeRule_below ih, boundRule_below ih, exprRule_below ih, unaryRule_below ih,
      operatorsRule_below ih, operandRule_below ih, trailersRule_below ih, leadingRule_below ih,
      patternRule_below ih, branchesRule_below ih, statementsRule_below ih, itemRule_below ih,
      importsRule_below ih⟩

theorem Below.refl (g : Grammar) : g.Below g := by
  constructor
  all_goals
    intros
    rfl

theorem Below.trans {g g' g'' : Grammar} (h : g.Below g') (h' : g'.Below g'') : g.Below g'' where
  type plus close := (h.type plus close).trans (h'.type plus close)
  bound capture const := (h.bound capture const).trans (h'.bound capture const)
  expr braces := (h.expr braces).trans (h'.expr braces)
  unary braces := (h.unary braces).trans (h'.unary braces)
  operators left braces level :=
    (h.operators left braces level).trans (h'.operators left braces level)
  operand right braces level := (h.operand right braces level).trans (h'.operand right braces level)
  trailers left := (h.trailers left).trans (h'.trailers left)
  leading := h.leading.trans h'.leading
  pattern := h.pattern.trans h'.pattern
  branches := h.branches.trans h'.branches
  statements := h.statements.trans h'.statements
  item := h.item.trans h'.item
  imports root := (h.imports root).trans (h'.imports root)

/-- A grammar reads what one of less depth does. -/
theorem ofDepth_below {n m : Nat} (h : n ≤ m) : (ofDepth n).Below (ofDepth m) := by
  induction h with
  | refl => exact .refl _
  | step _ ih => exact ih.trans (ofDepth_below_succ _)

end Grammar

end Courier.Code
