import Courier.Code.Grammar.Operator

/-!
Where expressions need parentheses. Trees that come from hidden groups may be bound otherwise than
their tokens would be; parentheses keep them together.
-/
namespace Courier.Code

/-! ## Levels of expressions -/

namespace Level

/-- What takes in all that follows. -/
def jump : Nat := 0
def binding : Nat := 5
def prefixed : Nat := 14

/-- What no operator can take apart. -/
def closed : Nat := 15

end Level

namespace Tree

/-- A jump that takes no value along. -/
def isBareJump : Tree → Bool
  | .node .attributedExpr [_, e] => e.isBareJump
  | .node .breakExpr [_, _] => true
  | .node .returnExpr [_] => true
  | .node .yieldExpr [_] => true
  | _ => false

/-- The level of the outermost operator of an expression. -/
def level : Tree → Nat
  | .node .attributedExpr [_, e] =>
    if e.isBareJump then Level.closed else min e.level Level.prefixed
  | .node .groupExpr [.group .hidden [e]] => e.level
  | .node .closureExpr [_, _, _, _, _, _, .node .absent [], _] => Level.jump
  | .node .breakExpr [_, _, _] => Level.jump
  | .node .returnExpr [_, _] => Level.jump
  | .node .yieldExpr [_, _] => Level.jump
  | .node .assignExpr _ => Level.assignment
  | .node .rangeExpr _ => Level.range
  | .node .binaryExpr [_, .sign s, _] =>
    ((binaryOperators.find? fun op => op.1 == s).map Prod.snd).getD Level.closed
  | .node .letExpr _ => Level.binding
  | .node .castExpr _ => Level.cast
  | .node .referenceExpr _ => Level.prefixed
  | .node .unaryExpr _ => Level.prefixed
  | _ => Level.closed

/-! ## Expressions as statements and arms -/

/-- Does an expression that is a statement need a semicolon to end it? -/
def needsSemicolon (t : Tree) : Bool := goesOn t && !isBracedMacro t

/-- Does an expression that is the body of an arm need a comma to end it? -/
def needsComma (t : Tree) : Bool := goesOn t

/-- Is an expression given a semicolon where it ends a line? -/
def takesSemicolon (t : Tree) : Bool :=
  match t.bare with
  | .node .binaryExpr [_, .sign s, _] =>
    binaryOperators.any fun op => op.1 == s && op.2 == Level.assignment
  | .node k _ => [.assignExpr, .breakExpr, .continueExpr, .returnExpr, .yieldExpr].contains k
  | _ => false

/-- Is the semicolon behind an expression left out? -/
def dropsSemicolon : Tree → Bool
  | .node .attributedExpr [_, e] => e.dropsSemicolon
  | .node .groupExpr [.group .hidden [e]] => e.dropsSemicolon
  | .node .forExpr _ => true
  | .node .whileExpr _ => true
  | .node .ifExpr [_, _, _] => true
  | .node .ifExpr [_, _, _, _, other] => other.dropsSemicolon
  | _ => false

/-- Can an expression stand between braces as it is? It must not begin with a statement. -/
def standsAlone : Tree → Bool
  | .node .attributedExpr [_, e] => e.standsAlone
  | .node .groupExpr [.group .hidden [e]] => e.standsAlone
  | .node .assignExpr [e, _, _] => e.standsAlone
  | .node .awaitExpr (e :: _) => e.standsAlone
  | .node .fieldExpr (e :: _) => e.standsAlone
  | .node .methodExpr (e :: _) => e.standsAlone
  | .node .tryExpr (e :: _) => e.standsAlone
  | .node .binaryExpr [e, _, _] => e.needsComma && e.standsAlone
  | .node .callExpr [e, _] => e.needsComma && e.standsAlone
  | .node .castExpr [e, _, _] => e.needsComma && e.standsAlone
  | .node .indexExpr [e, _] => e.needsComma && e.standsAlone
  | .node .rangeExpr [.node .absent [], _, _] => true
  | .node .rangeExpr [e, _, _] => e.needsComma && e.standsAlone
  | _ => true

/-- Does the brace behind a condition go to a line of its own when the condition has several? -/
def wrapsBrace : Tree → Bool
  | .node .attributedExpr [_, e] => e.wrapsBrace
  | .node .groupExpr [.group .hidden [e]] => e.wrapsBrace
  | .node .parenExpr [.group .paren [e]] => e.wrapsBrace
  | .node .callExpr [f, _] => f.wrapsBrace
  | .node .letExpr [_, _, _, e] => e.wrapsBrace
  | .node .rangeExpr [_, _, e] => e.wrapsBrace
  | .node .referenceExpr [_, _, e] => e.wrapsBrace
  | .node .tryExpr [e, _] => e.wrapsBrace
  | .node .unaryExpr [_, e] => e.wrapsBrace
  | .node .breakExpr [_, _, e] => e.wrapsBrace
  | .node .returnExpr [_, e] => e.wrapsBrace
  | .node .yieldExpr [_, e] => e.wrapsBrace
  | .node k _ => [.assignExpr, .awaitExpr, .binaryExpr, .castExpr, .fieldExpr, .indexExpr,
      .methodExpr].contains k
  | _ => false

/-- Is a path without arguments the end of a cast? -/
def endsInName : Tree → Bool
  | .node .castExpr [_, _, type] =>
    match type.tokens.reverse with
    | .ident _ :: .punct '\'' _ :: _ => false
    | .ident name :: _ => name != "_"
    | _ => false
  | _ => false

end Tree

/-! ## Surroundings -/

/-- What stands around an expression, as far as parentheses depend on it. -/
structure Setting where
  isStatement : Bool
  beginsStatement : Bool
  isArm : Bool
  beginsArm : Bool
  /-- A brace behind the expression would be taken for a block. -/
  inCondition : Bool
  endsCondition : Bool
  /-- The expression is an operand that may be missing in front of a block. -/
  optional : Bool
  /-- What follows could begin an expression. -/
  mayBegin : Bool
  /-- What follows could go on with an expression. -/
  mayGoOn : Bool
  /-- What follows could open generic arguments. -/
  mayOpen : Bool
  deriving DecidableEq, Repr

namespace Setting

/-- Nothing around the expression depends on it. -/
def free : Setting :=
  ⟨false, false, false, false, false, false, false, false, false, false⟩

def statement : Setting := { free with isStatement := true }

def arm : Setting := { free with isArm := true }

def condition : Setting := { free with inCondition := true, endsCondition := true }

/-- In front of an operator. -/
def left (s : Setting) (mayBegin mayOpen : Bool) : Setting :=
  { s with
    isStatement := false
    beginsStatement := s.isStatement || s.beginsStatement
    isArm := false
    beginsArm := s.isArm || s.beginsArm
    endsCondition := false
    mayBegin := mayBegin
    mayGoOn := true
    mayOpen := mayOpen }

/-- In front of a dot or question mark. -/
def link (s : Setting) : Setting :=
  { s with
    isStatement := s.isStatement || s.beginsStatement
    beginsStatement := false
    isArm := s.isArm || s.beginsArm
    beginsArm := false
    endsCondition := false
    mayBegin := false
    mayGoOn := true
    mayOpen := false }

/-- Behind an operator. -/
def right (s : Setting) : Setting :=
  { s with
    isStatement := false
    beginsStatement := false
    isArm := false
    beginsArm := false
    optional := false }

/-- Behind the mark of a range. -/
def bound (s : Setting) : Setting := { s.right with optional := s.inCondition }

/-- Behind a jump. -/
def value (s : Setting) : Setting := { s.right with inCondition := false }

/-- Behind a jump out of a block. -/
def result (s : Setting) : Setting := { s.value with optional := s.inCondition }

/-- The level at which an expression is bound here. -/
def levelOf (s : Setting) (t : Tree) : Nat :=
  let e := withoutAttributes t
  if s.mayBegin && e.isBareJump then Level.jump
  else if !s.mayGoOn && isOpenEnded e then Level.prefixed
  else if s.mayOpen && e.endsInName then Level.lowest
  else t.level
where
  isOpenEnded : Tree → Bool
    | .node .rangeExpr (.node .absent [] :: _) => true
    | .node k _ =>
      [.breakExpr, .closureExpr, .letExpr, .returnExpr, .yieldExpr].contains k
    | _ => false

/-- Would an expression end too early here? -/
def endsEarly (s : Setting) (t : Tree) : Bool :=
  let e := withoutAttributes t
  (s.beginsStatement && !t.needsSemicolon) ||
    ((s.isStatement || s.beginsStatement) && e.isKind .letExpr) ||
    (s.beginsArm && !t.needsComma) ||
    (s.inCondition && e.isKind .structExpr) ||
    (s.endsCondition && e.isBareJump && !e.isKind .breakExpr) ||
    (s.endsCondition && !s.inCondition && endsInBrace e) ||
    (s.optional && isPlainBlock t)
where
  endsInBrace : Tree → Bool
    | .node .breakExpr [_, _] => true
    | .node .pathExpr _ => true
    | .node .rangeExpr [_, _, .node .absent []] => true
    | _ => false
  isPlainBlock : Tree → Bool
    | .node .blockExpr [.node .absent [], _] => true
    | _ => false

end Setting

end Courier.Code
