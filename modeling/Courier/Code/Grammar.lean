import Courier.Code.Grammar.Stmt
import Courier.Code.Lexer

/-!
Reading tokens as syntax. The recursive parts of the grammar are tied together here; how deep they
may call each other is computed from the size of the input.
-/
namespace Courier.Code

namespace Grammar

/-- The grammar whose parts call each other to a depth. -/
def ofDepth : Nat → Grammar
  | 0 =>
    { type := fun _ _ => throw .tooDeep
      bound := fun _ _ => throw .tooDeep
      expr := fun _ => throw .tooDeep
      unary := fun _ => throw .tooDeep
      operators := fun _ _ _ => throw .tooDeep
      operand := fun _ _ _ => throw .tooDeep
      trailers := fun _ => throw .tooDeep
      leading := throw .tooDeep
      pattern := throw .tooDeep
      branches := throw .tooDeep
      statements := throw .tooDeep
      item := throw .tooDeep
      imports := fun _ => throw .tooDeep }
  | n + 1 =>
    let g := ofDepth n
    { type := g.typeRule
      bound := g.boundRule
      expr := g.exprRule
      unary := g.unaryRule
      operators := g.operatorsRule
      operand := g.operandRule
      trailers := g.trailersRule
      leading := g.leadingRule
      pattern := g.patternRule
      branches := g.branchesRule
      statements := g.statementsRule
      item := g.itemRule
      imports := g.importsRule }

/-- The grammar for an input. No rule calls another more than a few times per token. -/
def ofTokens (ts : Tokens) : Grammar := ofDepth (8 * Token.weightList ts + 16)

end Grammar

/-- A parser that takes all tokens, as a syntax tree. -/
def parseAll {α : Type} (p : Grammar → Parser α) (ts : Tokens) : Except Fault α :=
  Parser.all (p (Grammar.ofTokens ts)) ts

def parseIdent (ts : Tokens) : Except Fault Tree := parseAll (fun _ => Parser.ident) ts

def parseType (ts : Tokens) : Except Fault Tree := parseAll Grammar.fullType ts

/-- A path whose segments may have arguments. -/
def parsePath (ts : Tokens) : Except Fault Tree := parseAll (fun g => g.path false) ts

def parseExpr (ts : Tokens) : Except Fault Tree := parseAll Grammar.fullExpr ts

def parseVisibility (ts : Tokens) : Except Fault Tree := parseAll (fun _ => Grammar.visibility) ts

def parseItem (ts : Tokens) : Except Fault Tree := parseAll Grammar.item ts

def parseFile (ts : Tokens) : Except Fault (List Tree) :=
  parseAll (fun g => return (← g.innerAttributes) ++ (← Parser.many g.item)) ts

/-- The contents of attributes, separated by commas. -/
def parseMetas (ts : Tokens) : Except Fault (List Tree) :=
  parseAll (fun g => Parser.separated "," g.attributeContent) ts

end Courier.Code
