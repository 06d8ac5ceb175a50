import Courier.Code.Grammar.Item

/-! Statements. -/
namespace Courier.Code.Grammar
open Code.Parser

variable (g : Grammar)

/-- Does an item begin here, where a statement may stand? -/
def startsItem (ts : Tokens) : Bool :=
  let second := Tokens.skip ts
  let third := Tokens.skip second
  let word (w : String) := Tokens.startsWord w ts
  let next (w : String) := Tokens.startsWord w second
  let startsFunction (ts : Tokens) :=
    ["unsafe", "extern", "fn"].any fun w => Tokens.startsWord w ts
  let moves := Tokens.startsWord "move" third || Tokens.startsSign "|" third
  (["pub", "extern", "use", "fn", "mod", "type", "struct", "enum", "trait", "impl", "macro"].any
    word) ||
  (word "crate" && !Tokens.startsSign "::" second) ||
  (word "static" && (next "mut" || (Tokens.startsIdent second && !(next "async" && moves)))) ||
  (word "const" && !(Tokens.startsGroup .brace second || next "static" || next "move" ||
    Tokens.startsSign "|" second || (next "async" && !startsFunction third))) ||
  (word "unsafe" && !Tokens.startsGroup .brace second) ||
  (word "async" && startsFunction second) ||
  (word "union" && Tokens.startsIdent second) || (word "auto" && next "trait") ||
  (word "default" && (next "unsafe" || next "impl"))

def letStmt (attributes : Tree) : Parser Tree := do
  let let' ← word "let"
  let pattern ← g.pattern
  let type ← match ← sign? ":" with
    | some s => pure [s, ← g.fullType]
    | none => pure []
  let value ← match ← sign? "=" with
    | none => pure []
    | some s =>
      let e ← g.fullExpr
      -- behind a brace an `else` would be taken for the branch of a conditional
      let braced := match e.tokens.getLast? with
        | some (.group .brace _) => true
        | _ => false
      if !braced && (← seesWord "else") then pure [s, e, ← word "else", ← g.plainBlock]
      else pure [s, e]
  let semi ← sign ";"
  return .node .letStmt ([attributes, let', pattern] ++ type ++ value ++ [semi])

/-- What the tokens of a statement say when they begin with a path and an exclamation mark. -/
inductive MacroForm where
  | notMacro
  | item
  | statement
  deriving DecidableEq

/-- Which kind of macro call begins here. -/
def macroForm : Parser MacroForm := do
  match modulePath.run (← get) with
  | .error _ => return .notMacro
  | .ok (_, ts) =>
    let second := Tokens.skip ts
    let third := Tokens.skip second
    if !Tokens.startsSign "!" ts then return .notMacro
    if Tokens.startsIdent second || Tokens.startsWord "try" second then return .item
    -- with a dot or question mark behind it the call is the operand of an expression
    if Tokens.startsGroup .brace second && !(startsDot third || Tokens.startsSign "?" third) then
      return .statement
    return .notMacro

/-- A statement, and whether another one may follow it without a semicolon. -/
def statement : Parser (Tree × Bool) := do
  let start ← rest
  let attributes ← g.outerAttributes
  let form ← macroForm
  if form = .statement then
    let path ← modulePath
    let mark ← sign "!"
    let body ← delimited
    let semi := Tree.ofOption (← sign? ";")
    return (.node .macroStmt [.node .attributes attributes, path, mark, body, semi], true)
  let ts ← rest
  if Tokens.startsWord "let" ts && !Tokens.startsHidden ts then
    return (← g.letStmt (.node .attributes attributes), true)
  if startsItem ts || form = .item then
    return (← g.itemRest start (.node .attributes attributes), true)
  let e := attributed attributes (← g.leading)
  match ← sign? ";" with
  | some s => return (.node .exprStmt [e, s], true)
  | none => return (.node .exprStmt [e], isBlockLike e || isBracedMacro e)

def statementsRule : Parser (List Tree) :=
  iterate do
    match ← sign? ";" with
    | some s => return ([.node .emptyStmt [s]], true)
    | none =>
      if ← finished then return ([], false)
      let (t, free) ← g.statement
      if ← finished then return ([t], false)
      if !free then fail (.rule "unexpected token, expected `;`")
      return ([t], true)

end Courier.Code.Grammar
