import Courier.Code.Tree

/-!
Parsers over token streams. A parser either fails with the cause or yields a result and the tokens
it left. Hidden groups are looked through wherever a single token is asked for.
-/
namespace Courier.Code

/-- Why tokens do not parse. -/
inductive Fault where
  /-- A mark is missing. -/
  | expected (what : String)
  /-- A word, literal or group is missing, possibly because the tokens end. -/
  | expectedHere (what : String) (atEnd : Bool)
  | expectedOneOf (choices : List String) (atEnd : Bool)
  /-- Tokens are left over. -/
  | unexpected
  | chainedComparison
  | expectedExpression
  /-- A rule of the grammar beyond the shape of the tokens is broken. -/
  | rule (text : String)
  /-- The nesting is deeper than the parser was prepared for. -/
  | tooDeep
  deriving DecidableEq, Repr

namespace Fault

/-- The wording of a fault. -/
def message : Fault → String
  | .expected what => "expected " ++ what
  | .expectedHere what atEnd =>
    (if atEnd then "unexpected end of input, expected " else "expected ") ++ what
  | .expectedOneOf choices atEnd =>
    (if atEnd then "unexpected end of input, expected one of: " else "expected one of: ") ++
      ", ".intercalate choices
  | .unexpected => "unexpected token"
  | .chainedComparison => "comparison operators cannot be chained"
  | .expectedExpression => "expected an expression"
  | .rule text => text
  | .tooDeep => "nesting is too deep"

end Fault

abbrev Parser (α : Type) := StateT Tokens (Except Fault) α

namespace Tokens

mutual
/-- A token with the hidden groups at its front opened. -/
def openToken : Token → Tokens
  | .group .hidden body => openFront body
  | t => [t]

/-- A stream whose first token is no hidden group. -/
def openFront : Tokens → Tokens
  | [] => []
  | t :: ts =>
    match openToken t with
    -- an empty hidden group is no token
    | [] => openFront ts
    | t' :: ts' => t' :: (ts' ++ ts)
end

/-- The first token, hidden groups looked through. -/
def next? (ts : Tokens) : Option (Token × Tokens) :=
  match openFront ts with
  | [] => none
  | t :: r => some (t, r)

def atEnd (ts : Tokens) : Bool := (next? ts).isNone

/-- The stream after its first token; a lifetime counts as one. -/
def skip (ts : Tokens) : Tokens :=
  match openFront ts with
  | .punct '\'' true :: .ident _ :: r => r
  | _ :: r => r
  | [] => []

/-- The stream after a word of punctuation marks, which have to be joined. -/
def afterMarks : List Char → Tokens → Option Tokens
  | [], ts => some ts
  | c :: cs, ts =>
    match next? ts with
    | some (.punct m joint, r) => if m = c && (cs.isEmpty || joint) then afterMarks cs r else none
    | _ => none

def afterSign (s : String) (ts : Tokens) : Option Tokens := afterMarks s.toList ts

def startsSign (s : String) (ts : Tokens) : Bool := (afterSign s ts).isSome

def startsWord (w : String) (ts : Tokens) : Bool :=
  match next? ts with
  | some (.ident name, _) => name == w
  | _ => false

/-- Words that are no identifiers. -/
def keywords : List String :=
  ["_", "abstract", "as", "async", "await", "become", "box", "break", "const", "continue", "crate",
   "do", "dyn", "else", "enum", "extern", "false", "final", "fn", "for", "if", "impl", "in", "let",
   "loop", "macro", "match", "mod", "move", "mut", "override", "priv", "pub", "ref", "return",
   "Self", "self", "static", "struct", "super", "trait", "true", "try", "type", "typeof", "unsafe",
   "unsized", "use", "virtual", "where", "while", "yield"]

/-- May the word be used as an identifier? -/
def isIdent (name : String) : Bool := !keywords.contains name

def startsIdent (ts : Tokens) : Bool :=
  match next? ts with
  | some (.ident name, _) => isIdent name
  | _ => false

def startsAnyIdent (ts : Tokens) : Bool :=
  match next? ts with
  | some (.ident _, _) => true
  | _ => false

def startsLifetime (ts : Tokens) : Bool :=
  match openFront ts with
  | .punct '\'' true :: .ident _ :: _ => true
  | _ => false

def startsGroup (d : Delimiter) (ts : Tokens) : Bool :=
  match next? ts with
  | some (.group d' _, _) => d == d'
  | _ => false

def startsHidden : Tokens → Bool
  | .group .hidden _ :: _ => true
  | _ => false

/-- Is the literal a plain or raw string? -/
def isString (text : String) : Bool := text.startsWith "\"" || text.startsWith "r"

def isNumber (text : String) : Bool :=
  match text.toList with
  | '-' :: c :: _ => c.isDigit
  | c :: _ => c.isDigit
  | [] => false

/-- A literal: a literal token, a truth value, or a number with a minus sign. -/
def literal? (ts : Tokens) : Option (Token × Tokens) :=
  match next? ts with
  | some (.literal text, r) => some (.literal text, r)
  | some (.ident name, r) => if name == "true" || name == "false" then some (.ident name, r) else none
  | some (.punct '-' _, r) =>
    match next? r with
    | some (.literal text, r') =>
      -- a literal that holds a sign takes no second one
      if isNumber text && !text.startsWith "-" then some (.literal ("-" ++ text), r') else none
    | _ => none
  | _ => none

def startsLiteral (ts : Tokens) : Bool := (literal? ts).isSome

end Tokens

namespace Parser

variable {α β : Type}

def rest : Parser Tokens := get

/-- Does a condition hold of the tokens that are left? -/
def sees (p : Tokens → Bool) : Parser Bool := return p (← get)

def seesSign (s : String) : Parser Bool := sees (Tokens.startsSign s)

def seesWord (w : String) : Parser Bool := sees (Tokens.startsWord w)

/-- No token is left in the group, not even an empty hidden group. -/
def finished : Parser Bool := sees List.isEmpty

def fail (f : Fault) : Parser α := throw f

/-- Something is missing here. -/
def missing (what : String) : Parser α := do
  throw (.expectedHere what (Tokens.atEnd (← get)))

def sign? (s : String) : Parser (Option Tree) := do
  match Tokens.afterSign s (← get) with
  | some r => set r; return some (.sign s)
  | none => return none

def sign (s : String) : Parser Tree := do
  match ← sign? s with
  | some t => return t
  | none => throw (.expected ("`" ++ s ++ "`"))

def word? (w : String) : Parser (Option Tree) := do
  match Tokens.next? (← get) with
  | some (.ident name, r) => if name == w then set r; return some (Tree.word w) else return none
  | _ => return none

def word (w : String) : Parser Tree := do
  match ← word? w with
  | some t => return t
  | none => missing ("`" ++ w ++ "`")

/-- Any word, keywords included. -/
def anyIdent : Parser Tree := do
  match Tokens.next? (← get) with
  | some (.ident name, r) => set r; return Tree.word name
  | _ => missing "identifier"

def ident : Parser Tree := do
  match Tokens.next? (← get) with
  | some (.ident name, r) =>
    if Tokens.isIdent name then set r; return Tree.word name
    else throw (.expected ("identifier, found " ++
      (if name == "_" then "`_`" else "keyword `" ++ name ++ "`")))
  | _ => missing "identifier"

def lifetime : Parser Tree := do
  match Tokens.openFront (← get) with
  | .punct '\'' true :: .ident name :: r => set r; return .lifetime name
  | _ => missing "lifetime"

def lifetime? : Parser (Option Tree) := do
  if ← sees Tokens.startsLifetime then return some (← lifetime) else return none

def literal : Parser Tree := do
  match Tokens.literal? (← get) with
  | some (t, r) => set r; return .token t
  | none => missing "literal"

/-- The parser applied to all of some tokens. -/
def all (p : Parser α) (ts : Tokens) : Except Fault α := do
  let (a, r) ← p.run ts
  if r.isEmpty then return a else throw .unexpected

def bracketName : Delimiter → String
  | .paren => "parentheses"
  | .bracket => "square brackets"
  | .brace => "curly braces"
  | .hidden => "invisible group"

/-- A group whose whole content parses. -/
def group (d : Delimiter) (p : Parser α) : Parser α := do
  match Tokens.next? (← get) with
  | some (.group d' body, r) =>
    if d == d' then
      let a ← all p body
      set r
      return a
    else missing (bracketName d)
  | _ => missing (bracketName d)

/-- A group as a tree. -/
def grouped (d : Delimiter) (p : Parser (List Tree)) : Parser Tree := do
  return .group d (← group d p)

/-- A hidden group at the front, with its whole content parsed. -/
def hidden (p : Parser α) : Parser α := do
  match ← get with
  | .group .hidden body :: r =>
    let a ← all p body
    set r
    return a
  | _ => missing (bracketName .hidden)

/-- The result of a parser where a condition holds, else nothing. -/
def when (b : Bool) (p : Parser Tree) : Parser Tree := if b then p else return Tree.none

/-- The parser's result, or nothing when the tokens are others. A nesting that is too deep is a
fault all the same. -/
def attempt (p : Parser α) : Parser (Option α) := do
  match p.run (← get) with
  | .ok (a, r) => set r; return some a
  | .error .tooDeep => throw .tooDeep
  | .error _ => return none

/-- How many steps a loop over the rest can take: each reads at least one token. -/
def budget : Parser Nat := return Token.spanList (← get) + 1

/-- Repeats a step that says with its result whether to go on. -/
def iterate (step : Parser (List Tree × Bool)) : Parser (List Tree) := do
  loop (← budget)
where
  loop : Nat → Parser (List Tree)
    | 0 => throw .tooDeep
    | n + 1 => do
      let (ts, more) ← step
      if more then return ts ++ (← loop n) else return ts

/-- Elements with a separator up to the end of the group; a trailing separator is kept. -/
def separated (sep : String) (p : Parser Tree) : Parser (List Tree) :=
  iterate do
    if ← finished then return ([], false)
    let t ← p
    if ← finished then return ([t], false)
    return ([t, ← sign sep], true)

/-- Elements up to the end of the group. -/
def many (p : Parser Tree) : Parser (List Tree) :=
  iterate do
    if ← finished then return ([], false)
    return ([← p], true)

/-- Elements with a separator in front of a closing mark, which is left. -/
def untilSign (close sep : String) (p : Parser Tree) : Parser (List Tree) :=
  iterate do
    if ← seesSign close then return ([], false)
    let t ← p
    if ← seesSign close then return ([t], false)
    return ([t, ← sign sep], true)

/-- Elements as long as a condition holds. -/
def manyWhile (go : Tokens → Bool) (p : Parser Tree) : Parser (List Tree) :=
  iterate do
    if ← sees go then return ([← p], true) else return ([], false)

end Parser

end Courier.Code
