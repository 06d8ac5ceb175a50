import Courier.Code.Format.Piece

/-! The layout of tokens that no grammar describes: those of attributes and macro calls. -/
namespace Courier.Code.Format
open Docs

/-! ## Attributes -/

/-- What the last token of an attribute was, as far as a blank behind it depends on it. -/
inductive AttributeState where
  | afterWord
  | afterMark
  | afterLastComma
  deriving DecidableEq, Repr

/-- The gap between two words. -/
def wordGap : AttributeState → Docs
  | .afterWord => gap .space
  | _ => []

mutual
/-- One token of an attribute, with the state behind it. -/
def attributeToken (state : AttributeState) (last : Bool) : Token → Docs × AttributeState
  | .ident name => (wordGap state ++ word name, .afterWord)
  | .literal text => (wordGap state ++ word text, .afterWord)
  | .punct ',' _ =>
    if last then (gap Gap.soft.withComma, .afterLastComma) else (word "," ++ gap .space, .afterMark)
  | .punct '=' _ =>
    ((if state = .afterWord then word " " else []) ++ word "=" ++ word " ", .afterMark)
  | .punct c _ => (word c.toString, .afterMark)
  | .group .paren body =>
    let (inner, state) := attributeTokens .afterMark body
    let inner := gap .soft ++ (if state = .afterLastComma then inner else inner ++ gap .soft)
    (word "(" ++ tall Gap.step (Docs.closed inner) ++ word ")", .afterMark)
  | .group .brace body =>
    (word "\x7b" ++ (attributeTokens .afterMark body).1 ++ word "\x7d", .afterMark)
  | .group .bracket body =>
    (word "[" ++ (attributeTokens .afterMark body).1 ++ word "]", .afterMark)
  | .group .hidden body => attributeTokens state body

/-- The tokens of an attribute, with the state behind them. -/
def attributeTokens (state : AttributeState) : Tokens → Docs × AttributeState
  | [] => ([], state)
  | t :: ts =>
    let (first, state) := attributeToken state ts.isEmpty t
    let (others, state) := attributeTokens state ts
    (first ++ others, state)
end

/-! ## Macro calls -/

/-- What the last tokens of a macro call were, as far as the next one depends on them. -/
inductive CallState where
  | start | dollar | dollarName | dollarNameColon | dollarParen | dollarParenSep | pound | poundBang
  | dot | colon | colons | word | wordBang | delimited | other
  deriving DecidableEq, Repr

/-- Words that begin or join constructs, which are set apart from what follows. -/
def setApart : List String :=
  ["as", "async", "await", "box", "break", "const", "continue", "crate", "dyn", "else", "enum",
   "extern", "fn", "for", "if", "impl", "in", "let", "loop", "macro", "match", "mod", "move", "mut",
   "pub", "ref", "return", "static", "struct", "trait", "type", "unsafe", "use", "where", "while",
   "yield"]

/-- Is the token in round or square brackets? -/
def isArguments : Token → Bool
  | .group .paren _ => true
  | .group .bracket _ => true
  | _ => false

/-- Does a gap stand in front of a token of a macro call, and what is the state behind it? The
tokens of a matcher name what they match. -/
def callStep (matcher : Bool) (state : CallState) (t : Token) : Bool × CallState :=
  match state, t with
  | .dollar, .ident _ => (false, if matcher then .dollarName else .other)
  | .dollarName, .punct ':' false => (false, .dollarNameColon)
  | .dollarNameColon, .ident _ => (false, .other)
  | .dollarParen, .punct c joint =>
    (false, if joint then .dollarParen else if ['+', '*', '?'].contains c then .other
      else .dollarParenSep)
  | .dollarParen, .ident _ => (false, .dollarParenSep)
  | .dollarParen, .literal _ => (false, .dollarParenSep)
  | .dollarParenSep, .punct '+' _ => (false, .other)
  | .dollarParenSep, .punct '*' _ => (false, .other)
  | .pound, .punct '!' _ => (false, .poundBang)
  | .dollar, .group .paren _ => (false, .dollarParen)
  | .pound, .group .bracket _ => (false, .other)
  | .poundBang, .group .bracket _ => (false, .other)
  | .word, .punct '!' false => (false, .wordBang)
  | .colon, .punct ':' _ => (false, .colons)
  | _, _ =>
    if state = .word && isArguments t then (false, .delimited)
    else if state = .wordBang && isArguments t then (false, .other)
    else if isArguments t then (true, .delimited)
    else match t with
      | .ident name =>
        if setApart.contains name then (true, .other)
        else (state != .dot && state != .colons, .word)
      | .literal text => (state != .dot, if text.endsWith "." then .other else .word)
      | .punct ',' _ => (false, .other)
      | .punct ';' _ => (false, .other)
      | .punct '.' _ =>
        if matcher then (true, .other) else (state != .word && state != .delimited, .dot)
      | .punct ':' true => (state != .word, .colon)
      | .punct '$' _ => (true, .dollar)
      | .punct '#' _ => (true, .pound)
      | _ => (true, .other)

/-- Does the next token belong to the same word of marks? -/
def joins : Token → Bool
  | .punct '$' _ => true
  | .punct _ joint => joint
  | _ => false

/-- The gap in front of a token. -/
def callGap (joined needed : Bool) (t : Token) : Docs :=
  if joined then []
  else if needed then gap .space
  else match t with
    | .punct '.' _ => gap .soft
    | _ => []

mutual
/-- A token of a macro call without the gap in front of it. -/
def callToken (matcher : Bool) : Token → Docs
  | .ident name => word name
  | .punct c _ => word c.toString
  | .literal text => word text
  | .group .paren body => word "(" ++ callTokens matcher .start true body ++ word ")"
  | .group .bracket body => word "[" ++ callTokens matcher .start true body ++ word "]"
  | .group .brace [] => word "\x7b" ++ word "\x7d"
  | .group .brace body =>
    word "\x7b" ++ gap .space ++ callTokens matcher .start true body ++ gap .space ++ word "\x7d"
  | .group .hidden body => callTokens matcher .start true body

/-- The tokens of a macro call. -/
def callTokens (matcher : Bool) (state : CallState) (joined : Bool) : Tokens → Docs
  | [] => []
  | t :: ts =>
    let (needed, next) := callStep matcher state t
    callGap joined needed t ++ callToken matcher t ++ callTokens matcher next (joins t) ts
end

/-- What is between the brackets of a macro call. -/
def callBody (matcher : Bool) (between : Gap) (body : Tokens) : Docs :=
  if body.isEmpty then []
  else tall Gap.step
    (gap between ++ wide 0 (callTokens matcher .start true body) ++ gap between.closing)

/-- A macro call behind its path and exclamation mark. -/
def callDocs : Tokens → Docs
  | [.group .paren body] => word "(" ++ callBody false .soft body ++ word ")"
  | [.group .bracket body] => word "[" ++ callBody false .soft body ++ word "]"
  | [.group .brace body] => word " \x7b" ++ callBody false .hard body ++ word "\x7d"
  | ts => word (Tokens.text ts)

/-! ## Macros by rules -/

/-- The brackets of a matcher. -/
def brackets : Delimiter → String × String
  | .paren => ("(", ")")
  | .bracket => ("[", "]")
  | .brace => ("\x7b", "\x7d")
  | .hidden => ("", "")

/-- The rules of a macro, each on lines of its own and with a semicolon at its end. -/
def ruleLines : Tokens → Docs
  | .group d matcher :: .punct '=' _ :: .punct '>' _ :: .group _ body :: ts =>
    word (brackets d).1 ++ callBody true .soft matcher ++ word (brackets d).2 ++ word " =" ++
      word ">" ++ word " \x7b" ++ gap .glue ++ callBody false .hard body ++ word "\x7d" ++
      word ";" ++ gap .hard ++ match ts with
        | .punct ';' _ :: ts => ruleLines ts
        | _ => []
  | _ => []

end Courier.Code.Format
