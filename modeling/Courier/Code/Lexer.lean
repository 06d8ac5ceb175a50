import Courier.Code.Token
import Courier.Text.Identifier
import Courier.Text.Quoted

/-!
Reading text as tokens: white space and comments are dropped, documentation comments become
attributes, and brackets become groups.
-/
namespace Courier.Code
open Courier.Text

/-- White space between tokens: blanks and the marks of writing direction. -/
def isSpacing (c : Char) : Bool := isBlank c || c == '\u200e' || c == '\u200f'

/-- The marks that are punctuation. -/
def isMark (c : Char) : Bool := "~!@#$%^&*-=+|;:,<.>/?'".toList.contains c

/-- The content of a block comment and the text after it. Comments nest; `depth` counts those
still open beside the outermost, whose opening was read. -/
def blockComment (depth : Nat) : List Char → Option (List Char × List Char)
  | '/' :: '*' :: r => (blockComment (depth + 1) r).map fun p => ('/' :: '*' :: p.1, p.2)
  | '*' :: '/' :: r =>
    match depth with
    | 0 => some ([], r)
    | d + 1 => (blockComment d r).map fun p => ('*' :: '/' :: p.1, p.2)
  | c :: r => (blockComment depth r).map fun p => (c :: p.1, p.2)
  | [] => none

/-- The rest of a line and the text from its end on. -/
def lineComment : List Char → List Char × List Char
  | [] => ([], [])
  | '\n' :: r => ([], '\n' :: r)
  | '\r' :: '\n' :: r => ([], '\n' :: r)
  | c :: r => let p := lineComment r; (c :: p.1, p.2)

/-- A carriage return that no line feed follows. -/
def hasBareReturn : List Char → Bool
  | [] => false
  | '\r' :: '\n' :: r => hasBareReturn r
  | '\r' :: _ => true
  | _ :: r => hasBareReturn r

/-- An identifier without a raw mark: its characters and the text after it. -/
def identText : List Char → Option (List Char × List Char)
  | [] => none
  | c :: r =>
    if isIdentStart c then some (c :: r.takeWhile isIdentContinue, r.dropWhile isIdentContinue)
    else none

/-- The names that cannot be raw identifiers. -/
def neverRaw : List String := ["_", "super", "self", "Self", "crate"]

def identOrRaw : List Char → Option (List Char × List Char)
  | 'r' :: '#' :: r => do
    let (name, rest) ← identText r
    if neverRaw.contains (String.ofList name) then none else some ('r' :: '#' :: name, rest)
  | cs => identText cs

/-- The text after an optional literal suffix. -/
def afterSuffix (cs : List Char) : List Char :=
  match identText cs with
  | some (_, r) => r
  | none => cs

/-- The text after a raw literal, from its hashes on. -/
def afterRaw (form : QuoteForm) (cs : List Char) : Option (List Char) :=
  let hashes := (cs.takeWhile (· == '#')).length
  match cs.dropWhile (· == '#') with
  | '"' :: r => if 255 < hashes then none else (readRaw form hashes r).map fun p => afterSuffix p.2
  | _ => none

/-- The text after a quoted literal whose opening quote was read. -/
def afterQuoted (form : QuoteForm) (cs : List Char) : Option (List Char) :=
  (readQuoted form cs).map fun p => afterSuffix p.2

/-- The text after a literal of one character, from behind its opening quote. -/
def afterCharacter (form : QuoteForm) (cs : List Char) : Option (List Char) :=
  let rest := match cs with
    | [] => none
    | '\\' :: r => (readEscape form r).map Prod.snd
    | c :: r => if !form.beyondAscii && 128 ≤ c.toNat then none else some r
  match rest with
  | some ('\'' :: r) => some (afterSuffix r)
  | _ => none

def isDigitOrLow (c : Char) : Bool := c.isDigit || c == '_'

/-- The text after an exponent, from behind its letter; `none` when it has no digits. -/
def afterExponent (signed valued : Bool) : List Char → Option (List Char)
  | [] => if valued then some [] else none
  | c :: r =>
    if c = '+' || c = '-' then
      if valued then some (c :: r) else if signed then none else afterExponent true valued r
    else if c.isDigit then afterExponent signed true r
    else if c = '_' then afterExponent signed valued r
    else if valued then some (c :: r) else none

/-- The text after a number's suffix, which no other identifier character may touch. -/
def afterNumber (cs : List Char) : Option (List Char) :=
  match afterSuffix cs with
  | [] => some []
  | c :: r => if isIdentContinue c then none else some (c :: r)

/-- The text after the digits of a number with a point or an exponent. -/
def afterFloatDigits (cs : List Char) : Option (List Char) :=
  match cs with
  | [] => none
  | d :: r =>
    if !d.isDigit then none
    else match r.dropWhile isDigitOrLow with
      | '.' :: r =>
        -- `1..2` is a range and `1.max` a call: the number ends in front of the point
        if r.head?.any fun c => c == '.' || isIdentStart c then none
        else match r.dropWhile isDigitOrLow with
          | 'e' :: r' => some ((afterExponent false false r').getD ('e' :: r'))
          | 'E' :: r' => some ((afterExponent false false r').getD ('E' :: r'))
          | r' => some r'
      | 'e' :: r => afterExponent false false r
      | 'E' :: r => afterExponent false false r
      | _ => none

/-- The text after the digits of a whole number in a base; `empty` until a digit was read. -/
def afterDigits (base : Nat) (empty : Bool) : List Char → Option (List Char)
  | [] => if empty then none else some []
  | c :: r =>
    if c = '_' then if empty && base = 10 then none else afterDigits base empty r
    else match hexValue? c with
      | some v =>
        if v < base then afterDigits base false r
        -- a decimal digit too large for the base is an error, a letter may begin a suffix
        else if v < 10 then none
        else if empty then none else some (c :: r)
      | none => if empty then none else some (c :: r)

/-- The text after the digits of a whole number with its base mark. -/
def afterWholeDigits : List Char → Option (List Char)
  | '0' :: 'x' :: r => afterDigits 16 true r
  | '0' :: 'o' :: r => afterDigits 8 true r
  | '0' :: 'b' :: r => afterDigits 2 true r
  | cs => afterDigits 10 true cs

/-- The text after a literal that is not a number. -/
def afterTextLiteral (cs : List Char) : Option (List Char) :=
  match cs with
  | '"' :: r => afterQuoted .text r
  | 'r' :: r => afterRaw .text r
  | 'b' :: '"' :: r => afterQuoted .bytes r
  | 'b' :: 'r' :: r => afterRaw .bytes r
  | 'b' :: '\'' :: r => afterCharacter .bytes r
  | 'c' :: '"' :: r => afterQuoted .terminated r
  | 'c' :: 'r' :: r => afterRaw .terminated r
  | '\'' :: r => afterCharacter .text r
  | _ => none

def afterLiteral (cs : List Char) : Option (List Char) :=
  (afterTextLiteral cs).or <|
    ((afterFloatDigits cs).bind afterNumber).or ((afterWholeDigits cs).bind afterNumber)

/-- The beginnings of quoted literals, which no identifier may have. -/
def literalMarks : List (List Char) :=
  ["r\"", "r#\"", "r##", "b\"", "b'", "br\"", "br#", "c\"", "cr\"", "cr#"].map String.toList

def atComment : List Char → Bool
  | '/' :: '/' :: _ => true
  | '/' :: '*' :: _ => true
  | _ => false

def atMark (cs : List Char) : Bool :=
  !atComment cs && cs.head?.any isMark

/-- One punctuation mark, and whether the next belongs to the same word. A quote is the mark of a
lifetime, and needs one behind it. -/
def readMark (cs : List Char) : Option (Token × List Char) :=
  match cs with
  | [] => none
  | '\'' :: r => do
    let (name, rest) ← identOrRaw r
    let raw := name.head? = some 'r' && name[1]? = some '#'
    match rest with
    -- a quote behind the name makes it a character
    | '\'' :: _ => none
    | '#' :: _ => if raw then some (.punct '\'' true, r) else none
    | _ => some (.punct '\'' true, r)
  | c :: r => if atMark cs then some (.punct c (atMark r), r) else none

/-- What the lexer meets next. -/
inductive Step where
  | skip (rest : List Char)
  | emit (tokens : Tokens) (rest : List Char)
  | enter (delimiter : Delimiter) (rest : List Char)
  /-- A closing bracket or the end of the text. -/
  | stop
  | fail

/-- The attribute that a documentation comment stands for. -/
def docAttribute (inner : Bool) (content : List Char) : Tokens :=
  .punct '#' false :: (if inner then [.punct '!' false] else []) ++
    [.group .bracket
      [.ident "doc", .punct '=' false, .literal (String.ofList (quoteLiteral content))]]

def docStep (inner : Bool) (content rest : List Char) : Step :=
  if hasBareReturn content then .fail else .emit (docAttribute inner content) rest

/-- A comment. Documentation has exactly one more slash or star, or an exclamation mark. -/
def commentStep : List Char → Step
  | '/' :: '/' :: '!' :: r => let p := lineComment r; docStep true p.1 p.2
  | '/' :: '/' :: '/' :: '/' :: r => .skip (lineComment r).2
  | '/' :: '/' :: '/' :: r => let p := lineComment r; docStep false p.1 p.2
  | '/' :: '/' :: r => .skip (lineComment r).2
  -- the second star of `/**/` closes the comment, so nothing is documented
  | '/' :: '*' :: '*' :: '/' :: r => .skip r
  | '/' :: '*' :: r =>
    match blockComment 0 r with
    | none => .fail
    | some ('!' :: content, rest) => docStep true content rest
    | some ('*' :: '*' :: _, rest) => .skip rest
    | some ('*' :: content, rest) => docStep false content rest
    | some (_, rest) => .skip rest
  | _ => .fail

/-- A literal, a mark or an identifier. -/
def leafStep (cs : List Char) : Step :=
  -- literals come first: `r#"a"#` begins like an identifier, `'a'` like a lifetime
  match afterLiteral cs with
  | some rest => .emit [.literal (String.ofList (cs.take (cs.length - rest.length)))] rest
  | none =>
    match readMark cs with
    | some (t, rest) => .emit [t] rest
    | none =>
      if literalMarks.any fun mark => mark.isPrefixOf cs then .fail
      else match identOrRaw cs with
        | some (name, rest) => .emit [.ident (String.ofList name)] rest
        | none => .fail

/-- The literal that stands for unreadable text in a stream. -/
def unreadable : String := "(/*ERROR*/)"

def nextStep (cs : List Char) : Step :=
  match cs with
  | [] => .stop
  | c :: r =>
    if atComment cs then commentStep cs
    else if isSpacing c then .skip r
    else match c with
      | '(' =>
        if unreadable.toList.isPrefixOf cs then
          .emit [.literal unreadable] (cs.drop unreadable.length)
        else .enter .paren r
      | '[' => .enter .bracket r
      | '{' => .enter .brace r
      | ')' => .stop
      | ']' => .stop
      | '}' => .stop
      | _ => leafStep cs

/-- The text after the bracket that closes a group. -/
def close : Delimiter → List Char → Option (List Char)
  | .paren, ')' :: r => some r
  | .bracket, ']' :: r => some r
  | .brace, '}' :: r => some r
  | _, _ => none

/-- Tokens up to a closing bracket or the end of the text, and what is left. Each step takes at
least one character, so the length of the text bounds their number. -/
def lexUntil : Nat → List Char → Option (Tokens × List Char)
  | 0, _ => none
  | n + 1, cs =>
    match nextStep cs with
    | .skip rest => lexUntil n rest
    | .emit tokens rest => (lexUntil n rest).map fun p => (tokens ++ p.1, p.2)
    | .enter d rest => do
      let (body, rest) ← lexUntil n rest
      let rest ← close d rest
      let (tokens, rest) ← lexUntil n rest
      return (.group d body :: tokens, rest)
    | .stop => some ([], cs)
    | .fail => none

/-- The tokens of a text, if it has any reading. A byte order mark at the beginning is skipped. -/
def lexChars (cs : List Char) : Option Tokens :=
  let cs := if cs.head? = some '\ufeff' then cs.tail else cs
  match lexUntil (cs.length + 1) cs with
  | some (ts, []) => some ts
  | _ => none

/-- The tokens of a text. -/
def lex (text : String) : Option Tokens := lexChars text.toList

end Courier.Code
