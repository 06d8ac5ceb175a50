import Courier.Xml.Attribute

/-!
A document as the sequence of its events. Reading stops at the first fault, so a document is a list
of events and perhaps the fault behind them.
-/
namespace Courier.Xml

/-- What a document consists of. -/
inductive Event where
  | start (tag : Tag)
  /-- A tag that is closed at once. -/
  | empty (tag : Tag)
  | close
  /-- Text between markup and references, without white space at its ends. -/
  | text (content : List Char)
  | cdata (content : List Char)
  /-- A reference in text, by what stands between the ampersand and the semicolon. -/
  | reference (name : List Char)
  /-- A comment, processing instruction, declaration or document type. -/
  | aside
  deriving DecidableEq, Repr

/-- The events of a document and the fault that ends them, if there is one. -/
structure Document where
  events : List Event
  fault : Option Fault
  deriving DecidableEq, Repr

namespace Document

def ended : Document := ⟨[], none⟩

def failed (f : Fault) : Document := ⟨[], some f⟩

def cons (e : Event) (d : Document) : Document := ⟨e :: d.events, d.fault⟩

end Document

/-! ## Pieces -/

/-- The text in front of a mark, and the text behind it. -/
def splitAt (mark : List Char) : List Char → Option (List Char × List Char)
  | [] => none
  | c :: cs =>
    if mark.isPrefixOf (c :: cs) then some ([], (c :: cs).drop mark.length)
    else (splitAt mark cs).map fun p => (c :: p.1, p.2)

/-- The text of a tag up to its end, which does not count inside quotes. -/
def tagText (quote : Option Char) : List Char → Except Fault (List Char × List Char)
  | [] => .error (match quote with
    | some q => .unclosedValue q
    | none => .unclosedTag)
  | c :: cs =>
    let go (quote : Option Char) := do
      let (content, rest) ← tagText quote cs
      return (c :: content, rest)
    match quote with
    | some q => go (if c = q then none else some q)
    | none => if c = '>' then .ok ([], cs) else go (if isQuote c then some c else none)

/-- Where in a document type the reader is. -/
inductive DoctypePlace where
  /-- In front of the internal subset, perhaps in quotes. -/
  | before (quote : Option Char)
  /-- In the internal subset, between declarations. -/
  | subset
  /-- In a declaration of the internal subset, perhaps in quotes. -/
  | declaration (quote : Option Char)
  | comment
  | instruction
  /-- Behind the internal subset. -/
  | after
  deriving DecidableEq, Repr

/-- The text of a document type up to its end, and the text behind it. -/
def doctypeText (place : DoctypePlace) : List Char → Option (List Char × List Char)
  | [] => none
  | c :: cs =>
    let go (place : DoctypePlace) := (doctypeText place cs).map fun p => (c :: p.1, p.2)
    match place with
    | .before (some q) => go (.before (if c = q then none else some q))
    | .before none =>
      if c = '>' then some ([], cs)
      else if c = '[' then go .subset
      else go (.before (if isQuote c then some c else none))
    | .subset =>
      if c = ']' then go .after
      else if c = '<' then
        if "!--".toList.isPrefixOf cs then go .comment
        else if "?".toList.isPrefixOf cs then go .instruction
        else go (.declaration none)
      else go .subset
    | .declaration (some q) => go (.declaration (if c = q then none else some q))
    | .declaration none =>
      if c = '>' then go .subset
      else go (.declaration (if isQuote c then some c else none))
    | .comment => if c = '-' && "->".toList.isPrefixOf cs then go (.declaration none) else go .comment
    | .instruction =>
      if c = '?' && ">".toList.isPrefixOf cs then go (.declaration none) else go .instruction
    | .after => if c = '>' then some ([], cs) else go .after

/-- A piece of a document, before tags are matched. -/
inductive Piece where
  | event (e : Event)
  | closeTag (name : List Char)
  deriving DecidableEq, Repr

/-- The text without white space at its end. -/
def trimEnd (cs : List Char) : List Char := (cs.reverse.dropWhile isSpace).reverse

/-- The name in a closing tag. White space behind it does not count, unless there is no name. -/
def closeName (cs : List Char) : List Char := if cs.all isSpace then cs else trimEnd cs

/-- A result, or the fault that there is none. -/
def orFault {α : Type} (f : Fault) : Option α → Except Fault α
  | some a => .ok a
  | none => .error f

/-- What stands behind the angle bracket and exclamation mark. -/
def declarationPiece (cs : List Char) : Except Fault (Piece × List Char) := do
  match cs with
  | '-' :: '-' :: r =>
    let (_, rest) ← orFault .unclosedComment (splitAt "-->".toList r)
    return (.event .aside, rest)
  | '-' :: _ => throw .unclosedComment
  | '[' :: r =>
    if "CDATA[".toList.isPrefixOf r then
      let (content, rest) ← orFault .unclosedCdata (splitAt "]]>".toList (r.drop 6))
      return (.event (.cdata content), rest)
    else throw .unclosedCdata
  | c :: r =>
    if c = 'D' || c = 'd' then
      let (content, rest) ← orFault .unclosedDoctype (doctypeText (.before none) r)
      if (content.take 6).map Char.toUpper ≠ "OCTYPE".toList then throw .unclosedDoctype
      else if (content.drop 6).all isSpace then throw .missingDoctypeName
      else return (.event .aside, rest)
    else throw .unknownMarkup
  | [] => throw .unknownMarkup

/-- What stands behind the angle bracket and question mark. -/
def instructionPiece (cs : List Char) : Except Fault (Piece × List Char) := do
  -- only the wording of the fault depends on it
  let isDeclaration := match cs with
    | 'x' :: 'm' :: 'l' :: r => r.head?.all fun c => isSpace c || c == '?'
    | _ => false
  match cs with
  | '>' :: _ => throw .unclosedInstruction
  | _ =>
    let (_, rest) ← orFault (if isDeclaration then .unclosedDeclaration else .unclosedInstruction)
      (splitAt "?>".toList cs)
    return (.event .aside, rest)

/-- What stands behind an angle bracket. -/
def markupPiece (cs : List Char) : Except Fault (Piece × List Char) := do
  match cs with
  | '!' :: r => declarationPiece r
  | '?' :: r => instructionPiece r
  | '/' :: r =>
    let (content, rest) ← tagText none r
    return (.closeTag (closeName content), rest)
  | _ =>
    let (content, rest) ← tagText none cs
    match content.getLast? with
    | some '/' => return (.event (.empty (Tag.ofText content.dropLast)), rest)
    | _ => return (.event (.start (Tag.ofText content)), rest)

def inText (c : Char) : Bool := c != '<' && c != '&'

/-- The first piece of a text that does not begin with white space. -/
def piece (c : Char) (cs : List Char) : Except Fault (Piece × List Char) := do
  if c = '<' then markupPiece cs
  else if c = '&' then
    match cs.dropWhile fun c => inText c && c != ';' with
    | ';' :: rest =>
      return (.event (.reference (cs.takeWhile fun c => inText c && c != ';')), rest)
    | _ => throw .unclosedReference
  else return (.event (.text (trimEnd (c :: cs.takeWhile inText))), cs.dropWhile inText)

/-! ## Every piece is shorter than what it is read from -/

theorem length_of_splitAt {mark : List Char} {cs a b : List Char}
    (h : splitAt mark cs = some (a, b)) : b.length ≤ cs.length := by
  induction cs generalizing a with
  | nil => simp [splitAt] at h
  | cons c cs ih =>
    rw [splitAt] at h
    split at h
    · cases h; simp only [List.length_drop]; omega
    · obtain ⟨p, hp, hab⟩ := Option.map_eq_some_iff.1 h
      cases hab
      exact Nat.le_succ_of_le (ih hp)

theorem length_of_tagText {quote : Option Char} {cs a b : List Char}
    (h : tagText quote cs = .ok (a, b)) : b.length ≤ cs.length := by
  have step : ∀ {c : Char} {cs a b : List Char} {x : Except Fault (List Char × List Char)},
      (∀ a, x = .ok (a, b) → b.length ≤ cs.length) →
      (do let (content, rest) ← x; return (c :: content, rest)) = Except.ok (a, b) →
      b.length ≤ (c :: cs).length := by
    intro c cs a b x ih h
    cases x with
    | error e => cases h
    | ok p =>
      obtain ⟨p, r⟩ := p
      cases h
      exact Nat.le_succ_of_le (ih p rfl)
  induction cs generalizing quote a with
  | nil => simp [tagText] at h
  | cons c cs ih =>
    rw [tagText.eq_def] at h
    simp only at h
    split at h
    · exact step (fun _ h => ih h) h
    · split at h
      · cases h; simp
      · exact step (fun _ h => ih h) h

theorem length_of_doctypeText {place : DoctypePlace} {cs a b : List Char}
    (h : doctypeText place cs = some (a, b)) : b.length ≤ cs.length := by
  induction cs generalizing place a with
  | nil => simp [doctypeText] at h
  | cons c cs ih =>
    have go : ∀ {place a}, (doctypeText place cs).map (fun p => (c :: p.1, p.2)) = some (a, b) →
        b.length ≤ (c :: cs).length := by
      intro place a h
      obtain ⟨p, hp, hab⟩ := Option.map_eq_some_iff.1 h
      cases hab
      exact Nat.le_succ_of_le (ih hp)
    rw [doctypeText.eq_def] at h
    simp only at h
    repeat' split at h
    all_goals first
      | exact go h
      | cases h; simp

theorem ok_of_orFault {α : Type} {f : Fault} {x : Option α} {a : α} (h : orFault f x = .ok a) :
    x = some a := by
  cases x <;> simp_all [orFault]

theorem bind_ok {ε α β : Type} {x : Except ε α} {f : α → Except ε β} {b : β}
    (h : (x >>= f) = .ok b) : ∃ a, x = .ok a ∧ f a = .ok b := by
  cases x with
  | error e => cases h
  | ok a => exact ⟨a, rfl, h⟩

theorem length_of_declarationPiece {cs b : List Char} {p : Piece}
    (h : declarationPiece cs = .ok (p, b)) : b.length ≤ cs.length := by
  unfold declarationPiece at h
  split at h
  · obtain ⟨⟨x, y⟩, hx, h⟩ := bind_ok h
    cases h
    have := length_of_splitAt (ok_of_orFault hx)
    simp only [List.length_cons]; omega
  · cases h
  · split at h
    · obtain ⟨⟨x, y⟩, hx, h⟩ := bind_ok h
      cases h
      have := length_of_splitAt (ok_of_orFault hx)
      simp only [List.length_cons, List.length_drop] at this ⊢; omega
    · cases h
  · split at h
    · obtain ⟨⟨x, y⟩, hx, h⟩ := bind_ok h
      have := length_of_doctypeText (ok_of_orFault hx)
      simp only at h
      split at h
      · cases h
      · split at h
        · cases h
        · cases h; simp only [List.length_cons]; omega
    · cases h
  · cases h

theorem length_of_instructionPiece {cs b : List Char} {p : Piece}
    (h : instructionPiece cs = .ok (p, b)) : b.length ≤ cs.length := by
  unfold instructionPiece at h
  simp only at h
  split at h
  · cases h
  · obtain ⟨⟨x, y⟩, hx, h⟩ := bind_ok h
    cases h
    exact length_of_splitAt (ok_of_orFault hx)

theorem length_of_markupPiece {cs b : List Char} {p : Piece}
    (h : markupPiece cs = .ok (p, b)) : b.length ≤ cs.length := by
  unfold markupPiece at h
  split at h
  · exact Nat.le_succ_of_le (length_of_declarationPiece h)
  · exact Nat.le_succ_of_le (length_of_instructionPiece h)
  · obtain ⟨⟨x, y⟩, hx, h⟩ := bind_ok h
    cases h
    exact Nat.le_succ_of_le (length_of_tagText hx)
  · obtain ⟨⟨x, y⟩, hx, h⟩ := bind_ok h
    simp only at h
    split at h <;> (cases h; exact length_of_tagText hx)

theorem length_of_piece {c : Char} {cs b : List Char} {p : Piece}
    (h : piece c cs = .ok (p, b)) : b.length ≤ cs.length := by
  unfold piece at h
  split at h
  · exact length_of_markupPiece h
  · split at h
    · split at h
      · rename_i rest heq
        cases h
        have := length_dropWhile_le (fun c => inText c && c != ';') cs
        simp only [heq, List.length_cons] at this
        omega
      · cases h
    · cases h
      exact length_dropWhile_le _ _

/-! ## Documents -/

/-- The document behind some open tags, whose names stand innermost first. -/
def documentFrom (opened : List (List Char)) (cs : List Char) : Document :=
  match _h₀ : cs.dropWhile isSpace with
  | [] => .ended
  | c :: r =>
    match h₁ : piece c r with
    | .error f => .failed f
    | .ok (.event e, rest) =>
      let opened := match e with
        | .start tag => tag.name.toList :: opened
        | _ => opened
      .cons e (documentFrom opened rest)
    | .ok (.closeTag name, rest) =>
      match opened with
      | [] => .failed (.unmatchedEnd (String.ofList name))
      | expected :: opened =>
        if name = expected then .cons .close (documentFrom opened rest)
        else .failed (.mismatchedEnd (String.ofList expected) (String.ofList name))
termination_by cs.length
decreasing_by
  all_goals
    have e₀ := length_dropWhile_le isSpace cs
    have e₁ := length_of_piece h₁
    simp only [_h₀, List.length_cons] at e₀
    omega

/-- A document from its text. A byte order mark at its beginning does not count. -/
def Document.ofText (s : String) : Document :=
  match s.toList with
  | '\ufeff' :: cs => documentFrom [] cs
  | cs => documentFrom [] cs

end Courier.Xml
