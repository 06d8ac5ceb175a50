import Courier.Xml.Reference

/-! Attributes of a tag, with what is malformed among them. -/
namespace Courier.Xml

/-- White space of markup. -/
def isSpace (c : Char) : Bool := c == ' ' || c == '\t' || c == '\r' || c == '\n'

/-- An attribute with its value as it is written. -/
structure Attribute where
  key : String
  raw : List Char
  deriving DecidableEq, Repr

/-- What is wrong with an attribute. -/
inductive AttributeFault where
  | missingEquals
  | unquoted
  | missingQuote
  | missingValue
  | duplicate (key : String)
  deriving DecidableEq, Repr

/-- The text in front of a quote, and the text behind it. -/
def quotedBy (quote : Char) : List Char → Option (List Char × List Char)
  | [] => none
  | c :: cs => if c = quote then some ([], cs) else (quotedBy quote cs).map fun p => (c :: p.1, p.2)

theorem length_of_quotedBy {quote : Char} {cs a b : List Char} (h : quotedBy quote cs = some (a, b)) :
    b.length < cs.length := by
  induction cs generalizing a with
  | nil => simp [quotedBy] at h
  | cons c cs ih =>
    rw [quotedBy] at h
    split at h
    · cases h; simp
    · obtain ⟨p, hp, hab⟩ := Option.map_eq_some_iff.1 h
      cases hab
      exact Nat.lt_succ_of_lt (ih hp)

def isQuote (c : Char) : Bool := c == '"' || c == '\''

/-- Is the character part of a key? Its first character always is. -/
def inKey (c : Char) : Bool := c != '=' && !isSpace c

/-- The attributes in the text of a tag behind its name. After one that is malformed reading goes
on behind the next white space; a repeated key is malformed. -/
def attributesFrom (seen : List String) (cs : List Char) :
    List (Except AttributeFault Attribute) :=
  match _h₀ : cs.dropWhile isSpace with
  | [] => []
  | k :: r =>
    let key := String.ofList (k :: r.takeWhile inKey)
    match _h₁ : (r.dropWhile inKey).dropWhile isSpace with
    | [] => [.error .missingEquals]
    | '=' :: v =>
      if seen.contains key then
        .error (.duplicate key) :: attributesFrom seen (v.dropWhile fun c => !isSpace c)
      else
        match _h₂ : v.dropWhile isSpace with
        | [] => [.error .missingValue]
        | q :: w =>
          if isQuote q then
            match _h₃ : quotedBy q w with
            | some (value, rest) => .ok ⟨key, value⟩ :: attributesFrom (key :: seen) rest
            | none => [.error .missingQuote]
          else .error .unquoted :: attributesFrom (key :: seen) (w.dropWhile fun c => !isSpace c)
    | c :: r' => .error .missingEquals :: attributesFrom seen (c :: r')
termination_by cs.length
decreasing_by
  all_goals
    have e₀ := length_dropWhile_le isSpace cs
    have e₁ := length_dropWhile_le isSpace (r.dropWhile inKey)
    have e₂ := length_dropWhile_le inKey r
    simp only [_h₀, _h₁, List.length_cons] at e₀ e₁ ⊢
  · have := length_dropWhile_le (fun c => !isSpace c) v
    omega
  · have e₃ := length_dropWhile_le isSpace v
    have e₄ := length_of_quotedBy _h₃
    simp only [_h₂, List.length_cons] at e₃
    omega
  · have e₃ := length_dropWhile_le isSpace v
    have e₄ := length_dropWhile_le (fun c => !isSpace c) w
    simp only [_h₂, List.length_cons] at e₃
    omega
  · omega

/-- A tag: its name, and the text behind the name. -/
structure Tag where
  name : String
  rest : List Char
  deriving DecidableEq, Repr

namespace Tag

/-- The tag whose text stands between the angle brackets. -/
def ofText (cs : List Char) : Tag :=
  ⟨String.ofList (cs.takeWhile fun c => !isSpace c), cs.dropWhile fun c => !isSpace c⟩

/-- The well-formed attributes of a tag. -/
def attributes (t : Tag) : List Attribute :=
  (attributesFrom [] t.rest).filterMap Except.toOption

end Tag

end Courier.Xml
