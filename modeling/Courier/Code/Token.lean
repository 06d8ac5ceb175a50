/-! Tokens of the target language, and their text. -/
namespace Courier.Code

/-- The brackets around a group. A hidden group binds its tokens together without any. -/
inductive Delimiter where
  | paren
  | bracket
  | brace
  | hidden
  deriving DecidableEq, Repr

/-- A token tree. A punctuation mark is joint when the next one belongs to the same word. -/
inductive Token where
  | ident (name : String)
  | punct (mark : Char) (joint : Bool)
  | literal (text : String)
  | group (delimiter : Delimiter) (body : List Token)
  deriving Repr, Inhabited

abbrev Tokens := List Token

namespace Token

mutual
/-- Are two tokens the same, with all that is in them? -/
def same : Token → Token → Bool
  | .ident a, .ident b => a == b
  | .punct a i, .punct b j => a == b && i == j
  | .literal a, .literal b => a == b
  | .group d as, .group e bs => d == e && sameList as bs
  | _, _ => false

def sameList : Tokens → Tokens → Bool
  | [], [] => true
  | s :: ss, t :: ts => s.same t && sameList ss ts
  | _, _ => false
end

mutual
theorem same_iff (s t : Token) : s.same t = true ↔ s = t := by
  cases s with
  | group d ss => cases t <;> simp [same, sameList_iff ss]
  | _ => cases t <;> simp [same]

theorem sameList_iff (ss ts : Tokens) : sameList ss ts = true ↔ ss = ts := by
  cases ss with
  | nil => cases ts <;> simp [sameList]
  | cons s ss => cases ts <;> simp [sameList, same_iff s, sameList_iff ss]
end

instance : DecidableEq Token := fun s t => decidable_of_iff _ (same_iff s t)

mutual
/-- The tokens of a tree, with each group counted for itself and its content. -/
def weight : Token → Nat
  | .group _ body => weightList body + 2
  | _ => 1

def weightList : Tokens → Nat
  | [] => 0
  | t :: ts => t.weight + weightList ts
end

mutual
/-- The tokens that can be reached in a token without entering visible brackets. -/
def span : Token → Nat
  | .group .hidden body => spanList body + 1
  | _ => 1

/-- The tokens that can be reached in a stream. -/
def spanList : Tokens → Nat
  | [] => 0
  | t :: ts => t.span + spanList ts
end

mutual
/-- A token as text. Round and square brackets stand close to their content, braces do not. -/
def text : Token → String
  | .ident name => name
  | .punct mark _ => mark.toString
  | .literal text => text
  | .group .paren body => "(" ++ textList body ++ ")"
  | .group .bracket body => "[" ++ textList body ++ "]"
  | .group .brace [] => "\x7b \x7d"
  | .group .brace body => "\x7b " ++ textList body ++ " \x7d"
  | .group .hidden body => textList body

/-- A stream as text: one space between tokens, none after a joint mark. -/
def textList : Tokens → String
  | [] => ""
  | [t] => t.text
  | .punct mark true :: ts => mark.toString ++ textList ts
  | t :: ts => t.text ++ " " ++ textList ts
end

end Token

namespace Tokens

/-- The text of a token stream. -/
def text (ts : Tokens) : String := Token.textList ts

/-- Marks joined to one word. -/
def joined : List Char → Tokens
  | [] => []
  | [c] => [.punct c false]
  | c :: cs => .punct c true :: joined cs

/-- A word of the target language made of punctuation marks. -/
def sign (s : String) : Tokens := joined s.toList

/-- An identifier or keyword. -/
def word (name : String) : Tokens := [.ident name]

def lifetime (name : String) : Tokens := [.punct '\'' true, .ident name]

end Tokens

end Courier.Code
