import Courier.Text.Blank

/-!
Declared types as shapes. Two spellings are understood and may be mixed: the short one, `[T]` and
`T?`, and the generic one, `Vec<T>` and `Option<T>`. White space does not count.
-/
namespace Courier

/-- The shape of a declared type. -/
inductive TypeShape where
  | bare (name : String)
  | array (inner : TypeShape)
  | optional (inner : TypeShape)
  /-- Text outside the grammar, kept as it is written. -/
  | foreign (text : String)
  deriving DecidableEq, Repr

/-- How a shape is spelled. -/
inductive Spelling where
  | short
  | generic
  deriving DecidableEq, Repr

/-- Text with an angle bracket is in the generic spelling. -/
def Spelling.detect (text : String) : Spelling :=
  if text.toList.contains '<' then .generic else .short

/-- May the character begin a plain identifier? -/
def isNameStart (c : Char) : Bool := c.isAlpha || c == '_'

/-- A plain identifier: an ASCII letter or underscore, then letters, digits and underscores. -/
def isPlainName : List Char → Bool
  | [] => false
  | c :: cs => isNameStart c && cs.all fun c => c.isAlphanum || c == '_'

/-- A text without the words it begins and ends with. -/
def between (front back : List Char) (cs : List Char) : Option (List Char) :=
  if front.isPrefixOf cs then
    let r := cs.drop front.length
    if back.isSuffixOf r then some (r.take (r.length - back.length)) else none
  else none

theorem length_of_between {front back cs r : List Char} (h : between front back cs = some r) :
    r.length + front.length + back.length ≤ cs.length := by
  unfold between at h
  split at h
  · rename_i hf
    simp only at h
    split at h
    · rename_i hb
      cases h
      have hf' := (List.isPrefixOf_iff_prefix.1 hf).length_le
      have hb' := (List.isSuffixOf_iff_suffix.1 hb).length_le
      simp only [List.length_take, List.length_drop] at hb' ⊢
      omega
    · cases h
  · cases h

/-- The shape that a text without white space spells. -/
def shapeOf (cs : List Char) : Option TypeShape :=
  match _h₁ : between [] ['?'] cs with
  | some inner => (shapeOf inner).map .optional
  | none =>
    match _h₂ : between ['['] [']'] cs with
    | some inner => (shapeOf inner).map .array
    | none =>
      match _h₃ : between "Option<".toList ['>'] cs with
      | some inner => (shapeOf inner).map .optional
      | none =>
        match _h₄ : between "Vec<".toList ['>'] cs with
        | some inner => (shapeOf inner).map .array
        | none => if isPlainName cs then some (.bare (String.ofList cs)) else none
termination_by cs.length
decreasing_by
  · have := length_of_between _h₁; simp at this; omega
  · have := length_of_between _h₂; simp at this; omega
  · have := length_of_between _h₃; simp at this; omega
  · have := length_of_between _h₄; simp at this; omega

namespace TypeShape

/-- The shape of a declared type. Text of which any part is not understood is kept whole. -/
def parse (text : String) : TypeShape :=
  (shapeOf (text.toList.filter fun c => !Text.isBlank c)).getD (.foreign text)

/-- The name at the bottom of a shape. -/
def baseName : TypeShape → Option String
  | .bare name => some name
  | .array inner | .optional inner => inner.baseName
  | .foreign _ => none

/-- The shape over another name. -/
def withBaseName (name : String) : TypeShape → TypeShape
  | .bare _ => .bare name
  | .array inner => .array (inner.withBaseName name)
  | .optional inner => .optional (inner.withBaseName name)
  | .foreign text => .foreign text

def render (s : Spelling) : TypeShape → String
  | .bare name => name
  | .foreign text => text
  | .array inner =>
    match s with
    | .short => "[" ++ inner.render s ++ "]"
    | .generic => "Vec<" ++ inner.render s ++ ">"
  | .optional inner =>
    match s with
    | .short => inner.render s ++ "?"
    | .generic => "Option<" ++ inner.render s ++ ">"

end TypeShape

end Courier
