import Courier.Code.Format.Raw
import Courier.Code.Literal

/-! The layout of paths, types, attributes and visibilities. -/
namespace Courier.Code.Format
open Docs

/-! ## Paths -/

/-- Arguments between angle brackets. -/
def argumentDocs (ps : List Piece) (place : Place) : Docs :=
  let arguments := ps.filter fun p =>
    !([",", "<", ">", "::"].any fun s => p.isSign s)
  match place.style, arguments with
  | .name, _ => []
  | _, [] => []
  | style, as =>
    (if style = .type then [] else word "::") ++ word "<" ++
      list Gap.step (as.map Piece.typeDocs) ++ word ">"

/-- Bounds behind a colon, each but the first on a line of its own if they do not fit. -/
def boundDocs : List Docs → Docs
  | [] => []
  | b :: bs => word " " ++ b ++ bs.flatMap fun b => gap .space ++ word "+ " ++ b

/-- The layouts of bounds separated by plus signs. -/
def bounds (ps : List Piece) : List Docs :=
  (ps.filter fun p => !p.isSign "+" && !p.isSign ":").map Piece.typeDocs

/-- The path into a type behind its opening bracket: the type, the trait, and what follows. -/
def qualifiedDocs (ps : List Piece) (place : Place) : Docs :=
  match ps with
  | self :: as :: trait :: others =>
    if as.tree == Tree.word "as" then
      self.typeDocs ++ word " as " ++ trait.typeDocs ++ others.flatMap (·.layout place)
    else self.typeDocs ++ (as :: trait :: others).flatMap (·.layout place)
  | ps => ps.flatMap (·.layout place)

/-- A generic parameter: a lifetime, a constant or a type. -/
def parameterDocs : List Piece → Docs
  | [] => []
  | name :: ps =>
    match name.tree, ps with
    | .lifetime _, ps =>
      name.docs ++ if ps.isEmpty then [] else word ": " ++ joined " + " (bounds ps)
    | .token (.ident "const"), [name, _, type] =>
      word "const " ++ name.docs ++ word ": " ++ type.typeDocs
    | .token (.ident "const"), [name, _, type, _, default] =>
      word "const " ++ name.docs ++ word ": " ++ type.typeDocs ++ word " = " ++ default.docs
    | _, ps =>
      let given := ps.takeWhile fun p => !p.isSign "="
      let default := (ps.drop (given.length + 1)).flatMap fun p =>
        gap .space ++ word "= " ++ p.typeDocs
      name.docs ++ wide Gap.step
        ((if given.isEmpty then [] else word ":" ++ boundDocs (bounds given)) ++ default)

def pathRule : FormatRule
  | .path, ps, place => some (ps.flatMap (·.layout place))
  | .qualified, opening :: ps, place => some (opening.docs ++ qualifiedDocs ps place)
  | .segment, [name], _ => some name.docs
  | .segment, [name, arguments], place => some (name.docs ++ arguments.layout place)
  | .arguments, ps, place => some (argumentDocs ps place)
  | .constArgument, [p], _ => some p.docs
  | .bindingArgument, [name, _, value], _ =>
    some (name.typeDocs ++ word " = " ++ value.typeDocs)
  | .constraintArgument, name :: ps, _ =>
    some (name.typeDocs ++ wide Gap.step (match bounds ps with
      | [] => []
      | bs => word ":" ++ boundDocs bs))
  | .callArguments, [inputs, result], place =>
    if place.style = .name then some []
    else
      let types := (Piece.elements inputs.parts).map Piece.typeDocs
      let content := if types.isEmpty then gap Gap.soft.closing
        else gap .soft ++ commas Gap.soft.withComma.closing types
      some (tall Gap.step (word "(" ++ content ++ word ")" ++ result.docs))
  | .result, [_, type], _ => some (word " -> " ++ type.typeDocs)
  | .binder, _ :: ps, _ =>
    let names := ps.filter fun p => !p.isSign "<" && !p.isSign ">" && !p.isSign ","
    some (word "for<" ++ joined ", " (names.map Piece.docs) ++ word "> ")
  | .parameter, attributes :: ps, _ => some (attributes.docs ++ parameterDocs ps)
  | .bound, [inner], _ =>
    some (word "(" ++ inner.parts.flatMap Piece.typeDocs ++ word ")")
  | .bound, [lifetimes, mark, question, inner, path, arguments], _ =>
    some (lifetimes.docs ++ mark.spaced ++ question.docs ++ inner.docs ++ path.typeDocs ++
      arguments.typeDocs)
  | .captured, _ :: _ :: ps, _ =>
    let names := ps.filter fun p => !p.isSign ">" && !p.isSign ","
    some (word "use<" ++ joined ", " (names.map Piece.docs) ++ word ">")
  | .predicate, lifetimes :: type :: _ :: ps, _ =>
    let bs := bounds ps
    let indent := match type.tree, bs with
      | .lifetime _, _ => Gap.step
      | _, [_] => 0
      | _, _ => Gap.step
    some (lifetimes.docs ++ type.typeDocs ++ word ":" ++ wide indent (boundDocs bs))
  | _, _, _ => none

/-! ## Types -/

/-- Bounds of a type in one line. -/
def sumDocs (ps : List Piece) : Docs := joined " + " (bounds ps)

def typeRule : FormatRule
  | .pathType, [p], _ => some p.typeDocs
  | .groupType, [group], _ => some (group.parts.flatMap Piece.typeDocs)
  | .tupleType, [group], _ =>
    some (word "(" ++ tuple ((Piece.elements group.parts).map Piece.typeDocs) ++ word ")")
  | .parenType, [group], _ =>
    some (word "(" ++ group.parts.flatMap Piece.typeDocs ++ word ")")
  | .sliceType, [group], _ =>
    some (word "[" ++ group.parts.flatMap Piece.typeDocs ++ word "]")
  | .arrayType, [group], _ =>
    match group.parts with
    | [type, _, length] =>
      some (word "[" ++ type.typeDocs ++ word "; " ++ length.docs ++ word "]")
    | _ => none
  | .pointerType, [_, kind, type], _ => some (word "*" ++ kind.spaced ++ type.typeDocs)
  | .referenceType, [_, life, mut', type], _ =>
    some (word "&" ++ life.spaced ++ mut'.spaced ++ type.typeDocs)
  | .neverType, [mark], _ => some mark.docs
  | .inferType, [mark], _ => some mark.docs
  | .objectType, _ :: bs, _ => some (word "dyn " ++ sumDocs bs)
  | .implType, _ :: bs, _ => some (word "impl " ++ sumDocs bs)
  | .macroType, [path, _, body], _ =>
    some (path.layout .name ++ word "!" ++ callDocs body.tokens)
  | .functionType, [lifetimes, unsafe', convention, _, inputs, result], _ =>
    let arguments := inputs.parts.filter fun p => !p.tree.isComma
    let content := match arguments.getLast? with
      | some last =>
        if last.tree.isKind .variadic then
          tall Gap.step (gap .soft ++
            (arguments.dropLast.flatMap fun p => p.docs ++ word "," ++ gap .space) ++
            last.docs ++ gap Gap.soft.closing)
        else list Gap.step (arguments.map Piece.docs)
      | none => []
    some (lifetimes.docs ++ unsafe'.spaced ++ convention.parts.flatMap Piece.spaced ++
      word "fn(" ++ content ++ word ")" ++ result.docs)
  | .functionArgument, ps, _ => some (argument ps)
  | .variadic, ps, _ => some (argument (ps.filter fun p => !p.tree.isComma))
  | _, _, _ => none
where
  argument : List Piece → Docs
    | [] => []
    | p :: ps =>
      (if p.isSign ":" then word ": " else p.typeDocs) ++ argument ps

/-! ## Attributes and visibilities -/

/-- The text that an attribute of a name has as its value. -/
def textOf (name : String) (path value : Piece) : Option String :=
  if path.tree == .node .path [.node .segment [Tree.word name]] then
    match value.tree with
    | .node .literalExpr [.token (.literal text)] => stringValue? text
    | _ => none
  else none

def trimBlanks (cs : List Char) : List Char := (cs.reverse.dropWhile (· == ' ')).reverse

/-- The lines of a text without the blanks at their ends; the last line keeps them. -/
def trimLines (text : String) : String :=
  let rec go : List String → List String
    | [] => []
    | [l] => [l]
    | l :: ls => String.ofList (trimBlanks l.toList) :: go ls
  "\n".intercalate (go (text.splitOn "\n"))

/-- Are the beginnings and ends of comments in a text balanced? -/
def isBalanced (depth : Nat) : List Char → Bool
  | '/' :: '*' :: cs => isBalanced (depth + 1) cs
  | '*' :: '/' :: cs => if depth = 0 then false else isBalanced (depth - 1) cs
  | _ :: cs => isBalanced depth cs
  | [] => depth == 0

/-- Can a text stand between the marks of a comment? A slash at its end would open another one. -/
def fitsComment (cs : List Char) : Bool := isBalanced 0 cs && cs.getLast? != some '/'

/-- A text as a comment, if it can be one. -/
def commentDocs (line block : String) (refusedLine refusedBlock : List Char) (text : String) :
    Option Docs :=
  let starts (cs : List Char) := text.toList.head?.any (cs.contains ·)
  let isLine := !text.toList.contains '\n'
  if isLine && !starts refusedLine then
    some (word line ++ word (String.ofList (trimBlanks text.toList)) ++ gap .hard)
  else if !isLine && fitsComment text.toList && !starts refusedBlock then
    some (word block ++ word (trimLines text) ++ word "*/" ++ gap .hard)
  else none

/-- An attribute that holds a comment. -/
def attributeComment (outer : Bool) (content : Piece) : Option Docs :=
  match content.tree.kind?, content.parts with
  | some .metaValue, [path, _, value] =>
    match textOf "doc" path value with
    | some text =>
      if outer then commentDocs "///" "/**" ['/'] ['*', '/'] text
      else commentDocs "//!" "/*!" [] [] text
    | none =>
      match textOf "comment" path value with
      | some text => commentDocs "//" "/*" [] ['*', '!'] text
      | none => none
  | _, _ => none

def attributeRule : FormatRule
  | .attributes, ps, _ => some (Piece.rowDocs ps)
  | .attributeMark, [_, group], _ => some (around true "#" group)
  | .attributeMark, [_, _, group], _ => some (around false "#!" group)
  | .metaPath, [path], _ => some (path.layout .name)
  | .metaList, [path, body], _ =>
    some (path.layout .name ++ (attributeTokens .afterMark body.tokens).1)
  | .metaValue, [path, _, value], _ => some (path.layout .name ++ word " = " ++ value.docs)
  | .visibility, [], _ => some []
  | .visibility, [pub], _ => some (pub.docs ++ word " ")
  | .visibility, [_, group], _ =>
    match group.parts with
    | [name] => some (word "pub(" ++ name.docs ++ word ") ")
    | [_, path] =>
      let plain := ["self", "super", "crate"].any fun w =>
        path.tree == .node .path [.node .segment [Tree.word w]]
      some (word (if plain then "pub(" else "pub(in ") ++ path.layout .name ++ word ") ")
    | _ => none
  | _, _, _ => none
where
  around (outer : Bool) (mark : String) (group : Piece) : Docs :=
    match group.parts with
    | [content] =>
      match attributeComment outer content with
      | some ds => ds
      | none => word (mark ++ "[") ++ content.docs ++ word "]" ++ gap .space
    | ps => word (mark ++ "[") ++ Piece.rowDocs ps ++ word "]" ++ gap .space

end Courier.Code.Format
