import Courier.Code.Format.Stmt

/-! The layout of items. -/
namespace Courier.Code.Format
open Docs

/-! ## Requirements and parameters -/

/-- Requirements on lines of their own. -/
def requirementLines (last : Docs) : List Docs → Docs
  | [] => []
  | [d] => d ++ last
  | d :: ds => d ++ word "," ++ gap .hard ++ requirementLines last ds

/-- Requirements in front of the body of an item, or a blank if there are none. -/
def requirements (clause : Piece) : Docs :=
  match Piece.eachDocs (clause.parts.drop 1) with
  | [] => word " "
  | ds => gap Gap.hard.closing ++ word "where" ++ gap .hard ++
      requirementLines (word "," ++ gap Gap.hard.closing) ds

/-- Requirements of an item without a body, with the semicolon at its end. -/
def requirementsEnd (clause : Piece) : Docs :=
  match Piece.eachDocs (clause.parts.drop 1) with
  | [] => word ";"
  | ds => gap Gap.hard.closing ++ word "where" ++ gap .hard ++ requirementLines (word ";") ds

/-- Requirements in front of a definition, in its line if they fit. -/
def inlineRequirements (clause : Piece) : Docs :=
  match Piece.eachDocs (clause.parts.drop 1) with
  | [] => word " "
  | ds => gap Gap.space.closing ++ word "where" ++ gap .space ++
      commas Gap.space.withComma.closing ds

/-- Requirements behind a definition, with the semicolon at its end. -/
def inlineRequirementsEnd (clause : Piece) : Docs :=
  match Piece.eachDocs (clause.parts.drop 1) with
  | [] => word ";"
  | ds => gap Gap.space.closing ++ word "where" ++ gap .space ++ ends ds
where
  ends : List Docs → Docs
    | [] => []
    | [d] => d ++ word ";"
    | d :: ds => d ++ word "," ++ gap .space ++ ends ds

def parameterList (parameters : Piece) : Docs :=
  match (Piece.elements parameters.parts).filter fun p => !p.isSign "<" && !p.isSign ">" with
  | [] => []
  | ps => word "<" ++ list 0 (ps.map Piece.docs) ++ word ">"

/-! ## Functions -/

/-- The inputs of a function. No comma follows dots. -/
def inputDocs (ps : List Piece) : Docs :=
  let inputs := Piece.elements ps
  match inputs.getLast? with
  | some last =>
    if last.isKind .variadic then
      tall 0 (gap .soft ++ (inputs.dropLast.flatMap fun p => p.docs ++ word "," ++ gap .space) ++
        last.docs ++ gap Gap.soft.closing)
    else list 0 (inputs.map Piece.docs)
  | none => []

/-- A function's signature, with its requirements. -/
def signatureDocs : List Piece → Option (Docs × Piece)
  | [const, async, unsafe', convention, _, name, parameters, inputs, result, clause] =>
    some (const.spaced ++ async.spaced ++ unsafe'.spaced ++
      convention.parts.flatMap Piece.spaced ++ word "fn " ++ name.docs ++
      parameterList parameters ++ word "(" ++ gap .glue ++ inputDocs inputs.parts ++ word ")" ++
      (if result.isAbsent then [] else tall (-Gap.step) result.docs), clause)
  | _ => none

def functionDocs (visibility modifier signature body : Piece) : Option Docs :=
  (signatureDocs signature.parts).map fun (head, clause) =>
    let start := visibility.docs ++ modifier.spaced ++ head
    tall Gap.step (if body.isKind .block then
        start ++ requirements clause ++ word "\x7b" ++ toBrace (lines (contentOf body))
      else start ++ requirementsEnd clause)

def functionRule : FormatRule
  | .functionItem, [attributes, visibility, modifier, signature, body], _ =>
    (functionDocs visibility modifier signature body).map (attributes.docs ++ ·)
  | .input, [attributes, p, _, type], _ =>
    some (attributes.docs ++ p.docs ++ word ": " ++ type.typeDocs)
  | .input, [attributes, p], _ => some (attributes.docs ++ p.docs)
  | .receiver, mark :: life :: mut' :: self :: type, _ =>
    some (mark.docs ++ life.spaced ++ mut'.spaced ++ self.docs ++ match type with
      | [_, type] => word ": " ++ type.typeDocs
      | _ => [])
  | _, _, _ => none

/-! ## Structs, enums and unions -/

/-- Named fields on lines of their own, up to the closing brace. -/
def fieldLines (fields : List Piece) : Docs :=
  toBrace ((Piece.eachDocs fields).flatMap fun d => d ++ word "," ++ gap .hard)

/-- Fields by position. -/
def plainFields (fields : List Piece) : Docs :=
  let content := match Piece.eachDocs fields with
    | [] => gap Gap.soft.closing
    | ds => gap .soft ++ commas Gap.soft.withComma.closing ds
  word "(" ++ content ++ word ")"

/-- The fields of a variant. -/
def variantFields (fields : Piece) : Docs :=
  match fields.parts with
  | [group] =>
    match group.tree, Piece.eachDocs group.parts with
    | .group .paren _, _ => tall Gap.step (plainFields group.parts)
    | _, [] => word " \x7b\x7d"
    | _, ds => word " \x7b" ++
        tall Gap.step (gap .space ++ commas Gap.space.withComma.closing ds) ++ word "\x7d"
  | _ => []

/-- Structs, enums and unions, and what they consist of. -/
def dataRule : FormatRule
  | .structItem, [attributes, visibility, _, name, parameters, clause, fields, later, _], _ =>
    let head := visibility.docs ++ word "struct " ++ name.docs ++ parameterList parameters
    some (attributes.docs ++ tall Gap.step (head ++ match fields.parts with
      | [group] =>
        match group.tree with
        | .group .paren _ => plainFields group.parts ++ requirementsEnd later
        | _ => requirements clause ++ word "\x7b" ++ fieldLines group.parts
      | _ => requirementsEnd clause))
  | .unionItem, [attributes, visibility, _, name, parameters, clause, fields], _ =>
    some (attributes.docs ++ tall Gap.step (visibility.docs ++ word "union " ++ name.docs ++
      parameterList parameters ++ requirements clause ++ word "\x7b" ++
      fieldLines (fields.parts.flatMap Piece.parts)))
  | .enumItem, [attributes, visibility, _, name, parameters, clause, variants], _ =>
    some (attributes.docs ++ tall Gap.step (visibility.docs ++ word "enum " ++ name.docs ++
      parameterList parameters ++ requirements clause ++ word "\x7b" ++ fieldLines variants.parts))
  | .variant, attributes :: name :: fields :: value, _ =>
    some (attributes.docs ++ name.docs ++ variantFields fields ++ match value with
      | [_, e] => word " = " ++ e.docs
      | _ => [])
  | .field, [attributes, visibility, type], _ =>
    some (attributes.docs ++ visibility.docs ++ type.typeDocs)
  | .field, [attributes, visibility, name, _, type], _ =>
    some (attributes.docs ++ visibility.docs ++ name.docs ++ word ": " ++ type.typeDocs)
  | _, _, _ => none

/-! ## Constants and aliases -/

/-- What a name stands for, up to the semicolon. -/
def definition : List Piece → Docs
  | mark :: value :: _ => if mark.isSign "=" then word " = " ++ gap .glue ++ value.docs else []
  | _ => []

/-- A type alias from its requirements on. -/
def aliasEnd (clause : Piece) : List Piece → Docs
  | [_, type, later, _] =>
    inlineRequirements clause ++ word "= " ++ gap .glue ++ wide (-Gap.step) type.typeDocs ++
      inlineRequirementsEnd later
  | [later, _] => inlineRequirementsEnd later
  | _ => word ";"

def aliasRule : FormatRule
  | .constItem,
      attributes :: visibility :: modifier :: _ :: name :: parameters :: _ :: type :: value, _ =>
    some (attributes.docs ++ tall 0 (visibility.docs ++ modifier.spaced ++ word "const " ++
      name.docs ++ parameterList parameters ++ word ": " ++ type.typeDocs ++ definition value ++
      word ";"))
  | .staticItem, attributes :: visibility :: _ :: _ :: mut' :: name :: _ :: type :: value, _ =>
    some (attributes.docs ++ tall 0 (visibility.docs ++ word "static " ++ mut'.spaced ++
      name.docs ++ word ": " ++ type.typeDocs ++ definition value ++ word ";"))
  | .typeItem,
      attributes :: visibility :: modifier :: _ :: name :: parameters :: bs :: clause :: ps, _ =>
    let sum := bounds bs.parts
    some (attributes.docs ++ tall Gap.step (visibility.docs ++ modifier.spaced ++ word "type " ++
      name.docs ++ parameterList parameters ++
      (if sum.isEmpty then [] else word ":" ++ boundDocs sum) ++ aliasEnd clause ps))
  | .aliasItem, attributes :: visibility :: _ :: name :: parameters :: _ :: ps, _ =>
    let sum := bounds (ps.take (ps.length - 2))
    let clause := ps.drop (ps.length - 2) |>.take 1
    some (attributes.docs ++ tall Gap.step (visibility.docs ++ word "trait " ++ name.docs ++
      parameterList parameters ++ word " = " ++ gap .glue ++ sumLines sum ++
      clause.flatMap requirementsEnd))
  | _, _, _ => none
where
  sumLines : List Docs → Docs
    | [] => []
    | b :: bs => b ++ bs.flatMap fun b => gap .space ++ word "+ " ++ b

/-! ## Traits and implementations -/

def traitRule : FormatRule
  | .traitItem, [attributes, visibility, unsafe', auto, _, name, parameters, supers, clause, body],
      _ =>
    let sum := bounds supers.parts
    some (attributes.docs ++ tall Gap.step (visibility.docs ++ unsafe'.spaced ++ auto.spaced ++
      word "trait " ++ name.docs ++ parameterList parameters ++
      (if sum.isEmpty then [] else word ": " ++ joined " + " sum) ++ requirements clause ++
      word "\x7b" ++ toBrace (lines body.parts)))
  | .implItem, [attributes, modifier, unsafe', _, parameters, negative, trait, for', self, clause,
      body], _ =>
    let start := tall Gap.step
      (modifier.spaced ++ unsafe'.spaced ++ word "impl" ++ parameterList parameters)
    let subject := if for'.isAbsent then self.typeDocs
      else negative.docs ++ trait.typeDocs ++ gap .space ++ word "for " ++ self.typeDocs
    some (attributes.docs ++ tall Gap.step (wide (-Gap.step) (start ++ word " " ++ subject) ++
      requirements clause ++ word "\x7b" ++ toBrace (lines body.parts)))
  | _, _, _ => none

/-! ## Modules and imports -/

/-- The trees of a group of imports. Each fills the line behind the last one, but a group of its
own ends it. -/
def importLines : List Piece → Docs
  | [] => []
  | [p] => p.docs
  | p :: ps => p.docs ++ word "," ++ gap (if endsInGroup p.tree then .hard else .space) ++
      importLines ps
where
  endsInGroup : Tree → Bool
    | .node .importPath [_, _, t] => endsInGroup t
    | t => t.isKind .importGroup

/-- Modules, imports, foreign modules and macros. -/
def moduleRule : FormatRule
  | .moduleItem, [attributes, visibility, unsafe', _, name, body], _ =>
    some (attributes.docs ++ tall Gap.step (visibility.docs ++ unsafe'.spaced ++ word "mod " ++
      name.docs ++
      if body.isSign ";" then word ";" else word " \x7b" ++ toBrace (lines body.parts)))
  | .foreignItem, [attributes, unsafe', convention, body], _ =>
    some (attributes.docs ++ tall Gap.step (unsafe'.spaced ++
      convention.parts.flatMap Piece.spaced ++ word "\x7b" ++ toBrace (lines body.parts)))
  | .externCrateItem, attributes :: visibility :: _ :: _ :: name :: renamed, _ =>
    some (attributes.docs ++ visibility.docs ++ word "extern crate " ++ name.docs ++
      match renamed with
      | [_, other, _] => word " as " ++ other.docs ++ word ";"
      | _ => word ";")
  | .useItem, [attributes, visibility, _, lead, names, _], _ =>
    some (attributes.docs ++ visibility.docs ++ word "use " ++
      (if lead.isAbsent then [] else lead.docs) ++ names.docs ++ word ";")
  | .importPath, [name, _, t], _ => some (name.docs ++ word "::" ++ t.docs)
  | .importAlias, [name, _, other], _ => some (name.docs ++ word " as " ++ other.docs)
  | .importGroup, [group], _ =>
    some (word "\x7b" ++ tall Gap.step (gap .soft ++
      wide 0 (importLines (Piece.elements group.parts)) ++ gap Gap.soft.withComma.closing) ++
      word "\x7d")
  | .macroItem, attributes :: path :: _ :: name :: body :: semi, _ =>
    some (attributes.docs ++ match name.isAbsent, path.tree, body.tokens with
      | false, .node .path [.node .segment [.token (.ident "macro_rules")]], [.group _ rules] =>
        word "macro_rules! " ++ name.docs ++ word " \x7b" ++
          indented (ruleLines rules)
      | _, _, body =>
        path.layout .name ++ word "!" ++
          (if name.isAbsent then [] else word " " ++ name.docs) ++ callDocs body ++
          Piece.rowDocs semi)
  | _, _, _ => none

end Courier.Code.Format
