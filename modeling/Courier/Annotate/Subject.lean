import Courier.Code.Grammar
import Courier.Model.Declaration

/-! The declaration that an annotated item makes. -/
namespace Courier.Annotate
open Code

/-! ## The type itself -/

/-- Is the tree the name by which a type refers to itself? -/
def isSelf (t : Code.Tree) : Bool :=
  t == .node .pathType [.node .path [.node .segment [Code.Tree.word "Self"]]]

/-- Forms that are kept as they are written. -/
def isFixed : Code.Tree → Bool
  | .token (.ident name) => name == "mut" || name == "dyn"
  | _ => false

mutual
/-- A type with the name of a struct in place of `Self`, wherever that is a type of its own. -/
def resolveSelf (name : Code.Tree) : Code.Tree → Code.Tree
  | .node .pathType ps =>
    if isSelf (.node .pathType ps) then .node .pathType [.node .path [.node .segment [name]]]
    else .node .pathType (resolveEach name ps)
  -- a receiver in a function type and an object type by pointer have no types to look into
  | .node .raw ps =>
    if ps.head?.any isFixed then .node .raw ps else .node .raw (resolveEach name ps)
  | .node k ps => .node k (resolveEach name ps)
  | .group d ps => .group d (resolveEach name ps)
  | t => t

def resolveEach (name : Code.Tree) : List Code.Tree → List Code.Tree
  | [] => []
  | t :: ts => resolveSelf name t :: resolveEach name ts
end

/-! ## Items -/

/-- The named fields of a struct as members. -/
def membersOf (name : Code.Tree) (fields : List Code.Tree) : List Member :=
  fields.filterMap fun
    | .node .field [_, _, field, _, type] =>
      some (.stored field.text (some (resolveSelf name type).text))
    | _ => none

/-- The kind and name of an item, and its members if it is a struct with named fields. -/
def declarationOf : Code.Tree → Declaration
  | .node .structItem (_ :: _ :: _ :: name :: _ :: _ :: fields :: _) =>
    match fields with
    | .node .fields [.group .brace ps] => ⟨.struct, name.text, membersOf name ps⟩
    | .node .fields _ => ⟨.tupleStruct, name.text, []⟩
    | _ => ⟨.struct, name.text, []⟩
  | .node .enumItem (_ :: _ :: _ :: name :: _) => ⟨.enum, name.text, []⟩
  | .node .traitItem (_ :: _ :: _ :: _ :: _ :: name :: _) => ⟨.protocol, name.text, []⟩
  | .node .functionItem [_, _, _, .node .signature (_ :: _ :: _ :: _ :: _ :: name :: _), _] =>
    ⟨.function, name.text, []⟩
  | .node .unionItem (_ :: _ :: _ :: name :: _) => ⟨.union, name.text, []⟩
  | t => ⟨.item, other t, []⟩
where
  /-- The name of an item of another kind, or its text if it has none. -/
  other : Code.Tree → String
    | .node .constItem (_ :: _ :: _ :: _ :: name :: _) => name.text
    | .node .staticItem (_ :: _ :: _ :: _ :: _ :: name :: _) => name.text
    | .node .moduleItem (_ :: _ :: _ :: _ :: name :: _) => name.text
    | .node .typeItem (_ :: _ :: _ :: _ :: name :: _) => name.text
    | .node .aliasItem (_ :: _ :: _ :: name :: _) => name.text
    | .node .externCrateItem (_ :: _ :: _ :: _ :: name :: _) => name.text
    | .node .implItem [_, _, _, _, _, _, _, _, self, _, _] => self.text
    | .node .useItem [_, _, _, _, names, _] => names.text
    | .node .macroItem (_ :: path :: _ :: name :: _) =>
      if name == Code.Tree.none then path.text else name.text
    | t => t.text

def hasParameters : Code.Tree → Bool
  | .node .structItem (_ :: _ :: _ :: _ :: .node .parameters (_ :: _) :: _) => true
  | _ => false

def structVisibility? : Code.Tree → Option Code.Tree
  | .node .structItem (_ :: visibility :: _) => some visibility
  | _ => none

end Courier.Annotate
