/-! Models that passed extraction: their fields, and the nested names that convert. -/
namespace Courier

/-- The name of the transfer type of a model. -/
def transferName (model : String) : String := model ++ "DTO"

/-- A stored field with the text of its type. -/
structure Field where
  name : String
  type : String
  deriving DecidableEq, Repr

/-- Names in the order in which they were first given, none of them twice. -/
structure NestedNames where
  toList : List String
  nodup : toList.Nodup
  deriving DecidableEq, Repr

namespace NestedNames

def empty : NestedNames := ⟨[], List.nodup_nil⟩

/-- A name is kept only if it is new. -/
def insert (n : NestedNames) (name : String) : NestedNames :=
  if h : name ∈ n.toList then n
  else ⟨n.toList ++ [name], by
    rw [List.nodup_append]
    refine ⟨n.nodup, by simp, ?_⟩
    intro a ha b hb
    simp only [List.mem_singleton] at hb
    subst hb
    exact fun e => h (e ▸ ha)⟩

def contains (n : NestedNames) (name : String) : Bool := n.toList.contains name

def ofList (names : List String) : NestedNames := names.foldl insert empty

def size (n : NestedNames) : Nat := n.toList.length

def isEmpty (n : NestedNames) : Bool := n.toList.isEmpty

end NestedNames

/-- A model whose code can be generated. -/
structure Extracted where
  name : String
  fields : List Field
  nested : NestedNames
  deriving DecidableEq, Repr

namespace Extracted

/-- The name of the transfer type. -/
def transferName (x : Extracted) : String := Courier.transferName x.name

def field? (x : Extracted) (name : String) : Option Field := x.fields.find? (·.name == name)

end Extracted

end Courier
