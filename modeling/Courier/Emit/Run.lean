import Courier.Emit.Item
import Courier.Emit.Value

/-!
What emitted code does. Expressions are evaluated with a meaning for the functions they call; a
program gives its functions their meaning, up to a depth of calls.
-/
namespace Courier.Emit

/-- The meaning of functions: a result for their arguments, if there is one. -/
abbrev Meaning := FunctionName → List Value → Option Value

/-- Variables with their values. -/
abbrev Scope := List (String × Value)

/-- The result of a method without arguments. References are as good as what they point to, and an
iterator is as good as its elements. -/
def methodResult (name : String) (v : Value) : Option Value :=
  match name, v with
  | "clone", v => some v
  | "as_ref", .absent => some .absent
  | "as_ref", .present v => some (.present v)
  | "iter", .list vs => some (.list vs)
  | "collect", .list vs => some (.list vs)
  | _, _ => none

/-- A function on the elements of a list or an optional value. -/
def mapElements (f : Value → Option Value) : Value → Option Value
  | .absent => some .absent
  | .present v => (f v).map .present
  | .list vs => (vs.mapM f).map .list
  | _ => none

namespace Expr

def eval (meaning : Meaning) (scope : Scope) : Expr → Option Value
  | .variable name => scope.lookup name
  | .field e name => do (← eval meaning scope e).field? name
  | .borrow e => eval meaning scope e
  | .call f e => do meaning f [← eval meaning scope e]
  | .method e name => do methodResult name (← eval meaning scope e)
  | .map e f => do mapElements (fun v => meaning f [v]) (← eval meaning scope e)
  | .mapEach e x body => do
    mapElements (fun v => eval meaning ((x, v) :: scope) body) (← eval meaning scope e)

end Expr

/-- The field of a struct literal. -/
def Initializer.eval (meaning : Meaning) (scope : Scope) (i : Initializer) :
    Option (String × Value) := do
  match i.value with
  | some e => return (i.name, ← e.eval meaning scope)
  | none => return (i.name, ← scope.lookup i.name)

/-- The value of a function's body; `type` is the type that the function belongs to. -/
def Body.eval (meaning : Meaning) (type : String) (scope : Scope) : Body → Option Value
  | .expr e => e.eval meaning scope
  | .build fields => do return .record type (← fields.mapM (Initializer.eval meaning scope))

namespace Input

def name : Input → String
  | .self => "self"
  | .variable name _ => name

end Input

def Function.apply (meaning : Meaning) (type : String) (f : Function) (arguments : List Value) :
    Option Value :=
  if f.inputs.length = arguments.length then
    f.body.eval meaning type ((f.inputs.map Input.name).zip arguments)
  else none

namespace Item

/-- The functions that an item gives to a type, for a trait or for itself. -/
def functionsFor (trait : Option TraitPath) (type : String) : Item → List Function
  | .impl t type' _ functions => if t == trait && type' == type then functions else []
  | .struct .. => []

end Item

/-- The function of a name that items give to a type. -/
def function? (items : List Item) (trait : Option TraitPath) (type name : String) :
    Option Function :=
  (items.flatMap (Item.functionsFor trait type)).find? (·.name == name)

/-- The type and function that a name stands for. The function of a trait is that of the type of its
first argument. -/
def resolve (items : List Item) (arguments : List Value) :
    FunctionName → Option (String × Function)
  | .ofTrait trait name => do
    let type ← (← arguments.head?).type?
    return (type, ← function? items (some trait) type name)
  | .qualified type trait name => do return (type, ← function? items (some trait) type name)
  | .inherent type name => do return (type, ← function? items none type name)

/-- The meaning that items give to their functions, up to a depth of calls. -/
def meaningOf (items : List Item) : Nat → Meaning
  | 0 => fun _ _ => none
  | n + 1 => fun f arguments => do
    let (type, function) ← resolve items arguments f
    function.apply (meaningOf items n) type arguments

/-- The result of a function for arguments. Each level of a value takes two calls. -/
def run (items : List Item) (f : FunctionName) (arguments : List Value) : Option Value :=
  meaningOf items (2 * Value.depthList arguments + 2) f arguments

end Courier.Emit
