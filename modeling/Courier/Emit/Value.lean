import Courier.Text.Quoted

/-! Values of models and transfer types, and how they are shown. -/
namespace Courier.Emit

/-- A value at run time. -/
inductive Value where
  | number (n : Int)
  | text (s : String)
  | absent
  | present (v : Value)
  | list (vs : List Value)
  /-- Texts by keys, which are in order. -/
  | table (entries : List (String × String))
  /-- A value of a struct with its fields in order. -/
  | record (type : String) (fields : List (String × Value))
  deriving Repr, Inhabited

namespace Value

mutual
/-- Are two values the same, with all that is in them? -/
def same : Value → Value → Bool
  | .number a, .number b => a == b
  | .text a, .text b => a == b
  | .absent, .absent => true
  | .present v, .present w => v.same w
  | .list vs, .list ws => sameList vs ws
  | .table a, .table b => a == b
  | .record s fs, .record t gs => s == t && sameFields fs gs
  | _, _ => false

def sameList : List Value → List Value → Bool
  | [], [] => true
  | v :: vs, w :: ws => v.same w && sameList vs ws
  | _, _ => false

def sameFields : List (String × Value) → List (String × Value) → Bool
  | [], [] => true
  | (a, v) :: fs, (b, w) :: gs => a == b && v.same w && sameFields fs gs
  | _, _ => false
end

mutual
theorem same_iff (v w : Value) : v.same w = true ↔ v = w := by
  cases v with
  | present v => cases w <;> simp [same, same_iff v]
  | list vs => cases w <;> simp [same, sameList_iff vs]
  | record _ fs => cases w <;> simp [same, sameFields_iff fs]
  | _ => cases w <;> simp [same]

theorem sameList_iff (vs ws : List Value) : sameList vs ws = true ↔ vs = ws := by
  cases vs with
  | nil => cases ws <;> simp [sameList]
  | cons v vs => cases ws <;> simp [sameList, same_iff v, sameList_iff vs]

theorem sameFields_iff (fs gs : List (String × Value)) : sameFields fs gs = true ↔ fs = gs := by
  match fs with
  | [] => cases gs <;> simp [sameFields]
  | (a, v) :: fs =>
    match gs with
    | [] => simp [sameFields]
    | (b, w) :: gs => simp [sameFields, same_iff v, sameFields_iff fs]
end

instance : DecidableEq Value := fun v w => decidable_of_iff _ (same_iff v w)

def quoted (s : String) : String := String.ofList (Text.quote s.toList)

mutual
/-- A value as it is shown. -/
def display : Value → String
  | .number n => toString n
  | .text s => quoted s
  | .absent => "None"
  | .present v => "Some(" ++ v.display ++ ")"
  | .list vs => "[" ++ displayList vs ++ "]"
  | .table entries => "\x7b" ++
      ", ".intercalate (entries.map fun e => quoted e.1 ++ ": " ++ quoted e.2) ++ "\x7d"
  | .record type [] => type
  | .record type fields => type ++ " \x7b " ++ displayFields fields ++ " \x7d"

def displayList : List Value → String
  | [] => ""
  | [v] => v.display
  | v :: vs => v.display ++ ", " ++ displayList vs

def displayFields : List (String × Value) → String
  | [] => ""
  | [(name, v)] => name ++ ": " ++ v.display
  | (name, v) :: fields => name ++ ": " ++ v.display ++ ", " ++ displayFields fields
end

mutual
def depth : Value → Nat
  | .present v => v.depth + 1
  | .list vs => depthList vs + 1
  | .record _ fields => depthFields fields + 1
  | _ => 0

def depthList : List Value → Nat
  | [] => 0
  | v :: vs => max v.depth (depthList vs)

def depthFields : List (String × Value) → Nat
  | [] => 0
  | (_, v) :: fields => max v.depth (depthFields fields)
end

/-- An entry at its place among entries in order; it replaces one with its key. -/
def insertEntry (key text : String) : List (String × String) → List (String × String)
  | [] => [(key, text)]
  | e :: es =>
    if key < e.1 then (key, text) :: e :: es
    else if key = e.1 then (key, text) :: es
    else e :: insertEntry key text es

/-- The table of some entries. The last entry of a key counts. -/
def ofEntries (entries : List (String × String)) : Value :=
  .table (entries.foldl (fun es e => insertEntry e.1 e.2 es) [])

def type? : Value → Option String
  | .record type _ => some type
  | _ => none

def field? (v : Value) (name : String) : Option Value :=
  match v with
  | .record _ fields => fields.lookup name
  | _ => none

end Value

end Courier.Emit
