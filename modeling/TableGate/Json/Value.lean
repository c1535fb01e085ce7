import TableGate.NameMap
import TableGate.Number.Binary64

/-!
# JSON values

The values that rows, conditions and parameters carry. A number is an integer or a binary floating
point number; the two never mix.
-/

namespace TableGate

/-- A JSON value. The entries of an object stand in the order in which it lists them. -/
inductive Value where
  | null
  | bool (b : Bool)
  | int (n : Int)
  | real (x : Binary64)
  | text (s : String)
  | array (items : List Value)
  | object (entries : List (String × Value))
  deriving Inhabited

/-- A row: a value under each of its columns. -/
abbrev Row := NameMap Value

namespace Value

def isNull : Value → Bool
  | .null => true
  | _ => false

def ofRow (row : Row) : Value :=
  .object row.entries

/-- A text, or null in its absence. -/
def ofText? : Option String → Value
  | some s => .text s
  | none => .null

def ofNumber? {α : Type} (toInt : α → Int) : Option α → Value
  | some n => .int (toInt n)
  | none => .null

def ofBool? : Option Bool → Value
  | some b => .bool b
  | none => .null

def ofTexts (ss : List String) : Value :=
  .array (ss.map .text)

mutual
/-- The number of values around the deepest one, itself included. -/
def depth : Value → Nat
  | .array items => depthOfItems items + 1
  | .object entries => depthOfEntries entries + 1
  | _ => 1
def depthOfItems : List Value → Nat
  | [] => 0
  | v :: vs => max v.depth (depthOfItems vs)
def depthOfEntries : List (String × Value) → Nat
  | [] => 0
  | (_, v) :: rest => max v.depth (depthOfEntries rest)
end

end Value

end TableGate
