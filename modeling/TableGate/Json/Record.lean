import TableGate.Json.Embedded

/-!
# Reading records

How the value of a field or a record is taken from a JSON value. A record is given as an object, with
its fields under their names, or as an array of its fields in their order.
-/

namespace TableGate

/-- Where a value stands: by itself, or within the contents of a tagged value. There its names and its tags
may be given more freely. -/
inductive Place where
  | alone
  | tagged
  deriving DecidableEq, Repr

namespace Value

def asText? : Value → Option String
  | .text s => some s
  | _ => none

def asBool? : Value → Option Bool
  | .bool b => some b
  | _ => none

def asInt? (least greatest : Int) : Value → Option Int
  | .int n => if least ≤ n && n ≤ greatest then some n else none
  | _ => none

def asNat? (greatest : Nat) : Value → Option Nat
  | .int n => if 0 ≤ n && n ≤ greatest then some n.toNat else none
  | _ => none

def asUInt8? (v : Value) : Option UInt8 :=
  (v.asNat? (UInt8.size - 1)).map UInt8.ofNat

def asUInt32? (v : Value) : Option UInt32 :=
  (v.asNat? (UInt32.size - 1)).map UInt32.ofNat

def asUInt64? (v : Value) : Option UInt64 :=
  (v.asNat? (UInt64.size - 1)).map UInt64.ofNat

def asInt64? (v : Value) : Option Int64 :=
  (v.asInt? Int64.minValue.toInt Int64.maxValue.toInt).map Int64.ofInt

def asAny? : Value → Option Value :=
  settled?

def asList? {α : Type} (read : Value → Option α) : Value → Option (List α)
  | .array items => items.mapM read
  | _ => none

def asTexts? : Value → Option (List String) :=
  asList? asText?

def asRow? : Value → Option Row
  | .object entries => do
    return .ofList (← entries.mapM fun (name, v) => do return (name, ← v.settled?))
  | _ => none

/-- Reads a name out of a fixed choice, given as a text or as an object with the name above null. -/
def asName? {α : Type} (choice : String → Option α) : Value → Option α
  | .text s => choice s
  | .object [(name, .null)] => choice name
  | _ => none

/-- Reads a name out of a fixed choice where a value may stand. In the contents of a tagged value the name
may also be above an empty object. -/
def asNameAt? {α : Type} (place : Place) (choice : String → Option α) : Value → Option α
  | .object [(name, .object [])] =>
    match place with
    | .alone => none
    | .tagged => choice name
  | v => v.asName? choice

/-- Reads a tag out of a fixed choice, a text. In the contents of a tagged value it may also be given by
its position in the choice. -/
def asTagAt? (place : Place) (choice : List String) : Value → Option String
  | .text s => if choice.contains s then some s else none
  | .int n =>
    match place with
    | .alone => none
    | .tagged => if 0 ≤ n then choice[n.toNat]? else none
  | _ => none

/-- Takes the tag of a tagged value, read as asked for, from what it tags: the entry under the given name
from an object, or the first item from an array. -/
def taggedBy? {α : Type} (name : String) (read : Value → Option α) : Value → Option (α × Value)
  | .object entries => do
    let tag ← read (← entries.lookup name)
    return (tag, .object (entries.filter fun e => e.1 != name))
  | .array (tag :: rest) => do return (← read tag, .array rest)
  | _ => none

end Value

/-- The fields of a record, by name or by position. -/
inductive Fields where
  | named (entries : List (String × Value))
  | listed (items : List Value)

namespace Fields

/-- The fields in a value, for a record with the given number of them. -/
def of? (count : Nat) : Value → Option Fields
  | .object entries => some (.named entries)
  | .array items => if items.length ≤ count then some (.listed items) else none
  | _ => none

def ofObject? : Value → Option Fields
  | .object entries => some (.named entries)
  | _ => none

/-- The value of the field at a position, under one of its names. A field that is given twice is
unreadable. -/
def find? (fields : Fields) (position : Nat) (names : List String) : Option (Option Value) :=
  match fields with
  | .named entries =>
    match entries.filter fun e => names.contains e.1 with
    | [] => some none
    | [e] => some (some e.2)
    | _ => none
  | .listed items => some items[position]?

variable {α : Type}

/-- Reads a field that has to be given. -/
def required (fields : Fields) (position : Nat) (name : String) (read : Value → Option α) : Option α :=
  match fields.find? position [name] with
  | some (some v) => read v
  | _ => none

/-- Reads a field, under one of its names, that has a default. -/
def orDefault (fields : Fields) (position : Nat) (names : List String) (default : α)
    (read : Value → Option α) : Option α :=
  match fields.find? position names with
  | some (some v) => read v
  | some none => some default
  | none => none

/-- Reads a field, under one of its names, that may be absent or null. -/
def optional (fields : Fields) (position : Nat) (names : List String) (read : Value → Option α) :
    Option (Option α) :=
  fields.orDefault position names none fun
    | .null => some none
    | v => (read v).map some

/-- Reads a field that may be null, and that may be absent only where fields are named. -/
def nullable (fields : Fields) (position : Nat) (name : String) (read : Value → Option α) :
    Option (Option α) :=
  match fields, fields.find? position [name] with
  | .listed _, some none => none
  | _, _ => fields.optional position [name] read

end Fields

end TableGate
