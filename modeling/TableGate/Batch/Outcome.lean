import TableGate.Batch.Operation
import TableGate.Fault

/-!
# Outcomes

What an operation gives: its data, or the kind and the wording of what went wrong.
-/

namespace TableGate

/-- What a write changed. -/
structure AffectedInfo where
  affectedRows : UInt64 := 0
  lastInsertId : Option Int64 := none
  deriving DecidableEq, Repr

/-- The data that an operation gives: rows, a number of rows, what a write changed, or the statements of
a change of the schema. -/
inductive OperationData where
  | rows (items : List Row)
  | count (n : Int)
  | affected (info : AffectedInfo)
  | schema (statements : List String)

structure OperationFailure where
  kind : FaultKind
  message : String
  deriving DecidableEq, Repr

/-- The outcome of an operation. -/
inductive Outcome where
  | success (data : OperationData)
  | error (failure : OperationFailure)

namespace AffectedInfo

def ofJson? (v : Value) : Option AffectedInfo := do
  let fields ← Fields.of? 2 v
  return {
    affectedRows := ← fields.required 0 "affectedRows" Value.asUInt64?
    lastInsertId := ← fields.nullable 1 "lastInsertId" Value.asInt64? }

def toJson (i : AffectedInfo) : Value :=
  .object [("affectedRows", .int i.affectedRows.toNat),
    ("lastInsertId", .ofNumber? Int64.toInt i.lastInsertId)]

end AffectedInfo

namespace OperationData

def statementsOf? (v : Value) : Option (List String) := do
  let fields ← Fields.of? 1 v
  fields.required 0 "statements" Value.asTexts?

def statementsToJson (statements : List String) : Value :=
  .object [("statements", .ofTexts statements)]

def kinds : List String :=
  ["rows", "count", "affected", "schema"]

/-- Reads the kind of data that stand within an outcome, and the data themselves: the entries under
`type` and `value`, or the two items of an array, of which the first may also be the position of the
kind. -/
def kinded? : Value → Option (String × Value)
  | .object entries => do
    let kind ← (← entries.lookup "type").asNameAt? .tagged fun name =>
      if kinds.contains name then some name else none
    return (kind, ← entries.lookup "value")
  | .array [kind, value] => do return (← kind.asTagAt? .tagged kinds, value)
  | _ => none

def ofJson? (v : Value) : Option OperationData := do
  let (kind, value) ← kinded? v
  match kind with
  | "rows" => (Row.listOfJson? value).map .rows
  | "count" => (value.asInt? Int64.minValue.toInt Int64.maxValue.toInt).map .count
  | "affected" => (AffectedInfo.ofJson? value).map .affected
  | "schema" => (statementsOf? value).map .schema
  | _ => none

def kind : OperationData → String
  | .rows _ => "rows"
  | .count _ => "count"
  | .affected _ => "affected"
  | .schema _ => "schema"

def valueToJson : OperationData → Value
  | .rows items => Row.listToJson items
  | .count n => .int n
  | .affected info => info.toJson
  | .schema statements => statementsToJson statements

def toJson (d : OperationData) : Value :=
  .object [("type", .text d.kind), ("value", d.valueToJson)]

def rows? : OperationData → Option (List Row)
  | .rows items => some items
  | _ => none

end OperationData

namespace OperationFailure

def ofFault (fault : Fault) : OperationFailure :=
  ⟨fault.kind, fault.message⟩

def ofJson? (v : Value) : Option OperationFailure := do
  let fields ← Fields.of? 2 v
  return {
    kind := ← fields.required 0 "kind" (FaultKind.ofJsonAt? .tagged)
    message := ← fields.required 1 "message" Value.asText? }

def toJson (f : OperationFailure) : Value :=
  .object [("kind", .text f.kind.name), ("message", .text f.message)]

end OperationFailure

namespace Outcome

def ofResult : Except Fault OperationData → Outcome
  | .ok data => .success data
  | .error fault => .error (.ofFault fault)

/-- Reads an outcome. Its status stands under `status`, or first in an array. -/
def ofJson? (v : Value) : Option Outcome := do
  let (status, rest) ← v.taggedBy? "status" Value.asText?
  let fields ← Fields.of? 1 rest
  match status with
  | "success" => return .success (← fields.required 0 "data" OperationData.ofJson?)
  | "error" => return .error (← fields.required 0 "error" OperationFailure.ofJson?)
  | _ => none

def toJson : Outcome → Value
  | .success data => .object [("data", data.toJson), ("status", .text "success")]
  | .error failure => .object [("error", failure.toJson), ("status", .text "error")]

def isSuccess : Outcome → Bool
  | .success _ => true
  | .error _ => false

def data? : Outcome → Option OperationData
  | .success data => some data
  | .error _ => none

def failure? : Outcome → Option OperationFailure
  | .success _ => none
  | .error failure => some failure

end Outcome

end TableGate
