import TableGate.Bytes.Basic
import TableGate.Json.Skim
import TableGate.Query.SpecJson
import TableGate.Schema.Blueprint

/-!
# Operations

What a batch is made of: operations on tables that are given in JSON. The parameters of an operation are
understood only when it is carried out.
-/

namespace TableGate

inductive OperationKind where
  | select
  | fetch
  | count
  | insert
  | update
  | upsert
  | delete
  | softDelete
  | permanentDelete
  | restore
  | schema
  deriving DecidableEq, Repr

/-- An operation on a table of a connection. -/
structure Operation where
  connection : String
  table : String
  kind : OperationKind
  params : Value := .null

structure UpdateParams where
  values : Row
  conditions : List Condition

/-- The parameters of an upsert. Without columns to update, all but the unique ones are. -/
structure UpsertParams where
  rows : List Row
  uniqueBy : List String
  update : Option (List String)

structure WhereParams where
  conditions : List Condition

/-- An operation with its parameters understood. -/
inductive Action where
  | select (query : QuerySpec)
  | fetch (conditions : Row)
  | count (conditions : Row)
  | insert (rows : List Row)
  | update (params : UpdateParams)
  | upsert (params : UpsertParams)
  | delete (conditions : List Condition)
  | softDelete (conditions : List Condition)
  | permanentDelete (conditions : List Condition)
  | restore (conditions : List Condition)
  | schema (change : SchemaChange)

namespace OperationKind

def name : OperationKind → String
  | .select => "select"
  | .fetch => "fetch"
  | .count => "count"
  | .insert => "insert"
  | .update => "update"
  | .upsert => "upsert"
  | .delete => "delete"
  | .softDelete => "softDelete"
  | .permanentDelete => "permanentDelete"
  | .restore => "restore"
  | .schema => "schema"

def title : OperationKind → String
  | .select => "Select"
  | .fetch => "Fetch"
  | .count => "Count"
  | .insert => "Insert"
  | .update => "Update"
  | .upsert => "Upsert"
  | .delete => "Delete"
  | .softDelete => "SoftDelete"
  | .permanentDelete => "PermanentDelete"
  | .restore => "Restore"
  | .schema => "Schema"

def ofName? : String → Option OperationKind
  | "select" => some .select
  | "fetch" => some .fetch
  | "count" => some .count
  | "insert" => some .insert
  | "update" => some .update
  | "upsert" => some .upsert
  | "delete" => some .delete
  | "softDelete" => some .softDelete
  | "permanentDelete" => some .permanentDelete
  | "restore" => some .restore
  | "schema" => some .schema
  | _ => none

def ofJson? : Value → Option OperationKind :=
  Value.asName? ofName?

theorem ofName?_name (k : OperationKind) : ofName? k.name = some k := by
  cases k <;> rfl

end OperationKind

def Row.listOfJson? : Value → Option (List Row) :=
  Value.asList? Value.asRow?

def Row.listToJson (rows : List Row) : Value :=
  .array (rows.map Value.ofRow)

namespace UpdateParams

def ofJson? (v : Value) : Option UpdateParams := do
  let fields ← Fields.of? 2 v
  return {
    values := ← fields.required 0 "values" Value.asRow?
    conditions := ← fields.orDefault 1 ["where"] [] Condition.listOfJson? }

def toJson (p : UpdateParams) : Value :=
  .object [("values", .ofRow p.values), ("where", .array (Condition.listToJson p.conditions))]

end UpdateParams

namespace UpsertParams

def ofJson? (v : Value) : Option UpsertParams := do
  let fields ← Fields.of? 3 v
  return {
    rows := ← fields.required 0 "rows" Row.listOfJson?
    uniqueBy := ← fields.required 1 "uniqueBy" Value.asTexts?
    update := ← fields.optional 2 ["update"] Value.asTexts? }

def toJson (p : UpsertParams) : Value :=
  let update : Value := match p.update with
    | some columns => .ofTexts columns
    | none => .null
  .object [("rows", Row.listToJson p.rows), ("uniqueBy", .ofTexts p.uniqueBy), ("update", update)]

end UpsertParams

namespace WhereParams

def ofJson? (v : Value) : Option WhereParams := do
  let fields ← Fields.of? 1 v
  return { conditions := ← fields.orDefault 0 ["where"] [] Condition.listOfJson? }

def toJson (p : WhereParams) : Value :=
  .object [("where", .array (Condition.listToJson p.conditions))]

end WhereParams

namespace Action

/-- Reads the rows of an insert: a list of them, or a single one. -/
def rowsOf? (v : Value) : Option (List Row) :=
  Row.listOfJson? v <|> (v.asRow?).map ([·])

def ofParams? (kind : OperationKind) (params : Value) : Option Action :=
  match kind with
  | .select => (QuerySpec.ofJson? params).map .select
  | .fetch => params.asRow?.map .fetch
  | .count => params.asRow?.map .count
  | .insert => (rowsOf? params).map .insert
  | .update => (UpdateParams.ofJson? params).map .update
  | .upsert => (UpsertParams.ofJson? params).map .upsert
  | .delete => (WhereParams.ofJson? params).map fun p => .delete p.conditions
  | .softDelete => (WhereParams.ofJson? params).map fun p => .softDelete p.conditions
  | .permanentDelete => (WhereParams.ofJson? params).map fun p => .permanentDelete p.conditions
  | .restore => (WhereParams.ofJson? params).map fun p => .restore p.conditions
  | .schema => (SchemaChange.ofJson? params).map .schema

/-- An action in JSON: its parameters under its name. -/
def toJson : Action → Value
  | .select query => .object [("select", query.toJson)]
  | .fetch conditions => .object [("fetch", .ofRow conditions)]
  | .count conditions => .object [("count", .ofRow conditions)]
  | .insert rows => .object [("insert", Row.listToJson rows)]
  | .update params => .object [("update", params.toJson)]
  | .upsert params => .object [("upsert", params.toJson)]
  | .delete conditions => .object [("delete", .array (Condition.listToJson conditions))]
  | .softDelete conditions => .object [("softDelete", .array (Condition.listToJson conditions))]
  | .permanentDelete conditions =>
    .object [("permanentDelete", .array (Condition.listToJson conditions))]
  | .restore conditions => .object [("restore", .array (Condition.listToJson conditions))]
  | .schema change => .object [("schema", change.toJson)]

end Action

namespace Operation

def fieldNames : List String :=
  ["connection", "table", "kind", "params"]

def ofJson? (v : Value) : Option Operation := do
  let fields ← Fields.of? 4 v
  return {
    connection := ← fields.required 0 "connection" Value.asText?
    table := ← fields.required 1 "table" Value.asText?
    kind := ← fields.required 2 "kind" OperationKind.ofJson?
    params := ← fields.orDefault 3 ["params"] .null Value.asAny? }

def toJson (o : Operation) : Value :=
  .object [("connection", .text o.connection), ("kind", .text o.kind.name), ("params", o.params),
    ("table", .text o.table)]

/-- The operation with its parameters understood; null stands for no parameters. -/
def action (o : Operation) : Except Fault Action :=
  let params : Value := match o.params with
    | .null => .object []
    | params => params
  match Action.ofParams? o.kind params with
  | some action => .ok action
  | none => .error (.querySpec (.parameters o.kind.title))

/-- The operations listed in a file, of which the bytes are given if it can be read. What an operation
holds beside its fields is passed over. -/
def listOfFile (content : Option Bytes) : Except Fault (List Operation) :=
  match content.bind Bytes.toText? with
  | none => .error (.configuration .operationFile)
  | some text =>
    match (Json.records? fieldNames text).bind (Value.asList? ofJson?) with
    | some operations => .ok operations
    | none => .error (.querySpec .operationList)

end Operation

end TableGate
