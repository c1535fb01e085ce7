import TableGate.Fault
import TableGate.Vault.EncryptedColumn

/-!
# Blueprints

Requests to create and change tables, and their JSON forms.
-/

namespace TableGate

inductive ColumnType where
  | increments
  | bigIncrements
  | integer
  | bigInteger
  | smallInteger
  | string
  | text
  | longText
  | boolean
  | decimal
  | float
  | double
  | date
  | dateTime
  | timestamp
  | time
  | json
  | uuid
  | binary
  deriving DecidableEq, Repr

/-- The definition of a column. What is not said about null and about searching is allowed. -/
structure ColumnDefinition where
  name : String
  type : ColumnType
  length : Option UInt32 := none
  precision : Option UInt8 := none
  scale : Option UInt8 := none
  nullable : Option Bool := none
  unique : Bool := false
  index : Bool := false
  default : Option Value := none
  encrypted : Bool := false
  searchable : Option Bool := none

/-- How the encrypted columns of a new table are encrypted. -/
structure TableEncryption where
  algorithm : Option CipherAlgorithm := none
  keyVersion : Option UInt32 := none

/-- A table to be created. -/
structure TableBlueprint where
  columns : List ColumnDefinition
  softDelete : Bool := false
  timestamps : Bool := false
  encryption : Option TableEncryption := none

/-- A change of a table. -/
inductive AlterAction where
  | add (column : ColumnDefinition)
  | modify (column : ColumnDefinition)
  | drop (name : String)
  | rename (name target : String)

/-- A change of the schema. -/
inductive SchemaChange where
  | createTable (blueprint : TableBlueprint)
  | alterTable (actions : List AlterAction)
  | dropTable
  | createView (sql : String)
  | dropView
  | grant (privileges : List String) (principal : String)
  | revoke (privileges : List String) (principal : String)

namespace ColumnType

def name : ColumnType → String
  | .increments => "increments"
  | .bigIncrements => "bigIncrements"
  | .integer => "integer"
  | .bigInteger => "bigInteger"
  | .smallInteger => "smallInteger"
  | .string => "string"
  | .text => "text"
  | .longText => "longText"
  | .boolean => "boolean"
  | .decimal => "decimal"
  | .float => "float"
  | .double => "double"
  | .date => "date"
  | .dateTime => "dateTime"
  | .timestamp => "timestamp"
  | .time => "time"
  | .json => "json"
  | .uuid => "uuid"
  | .binary => "binary"

def ofName? : String → Option ColumnType
  | "increments" => some .increments
  | "bigIncrements" => some .bigIncrements
  | "integer" => some .integer
  | "bigInteger" => some .bigInteger
  | "smallInteger" => some .smallInteger
  | "string" => some .string
  | "text" => some .text
  | "longText" => some .longText
  | "boolean" => some .boolean
  | "decimal" => some .decimal
  | "float" => some .float
  | "double" => some .double
  | "date" => some .date
  | "dateTime" => some .dateTime
  | "timestamp" => some .timestamp
  | "time" => some .time
  | "json" => some .json
  | "uuid" => some .uuid
  | "binary" => some .binary
  | _ => none

def ofJsonAt? (place : Place) : Value → Option ColumnType :=
  Value.asNameAt? place ofName?

def ofJson? : Value → Option ColumnType :=
  ofJsonAt? .alone

theorem ofName?_name (t : ColumnType) : ofName? t.name = some t := by
  cases t <;> rfl

/-- Whether the database counts the values of the column itself. -/
def isAutoIncrement : ColumnType → Bool
  | .increments => true
  | .bigIncrements => true
  | _ => false

end ColumnType

namespace ColumnDefinition

def isNullable (c : ColumnDefinition) : Bool :=
  c.nullable.getD true

/-- Whether the column, if encrypted, gets a hash column. -/
def isSearchable (c : ColumnDefinition) : Bool :=
  c.searchable.getD true

def hashColumn (c : ColumnDefinition) : String :=
  EncryptedColumn.hashName c.name

def ofJsonAt? (place : Place) (v : Value) : Option ColumnDefinition := do
  let fields ← Fields.of? 11 v
  return {
    name := ← fields.required 0 "name" Value.asText?
    type := ← fields.required 1 "type" (ColumnType.ofJsonAt? place)
    length := ← fields.optional 2 ["length"] Value.asUInt32?
    precision := ← fields.optional 3 ["precision"] Value.asUInt8?
    scale := ← fields.optional 4 ["scale"] Value.asUInt8?
    nullable := ← fields.optional 5 ["nullable"] Value.asBool?
    unique := ← fields.orDefault 6 ["unique"] false Value.asBool?
    index := ← fields.orDefault 7 ["index"] false Value.asBool?
    default := ← fields.optional 8 ["default"] Value.asAny?
    encrypted := ← fields.orDefault 9 ["encrypted"] false Value.asBool?
    searchable := ← fields.optional 10 ["searchable"] Value.asBool? }

def ofJson? : Value → Option ColumnDefinition :=
  ofJsonAt? .alone

def entries (c : ColumnDefinition) : List (String × Value) :=
  [("default", c.default.getD .null), ("encrypted", .bool c.encrypted), ("index", .bool c.index),
    ("length", .ofNumber? (fun n => n.toNat) c.length), ("name", .text c.name),
    ("nullable", .ofBool? c.nullable), ("precision", .ofNumber? (fun n => n.toNat) c.precision),
    ("scale", .ofNumber? (fun n => n.toNat) c.scale), ("searchable", .ofBool? c.searchable),
    ("type", .text c.type.name), ("unique", .bool c.unique)]

def toJson (c : ColumnDefinition) : Value :=
  .object c.entries

end ColumnDefinition

namespace TableEncryption

def ofJsonAt? (place : Place) (v : Value) : Option TableEncryption := do
  let fields ← Fields.of? 2 v
  return {
    algorithm := ← fields.optional 0 ["algorithm"] (CipherAlgorithm.ofJsonAt? place)
    keyVersion := ← fields.optional 1 ["keyVersion", "key_version"] Value.asUInt32? }

def ofJson? : Value → Option TableEncryption :=
  ofJsonAt? .alone

def toJson (e : TableEncryption) : Value :=
  .object [("algorithm", .ofText? (e.algorithm.map CipherAlgorithm.name)),
    ("keyVersion", .ofNumber? (fun n => n.toNat) e.keyVersion)]

end TableEncryption

namespace TableBlueprint

def ofJsonAt? (place : Place) (v : Value) : Option TableBlueprint := do
  let fields ← Fields.of? 4 v
  return {
    columns := ← fields.required 0 "columns" (Value.asList? (ColumnDefinition.ofJsonAt? place))
    softDelete := ← fields.orDefault 1 ["softDelete", "soft_delete"] false Value.asBool?
    timestamps := ← fields.orDefault 2 ["timestamps"] false Value.asBool?
    encryption := ← fields.optional 3 ["encryption"] (TableEncryption.ofJsonAt? place) }

def ofJson? : Value → Option TableBlueprint :=
  ofJsonAt? .alone

def columnsToJson (b : TableBlueprint) : Value :=
  .array (b.columns.map ColumnDefinition.toJson)

def encryptionToJson (b : TableBlueprint) : Value :=
  match b.encryption with
  | some e => e.toJson
  | none => .null

def toJson (b : TableBlueprint) : Value :=
  .object [("columns", b.columnsToJson), ("encryption", b.encryptionToJson),
    ("softDelete", .bool b.softDelete), ("timestamps", .bool b.timestamps)]

end TableBlueprint

namespace AlterAction

def kinds : List String :=
  ["add", "modify", "drop", "rename"]

/-- Reads a change of a table where a value may stand. Its name stands under `action`, or first in an
array. -/
def ofJsonAt? (place : Place) (v : Value) : Option AlterAction := do
  let (kind, rest) ← v.taggedBy? "action" (Value.asTagAt? place kinds)
  match kind with
  | "add" => return .add (← ColumnDefinition.ofJsonAt? .tagged rest)
  | "modify" => return .modify (← ColumnDefinition.ofJsonAt? .tagged rest)
  | "drop" => do
    let fields ← Fields.of? 1 rest
    return .drop (← fields.required 0 "name" Value.asText?)
  | "rename" => do
    let fields ← Fields.of? 2 rest
    return .rename (← fields.required 0 "name" Value.asText?) (← fields.required 1 "to" Value.asText?)
  | _ => none

def ofJson? : Value → Option AlterAction :=
  ofJsonAt? .alone

def toJson : AlterAction → Value
  | .add column => .object (("action", .text "add") :: column.entries)
  | .modify column => .object (("action", .text "modify") :: column.entries)
  | .drop name => .object [("action", .text "drop"), ("name", .text name)]
  | .rename name target =>
    .object [("action", .text "rename"), ("name", .text name), ("to", .text target)]

def listOfJson? : Value → Option (List AlterAction) :=
  Value.asList? ofJson?

end AlterAction

namespace SchemaChange

/-- Reads a change of the schema. Its name stands under `op`, or first in an array. -/
def ofJson? (v : Value) : Option SchemaChange := do
  let (kind, rest) ← v.taggedBy? "op" Value.asText?
  match kind with
  | "createTable" => return .createTable (← TableBlueprint.ofJsonAt? .tagged rest)
  | "alterTable" => do
    let fields ← Fields.of? 1 rest
    return .alterTable (← fields.required 0 "actions" (Value.asList? (AlterAction.ofJsonAt? .tagged)))
  | "dropTable" => do
    let _ ← Fields.of? 0 rest
    return .dropTable
  | "createView" => do
    let fields ← Fields.of? 1 rest
    return .createView (← fields.required 0 "sql" Value.asText?)
  | "dropView" => do
    let _ ← Fields.of? 0 rest
    return .dropView
  | "grant" => do
    let fields ← Fields.of? 2 rest
    return .grant (← fields.required 0 "privileges" Value.asTexts?)
      (← fields.required 1 "principal" Value.asText?)
  | "revoke" => do
    let fields ← Fields.of? 2 rest
    return .revoke (← fields.required 0 "privileges" Value.asTexts?)
      (← fields.required 1 "principal" Value.asText?)
  | _ => none

def toJson : SchemaChange → Value
  | .createTable b =>
    .object [("columns", b.columnsToJson), ("encryption", b.encryptionToJson),
      ("op", .text "createTable"), ("softDelete", .bool b.softDelete), ("timestamps", .bool b.timestamps)]
  | .alterTable actions =>
    .object [("actions", .array (actions.map AlterAction.toJson)), ("op", .text "alterTable")]
  | .dropTable => .object [("op", .text "dropTable")]
  | .createView sql => .object [("op", .text "createView"), ("sql", .text sql)]
  | .dropView => .object [("op", .text "dropView")]
  | .grant privileges principal =>
    .object [("op", .text "grant"), ("principal", .text principal), ("privileges", .ofTexts privileges)]
  | .revoke privileges principal =>
    .object [("op", .text "revoke"), ("principal", .text principal), ("privileges", .ofTexts privileges)]

end SchemaChange

end TableGate
