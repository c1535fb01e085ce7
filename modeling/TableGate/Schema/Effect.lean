import TableGate.Schema.Statement

/-!
# Effects of schema changes

What is remembered about a table, and how the steps of a schema change alter it.
-/

namespace TableGate

/-- A change of what is remembered about a table. -/
inductive CatalogEffect where
  | registerEncrypted (column : EncryptedColumn)
  | unregisterEncrypted (column : String)
  | renameColumn (source target : String)
  | enableSoftDelete (column : String)
  | disableSoftDelete
  | dropTable
  deriving DecidableEq, Repr

def CatalogEffect.toJson : CatalogEffect → Value
  | .registerEncrypted column => .object [("registerEncrypted", column.toJson)]
  | .unregisterEncrypted column => .object [("unregisterEncrypted", .text column)]
  | .renameColumn source target => .object [("renameColumn", .ofTexts [source, target])]
  | .enableSoftDelete column => .object [("enableSoftDelete", .text column)]
  | .disableSoftDelete => .text "disableSoftDelete"
  | .dropTable => .text "dropTable"

/-- A step of a schema change: a statement, and what its success changes. -/
structure SchemaStep where
  statement : SchemaStatement
  effects : List CatalogEffect := []

/-- What is remembered about a table: its encrypted columns, and the column that marks deleted rows. -/
structure TableState where
  encrypted : List EncryptedColumn := []
  softDelete : Option String := none
  deriving DecidableEq

namespace TableState

def ofJson? (v : Value) : Option TableState := do
  let fields ← Fields.of? 2 v
  let encrypted ← fields.optional 0 ["encrypted"] (Value.asList? EncryptedColumn.ofJson?)
  let softDelete ← fields.optional 1 ["softDeleteColumn"] Value.asText?
  return ⟨encrypted.getD [], softDelete⟩

def encryptedColumn? (s : TableState) (name : String) : Option EncryptedColumn :=
  EncryptedColumn.find? s.encrypted name

def apply (s : TableState) : CatalogEffect → TableState
  | .registerEncrypted column => { s with encrypted := EncryptedColumn.register s.encrypted column }
  | .unregisterEncrypted column => { s with encrypted := EncryptedColumn.unregister s.encrypted column }
  | .renameColumn source target =>
    { encrypted := EncryptedColumn.rename s.encrypted source target
      softDelete := if s.softDelete = some source then some target else s.softDelete }
  | .enableSoftDelete column => { s with softDelete := some column }
  | .disableSoftDelete => { s with softDelete := none }
  | .dropTable => {}

def applySteps (s : TableState) (steps : List SchemaStep) : TableState :=
  (steps.flatMap SchemaStep.effects).foldl apply s

end TableState

end TableGate
