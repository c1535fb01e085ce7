import TableGate.Schema.Effect
import TableGate.Sql.RawPolicy

/-!
# Planning schema changes

The steps of a schema change, in the order in which they are carried out. Every step is planned before
the first one is carried out, and each action on a table is planned for the table as the earlier
actions leave it.
-/

namespace TableGate

/-- What schema changes are planned for: the dialect, the policy for raw fragments, and the cipher of
encrypted columns for which none is given. -/
structure SchemaPlanner where
  dialect : Dialect
  policy : RawPolicy
  algorithm : CipherAlgorithm

/-- The column that marks deleted rows unless another one is given. -/
def defaultSoftDelete : String := "deleted_at"

namespace ColumnDefinition

def typeText (d : Dialect) (c : ColumnDefinition) : String :=
  match c.type, d with
  | .increments, .mysql => "INT UNSIGNED AUTO_INCREMENT PRIMARY KEY"
  | .increments, .postgres => "SERIAL PRIMARY KEY"
  | .bigIncrements, .mysql => "BIGINT UNSIGNED AUTO_INCREMENT PRIMARY KEY"
  | .bigIncrements, .postgres => "BIGSERIAL PRIMARY KEY"
  | .increments, .sqlite | .bigIncrements, .sqlite => "INTEGER PRIMARY KEY AUTOINCREMENT"
  | .integer, .mysql => "INT"
  | .integer, _ => "INTEGER"
  | .bigInteger, .sqlite => "INTEGER"
  | .bigInteger, _ => "BIGINT"
  | .smallInteger, _ => "SMALLINT"
  | .string, _ => "VARCHAR(" ++ Text.ofNat (c.length.getD 255).toNat ++ ")"
  | .text, _ => "TEXT"
  | .longText, .mysql => "LONGTEXT"
  | .longText, _ => "TEXT"
  | .boolean, _ => "BOOLEAN"
  | .decimal, _ =>
    "DECIMAL(" ++ Text.ofNat (c.precision.getD 8).toNat ++ ", " ++ Text.ofNat (c.scale.getD 2).toNat ++ ")"
  | .float, .mysql => "FLOAT"
  | .float, _ => "REAL"
  | .double, .mysql => "DOUBLE"
  | .double, .postgres => "DOUBLE PRECISION"
  | .double, .sqlite => "REAL"
  | .date, _ => "DATE"
  | .dateTime, .postgres => "TIMESTAMP"
  | .dateTime, _ => "DATETIME"
  | .timestamp, _ => "TIMESTAMP"
  | .time, _ => "TIME"
  | .json, .mysql => "JSON"
  | .json, .postgres => "JSONB"
  | .json, .sqlite => "TEXT"
  | .uuid, .mysql => "CHAR(36)"
  | .uuid, .postgres => "UUID"
  | .uuid, .sqlite => "TEXT"
  | .binary, .postgres => "BYTEA"
  | .binary, _ => "BLOB"

/-- The clause of a column that is not encrypted, without uniqueness. -/
def clause? (d : Dialect) (c : ColumnDefinition) : Except Fault ColumnClause := do
  let name ← Identifier.of? c.name
  let default ←
    if c.type.isAutoIncrement then pure none
    else
      match c.default with
      | some v => do pure (some (← Literal.ofDefault? v))
      | none => pure none
  return ⟨name, c.typeText d, c.type.isAutoIncrement, c.isNullable, default, false⟩

/-- The clause of an encrypted column, which holds a text. -/
def encryptedClause? (c : ColumnDefinition) : Except Fault ColumnClause := do
  return ⟨← Identifier.of? c.name, "TEXT", false, c.isNullable, none, false⟩

end ColumnDefinition

namespace ColumnClause

def hash? (name : String) : Except Fault ColumnClause := do
  return ⟨← Identifier.of? name, "VARCHAR(64)", false, true, none, false⟩

def timestamp? (name : String) : Except Fault ColumnClause := do
  return ⟨← Identifier.of? name, "TIMESTAMP", false, true, none, false⟩

end ColumnClause

/-- The columns and the effects of a new table, and the steps behind its creation, as they grow column by
column. -/
structure TableDraft where
  seen : List String := []
  clauses : List ColumnClause := []
  effects : List CatalogEffect := []
  trailing : List SchemaStep := []

namespace TableDraft

def define (t : TableDraft) (c : ColumnClause) : TableDraft :=
  { t with clauses := t.clauses ++ [c] }

def follow (t : TableDraft) (s : SchemaStatement) : TableDraft :=
  { t with trailing := t.trailing ++ [{ statement := s }] }

def effect (t : TableDraft) (e : CatalogEffect) : TableDraft :=
  { t with effects := t.effects ++ [e] }

/-- The draft with a column for a time, unless there is a column of that name. -/
def timestamp? (t : TableDraft) (name : String) : Except Fault TableDraft :=
  if t.seen.contains name then .ok t
  else do
    let clause ← ColumnClause.timestamp? name
    return { t.define clause with seen := t.seen ++ [name] }

end TableDraft

def indexName? (mark table column : String) : Except Fault Identifier :=
  Identifier.of? (mark ++ "_" ++ table ++ "_" ++ column)

def createIndex? (table column : String) (unique : Bool) : Except Fault SchemaStatement := do
  let name ← indexName? (if unique then "uniq" else "idx") table column
  return .createIndex unique name (← Identifier.of? table) (← Identifier.of? column)

namespace SchemaPlanner

def encryptedColumn? (p : SchemaPlanner) (c : ColumnDefinition) (encryption : Option TableEncryption) :
    Except Fault EncryptedColumn :=
  if c.type.isAutoIncrement then .error (.querySpec (.autoIncrementEncrypted c.name))
  else if c.default.isSome then .error (.querySpec (.encryptedDefault c.name))
  else if c.unique && !c.isSearchable then .error (.querySpec (.uniqueUnsearchable c.name))
  else
    .ok {
      column := c.name
      algorithm := (encryption.bind TableEncryption.algorithm).getD p.algorithm
      keyVersion := encryption.bind TableEncryption.keyVersion
      hashColumn := if c.isSearchable then some c.hashColumn else none }

/-- Adds an encrypted column, with its hash column, to the draft of a table. -/
def draftEncrypted? (p : SchemaPlanner) (table : String) (encryption : Option TableEncryption)
    (t : TableDraft) (c : ColumnDefinition) : Except Fault TableDraft := do
  let column ← p.encryptedColumn? c encryption
  let t := t.define (← c.encryptedClause?)
  let t ← match column.hashColumn with
    | none => pure t
    | some hash => do
      let clause ← ColumnClause.hash? hash
      if c.unique then pure (t.define { clause with unique := true })
      else pure ((t.follow (← createIndex? table hash false)).define clause)
  return t.effect (.registerEncrypted column)

def draftPlain? (p : SchemaPlanner) (table : String) (t : TableDraft) (c : ColumnDefinition) :
    Except Fault TableDraft := do
  let clause ← c.clause? p.dialect
  if c.unique && !c.type.isAutoIncrement then
    return t.define { clause with unique := true }
  else if c.index then
    return (t.follow (← createIndex? table c.name false)).define clause
  else
    return t.define clause

def draftColumn? (p : SchemaPlanner) (table : String) (encryption : Option TableEncryption)
    (t : TableDraft) (c : ColumnDefinition) : Except Fault TableDraft :=
  if t.seen.contains c.name then .error (.querySpec (.duplicateColumn c.name))
  else
    let t := { t with seen := t.seen ++ [c.name] }
    if c.encrypted then p.draftEncrypted? table encryption t c else p.draftPlain? table t c

/-- The steps that create a table: the creation, with all effects, and the creation of its indexes. -/
def createTable? (p : SchemaPlanner) (table : String) (b : TableBlueprint) :
    Except Fault (List SchemaStep) :=
  if b.columns.isEmpty then .error (.querySpec (.noColumns table))
  else do
    let name ← Identifier.of? table
    let t ← b.columns.foldlM (p.draftColumn? table b.encryption) {}
    let t ← if b.timestamps then do (← t.timestamp? "created_at").timestamp? "updated_at" else pure t
    let t ← if b.softDelete then do
        pure ((← t.timestamp? defaultSoftDelete).effect (.enableSoftDelete defaultSoftDelete))
      else pure t
    return { statement := .createTable name t.clauses, effects := t.effects } :: t.trailing

def add? (p : SchemaPlanner) (table : String) (name : Identifier) (c : ColumnDefinition) :
    Except Fault (List SchemaStep) :=
  if c.encrypted then do
    let column ← p.encryptedColumn? c none
    let clause ← c.encryptedClause?
    match column.hashColumn with
    | none => return [⟨.addColumn name clause, [.registerEncrypted column]⟩]
    | some hash =>
      let hashClause ← ColumnClause.hash? hash
      let index ← createIndex? table hash c.unique
      return [⟨.addColumn name clause, []⟩, ⟨.addColumn name hashClause, [.registerEncrypted column]⟩,
        ⟨index, []⟩]
  else do
    let clause ← c.clause? p.dialect
    if c.unique || c.index then
      let index ← createIndex? table c.name c.unique
      return [⟨.addColumn name clause, []⟩, ⟨index, []⟩]
    else
      return [⟨.addColumn name clause, []⟩]

def modify? (p : SchemaPlanner) (state : TableState) (name : Identifier) (c : ColumnDefinition) :
    Except Fault (List SchemaStep) :=
  if c.encrypted || (state.encryptedColumn? c.name).isSome then
    .error (.querySpec (.encryptedModify c.name))
  else
    match p.dialect with
    | .sqlite => .error (.sqlCompilation .sqlite "ALTER TABLE ... MODIFY COLUMN")
    | .mysql => do
      let clause ← c.clause? .mysql
      return [⟨.modifyColumn name { clause with unique := c.unique }, []⟩]
    | .postgres =>
      if c.type.isAutoIncrement then .error (.querySpec (.autoIncrementModify c.name))
      else do
        let column ← Identifier.of? c.name
        let default ← match c.default with
          | some v => do pure [SchemaStep.mk (.setDefault name column (← Literal.ofDefault? v)) []]
          | none => pure []
        return [⟨.setType name column (c.typeText .postgres), []⟩,
          ⟨.setNullable name column c.isNullable, []⟩] ++ default

/-- The steps that drop the indexes on a column. Only where a column with an index cannot be dropped are
there any. -/
def dropIndexes? (p : SchemaPlanner) (table column : String) : Except Fault (List SchemaStep) :=
  match p.dialect with
  | .sqlite => do
    let plain ← indexName? "idx" table column
    let unique ← indexName? "uniq" table column
    return [⟨.dropIndex plain, []⟩, ⟨.dropIndex unique, []⟩]
  | _ => .ok []

/-- The steps that drop a column of a table, with its hash column. -/
def drop? (p : SchemaPlanner) (table : String) (state : TableState) (name : Identifier)
    (column : String) : Except Fault (List SchemaStep) := do
  let encrypted := state.encryptedColumn? column
  let hash := encrypted.bind EncryptedColumn.hashColumn
  let indexes ← p.dropIndexes? table (hash.getD column)
  let effects := (if encrypted.isSome then [CatalogEffect.unregisterEncrypted column] else []) ++
    (if state.softDelete = some column then [.disableSoftDelete] else [])
  let dropped ← Identifier.of? column
  let hashDrop ← match hash with
    | some h => do pure [SchemaStep.mk (.dropColumn name (← Identifier.of? h)) []]
    | none => pure []
  return indexes ++ ⟨.dropColumn name dropped, effects⟩ :: hashDrop

def rename? (state : TableState) (name : Identifier) (source target : String) :
    Except Fault (List SchemaStep) :=
  if (state.encryptedColumn? source).isSome then .error (.querySpec (.encryptedRename source))
  else do
    let s ← Identifier.of? source
    let t ← Identifier.of? target
    return [⟨.renameColumn name s t, [.renameColumn source target]⟩]

def action? (p : SchemaPlanner) (table : String) (name : Identifier) (state : TableState) :
    AlterAction → Except Fault (List SchemaStep)
  | .add c => p.add? table name c
  | .modify c => p.modify? state name c
  | .drop column => p.drop? table state name column
  | .rename source target => rename? state name source target

/-- The steps of actions on a table, each planned for the state that the earlier ones leave. -/
def actions? (p : SchemaPlanner) (table : String) (name : Identifier) :
    TableState → List AlterAction → Except Fault (List SchemaStep)
  | _, [] => .ok []
  | state, a :: rest => do
    let steps ← p.action? table name state a
    return steps ++ (← p.actions? table name (state.applySteps steps) rest)

def alterTable? (p : SchemaPlanner) (table : String) (actions : List AlterAction) (state : TableState) :
    Except Fault (List SchemaStep) :=
  if actions.isEmpty then .error (.querySpec .noActions)
  else do
    let name ← Identifier.of? table
    p.actions? table name state actions

def privileges : List String :=
  ["SELECT", "INSERT", "UPDATE", "DELETE", "ALTER", "INDEX", "REFERENCES", "ALL"]

/-- The privilege that a text names, in any case and with blanks around it. -/
def privilege? (s : String) : Except Fault String :=
  let word := Text.upper (Text.trim s)
  let word := if word = "ALL PRIVILEGES" then "ALL" else word
  if privileges.contains word then .ok word else .error (.querySpec (.unknownPrivilege s))

def isHostChar (c : Char) : Bool :=
  Text.isWordChar c || c == '.' || c == '%' || c == '-'

/-- The account that a text names: a user, and a host behind an at sign. Without a host any will do. -/
def account? (cs : List Char) : Option Principal :=
  match Text.cut? (· == '@') cs with
  | none => if Text.isWord cs then some (.account (String.ofList cs) "%") else none
  | some (user, host) =>
    if Text.isWord user && !host.isEmpty && host.all isHostChar then
      some (.account (String.ofList user) (String.ofList host))
    else
      none

def principal? (d : Dialect) (s : String) : Except Fault Principal :=
  match d with
  | .mysql =>
    match account? (Text.trimChars s.toList) with
    | some a => .ok a
    | none => .error (.querySpec (.invalidPrincipal s))
  | _ => (Identifier.of? (Text.trim s)).map .role

def privilegeParts? (p : SchemaPlanner) (statement : String) (names : List String) (principal : String) :
    Except Fault (List String × Principal) :=
  if p.dialect = .sqlite then .error (.sqlCompilation .sqlite statement)
  else if names.isEmpty then .error (.querySpec (.noPrivileges statement))
  else do
    let names ← names.mapM privilege?
    return (names, ← principal? p.dialect principal)

def plan? (p : SchemaPlanner) (table : String) (state : TableState) :
    SchemaChange → Except Fault (List SchemaStep)
  | .createTable b => p.createTable? table b
  | .alterTable actions => p.alterTable? table actions state
  | .dropTable => do return [⟨.dropTable (← Identifier.of? table), [.dropTable]⟩]
  | .createView sql => do
    let body ← p.policy.check sql "view body"
    return [⟨.createView (← Identifier.of? table) body, []⟩]
  | .dropView => do return [⟨.dropView (← Identifier.of? table), []⟩]
  | .grant names principal => do
    let (names, who) ← p.privilegeParts? "GRANT" names principal
    return [⟨.grant names (← Identifier.of? table) who, []⟩]
  | .revoke names principal => do
    let (names, who) ← p.privilegeParts? "REVOKE" names principal
    return [⟨.revoke names (← Identifier.of? table) who, []⟩]

end SchemaPlanner

end TableGate
