import TableGate.Batch.Outcome
import TableGate.Service.Basic

/-!
# Requests

The operations on rows. Each is prepared into one statement for one connection and a way to read the
answer. Preparing resolves the connection, encrypts, and compiles, and fails before anything is sent.
-/

namespace TableGate

/-- What a database refuses a statement with. -/
inductive Refusal where
  | database (detail : String)
  | timeout (detail : String)
  | configuration (detail : String)
  deriving DecidableEq, Repr

/-- The answer of a database to a statement. It is not reached at all if its pool cannot be opened, or has no
connection to give. -/
inductive Reply where
  | rows (items : List Row)
  | affected (info : AffectedInfo)
  | done
  | refused (refusal : Refusal)
  | unreachable (refusal : Refusal)

/-- A statement that is ready to be sent to a connection, and the reading of its answer. -/
structure Prepared (α : Type) where
  connection : Connection
  statement : Statement
  read : Reply → Except Fault α

namespace Refusal

def fault : Refusal → Fault
  | .database detail => .database detail
  | .timeout detail => .timeout detail
  | .configuration detail => .configuration (.described detail)

end Refusal

namespace Reply

/-- Reads an answer that was written down: no connection, a refusal, rows, the success of a change of the
schema, or what a write has changed. -/
def ofJson? (v : Value) : Option Reply := do
  let fields ← Fields.ofObject? v
  let unreachable ← fields.optional 0 ["unreachable"] Value.asText?
  let refused ← fields.optional 0 ["error"] Value.asText?
  let rows ← fields.optional 0 ["rows"] Row.listOfJson?
  let changed ← fields.orDefault 0 ["ddl"] false Value.asBool?
  match unreachable, refused, rows with
  | some detail, _, _ => return .unreachable (.database detail)
  | none, some detail, _ => return .refused (.database detail)
  | none, none, some items => return .rows items
  | none, none, none =>
    if changed then return .done
    else
      let affectedRows ← fields.required 0 "affected" Value.asUInt64?
      return .affected ⟨affectedRows, ← fields.optional 0 ["lastInsertId"] Value.asInt64?⟩

def rowsOf : Reply → Except Fault (List Row)
  | .rows items => .ok items
  | .refused refusal | .unreachable refusal => .error refusal.fault
  | _ => .ok []

def affectedOf : Reply → Except Fault AffectedInfo
  | .affected info => .ok info
  | .refused refusal | .unreachable refusal => .error refusal.fault
  | _ => .ok {}

def settled : Reply → Except Fault Unit
  | .refused refusal | .unreachable refusal => .error refusal.fault
  | _ => .ok ()

/-- The number in the answer to a query for the number of rows. -/
def countOf (reply : Reply) : Except Fault Int := do
  let rows ← reply.rowsOf
  match rows.head?.bind fun row => row.get? "aggregate" with
  | some (.int n) =>
    if n ≤ Int64.maxValue.toInt then return n else .error (.internal (.countOutOfRange (Text.ofInt n)))
  | some (.real x) => .error (.internal (.countOutOfRange (String.ofList x.chars)))
  | some (.text s) =>
    match Text.toInt64? s.toList with
    | some n => return n
    | none => .error (.internal (.countNotNumber s))
  | _ => .error (.internal .noAggregate)

end Reply

namespace Prepared

def map {α β : Type} (f : α → β) (p : Prepared α) : Prepared β :=
  ⟨p.connection, p.statement, fun reply => (p.read reply).map f⟩

def write (connection : Connection) (statement : Statement) : Prepared AffectedInfo :=
  ⟨connection, statement, Reply.affectedOf⟩

end Prepared

namespace Service

/-! ## Reading -/

def decryptRows (s : Service) (c : Connection) (table : String) (rows : List Row) :
    Except Fault (List Row) :=
  rows.mapM (s.vault.decryptRow c.name table)

def query (s : Service) (connection table : String) (spec : QuerySpec) :
    Except Fault (Prepared (List Row)) := do
  let c ← s.registry.find? connection
  let spec ← s.vault.searchQuery c.name table spec
  let statement ← (s.compiler c).selectScoped table spec (s.scope c)
  return ⟨c, statement, fun reply => do s.decryptRows c (Vault.baseTable table) (← reply.rowsOf)⟩

/-- Prepares a query for the rows that a map of conditions chooses. -/
def fetch (s : Service) (connection table : String) (conditions : Row) :
    Except Fault (Prepared (List Row)) := do
  s.query connection table (.ofConditions (← Condition.ofMap? conditions))

def count (s : Service) (connection table : String) (conditions : List Condition) :
    Except Fault (Prepared Int) := do
  let c ← s.registry.find? connection
  let conditions ← s.vault.searchConditions c.name (Vault.baseTable table) conditions
  let statement ← (s.compiler c).count table conditions (s.scope c)
  return ⟨c, statement, Reply.countOf⟩

/-- Prepares the query for the number of rows that a map of conditions chooses. -/
def fetchCount (s : Service) (connection table : String) (conditions : Row) :
    Except Fault (Prepared Int) := do
  s.count connection table (← Condition.ofMap? conditions)

/-! ## Writing -/

/-- An operation that may change every row of a table has to choose rows. -/
def requireConditions (conditions : List Condition) (operation : String) : Except Fault Unit :=
  if conditions.isEmpty then .error (.querySpec (.noConditions operation)) else .ok ()

def insert (s : Service) (connection table : String) (rows : List Row) (nonces : Nonces) :
    Except Fault (Prepared AffectedInfo) := do
  let c ← s.registry.find? connection
  let rows ← s.vault.encryptRows c.name table nonces rows
  return .write c (← (s.compiler c).insert table rows)

def update (s : Service) (connection table : String) (values : Row) (conditions : List Condition)
    (nonces : Nonces) : Except Fault (Prepared AffectedInfo) := do
  requireConditions conditions "update"
  let c ← s.registry.find? connection
  let values ← s.vault.encryptRow c.name table (nonces 0) values
  let conditions ← s.vault.searchConditions c.name table conditions
  return .write c (← (s.compiler c).update table values conditions)

/-- Prepares an update of the rows that a map of conditions chooses. -/
def edit (s : Service) (connection table : String) (values conditions : Row) (nonces : Nonces) :
    Except Fault (Prepared AffectedInfo) := do
  s.update connection table values (← Condition.ofMap? conditions) nonces

/-- The columns with the hash columns of those that are encrypted. -/
def withHashColumns (encrypted : List EncryptedColumn) (columns : List String) : List String :=
  encrypted.foldl (fun expanded e =>
    match e.hashColumn with
    | some hashColumn =>
      if columns.contains e.column && !expanded.contains hashColumn then expanded ++ [hashColumn]
      else expanded
    | none => expanded) columns

/-- Prepares an upsert. An encrypted column cannot be a unique one, since its ciphertexts differ from
each other. -/
def upsert (s : Service) (connection table : String) (rows : List Row) (uniqueBy : List String)
    (update : Option (List String)) (nonces : Nonces) : Except Fault (Prepared AffectedInfo) := do
  let c ← s.registry.find? connection
  let encrypted := s.vault.columns.get c.name table
  match encrypted.find? fun e => uniqueBy.contains e.column with
  | some e => .error (.querySpec (.encryptedKey e.column))
  | none =>
    let rows ← s.vault.encryptRows c.name table nonces rows
    let update := update.map (withHashColumns encrypted)
    return .write c (← (s.compiler c).upsert table rows uniqueBy update)

/-! ## Deleting -/

def remove (s : Service) (c : Connection) (table : String) (conditions : List Condition) :
    Except Fault (Prepared AffectedInfo) := do
  let conditions ← s.vault.searchConditions c.name table conditions
  return .write c (← (s.compiler c).delete table conditions)

def markDeleted (s : Service) (c : Connection) (table column : String) (conditions : List Condition) :
    Except Fault (Prepared AffectedInfo) := do
  let conditions ← s.vault.searchConditions c.name table conditions
  return .write c (← (s.compiler c).softDelete table column conditions)

/-- The column that marks the deleted rows of a table, which has to keep them. -/
def softDeleteColumn? (s : Service) (c : Connection) (table : String) : Except Fault String :=
  match s.catalog.column? c.name table with
  | some column => .ok column
  | none => .error (.querySpec (.noSoftDelete table))

/-- Prepares a deletion: of a table that keeps deleted rows, these are marked, otherwise removed. -/
def delete (s : Service) (connection table : String) (conditions : List Condition) :
    Except Fault (Prepared AffectedInfo) := do
  requireConditions conditions "delete"
  let c ← s.registry.find? connection
  match s.catalog.column? c.name table with
  | some column => s.markDeleted c table column conditions
  | none => s.remove c table conditions

/-- Prepares a deletion that keeps the deleted rows. -/
def softDelete (s : Service) (connection table : String) (conditions : List Condition) :
    Except Fault (Prepared AffectedInfo) := do
  requireConditions conditions "softDelete"
  let c ← s.registry.find? connection
  let column ← s.softDeleteColumn? c table
  s.markDeleted c table column conditions

/-- Prepares a deletion that removes the rows. -/
def permanentDelete (s : Service) (connection table : String) (conditions : List Condition) :
    Except Fault (Prepared AffectedInfo) := do
  requireConditions conditions "permanentDelete"
  let c ← s.registry.find? connection
  s.remove c table conditions

def restore (s : Service) (connection table : String) (conditions : List Condition) :
    Except Fault (Prepared AffectedInfo) := do
  requireConditions conditions "restore"
  let c ← s.registry.find? connection
  let column ← s.softDeleteColumn? c table
  let conditions ← s.vault.searchConditions c.name table conditions
  return .write c (← (s.compiler c).restore table column conditions)

/-! ## Statements in the caller's words -/

/-- Prepares a query in the caller's words, whose rows are not decrypted. -/
def selectRaw (s : Service) (connection : String) (statement : Statement) :
    Except Fault (Prepared (List Row)) := do
  return ⟨← s.registry.find? connection, statement, Reply.rowsOf⟩

/-- Prepares a write in the caller's words. -/
def executeRaw (s : Service) (connection : String) (statement : Statement) :
    Except Fault (Prepared AffectedInfo) := do
  return .write (← s.registry.find? connection) statement

/-- Prepares the question whether a database answers. -/
def health (s : Service) (connection : String) : Except Fault (Prepared Bool) := do
  return ⟨← s.registry.find? connection, ⟨"SELECT 1 AS health", []⟩, fun reply => do
    return (← reply.rowsOf).length == 1⟩

end Service

end TableGate
