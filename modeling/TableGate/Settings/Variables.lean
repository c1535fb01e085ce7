import TableGate.Settings.Service
import TableGate.Text.Ascii

/-!
# Settings from variables

The settings that the variables of an environment describe. A variable that is absent or blank leaves
the default in place.
-/

namespace TableGate.Variables

/-- The text of a variable without the blanks around it, unless nothing remains. -/
def text? (vars : NameMap String) (name : String) : Option String :=
  match (vars.get? name).map Text.trim with
  | some "" => none
  | found => found

/-- The value of a variable, read as it asks for. -/
def read? {α : Type} (vars : NameMap String) (name : String) (read : String → Option α) :
    Except Fault (Option α) :=
  match text? vars name with
  | none => .ok none
  | some text =>
    match read text with
    | some value => .ok (some value)
    | none => .error (.configuration (.variable name text))

def uint32? (s : String) : Option UInt32 :=
  (Text.toNat? Text.maxUInt32 s.toList).map UInt32.ofNat

def uint64? (s : String) : Option UInt64 :=
  (Text.toNat? Text.maxUInt64 s.toList).map UInt64.ofNat

/-- What the name of a variable with the URL of a connection opens with. -/
def connectionMark : String := "DATA_CONN_"

/-- The name and the settings of the connection that a variable describes. -/
def connection? (entry : String × String) : Option (String × ConnectionSettings) :=
  match Text.after? connectionMark.toList entry.1.toList with
  | none => none
  | some name =>
    let url := Text.trim entry.2
    if name.isEmpty || url = "" then none
    else some (Text.lower (String.ofList name), ⟨url, none⟩)

def pool? (vars : NameMap String) : Except Fault PoolSettings := do
  let base : PoolSettings := {}
  let maxConnections ← read? vars "DATA_POOL_MAX_CONNECTIONS" uint32?
  let connectTimeout ← read? vars "DATA_POOL_CONNECT_TIMEOUT_SECS" uint64?
  let maxRetries ← read? vars "DATA_POOL_MAX_RETRIES" uint32?
  return { base with
    maxConnections := maxConnections.getD base.maxConnections
    connectTimeout := connectTimeout.getD base.connectTimeout
    retry := (maxRetries.map fun n => decide (0 < n)).getD base.retry
    maxRetries := maxRetries.getD base.maxRetries }

def batch? (vars : NameMap String) : Except Fault BatchSettings := do
  let base : BatchSettings := {}
  let workers ← read? vars "DATA_PARALLEL_WORKERS" uint64?
  let perConnection ← read? vars "DATA_PER_CONNECTION_LIMIT" uint64?
  let resultLifetime ← read? vars "DATA_RESULT_TTL_SECS" uint64?
  let sweepInterval ← read? vars "DATA_SWEEP_INTERVAL_SECS" uint64?
  return {
    workers
    perConnection := perConnection.getD base.perConnection
    resultLifetime := resultLifetime.getD base.resultLifetime
    sweepInterval := sweepInterval.getD base.sweepInterval }

def encryption? (vars : NameMap String) : Except Fault EncryptionSettings := do
  let keys ← match text? vars "DATA_ENCRYPTION_KEYS" with
    | some list => KeyMaterial.listOfText? list
    | none => .ok []
  let activeVersion ← read? vars "DATA_ENCRYPTION_ACTIVE_VERSION" uint32?
  return { keys, activeVersion, pepper := (text? vars "DATA_HASH_PEPPER").getD "" }

/-- The settings of some variables, of which a later one of a name counts. -/
def settings? (given : List (String × String)) : Except Fault ServiceSettings := do
  let vars := NameMap.ofList given
  let pool ← pool? vars
  let batch ← batch? vars
  let encryption ← encryption? vars
  let policy ← read? vars "DATA_RAW_SQL_POLICY" fun s => (RawPolicy.ofText? s).toOption
  return {
    connections := .ofList (vars.entries.filterMap connection?)
    tenants := (text? vars "DATA_TENANT_URL_TEMPLATE").map fun template => ⟨template, none⟩
    query := { policy := policy.getD .guarded }
    pool, batch, encryption }

end TableGate.Variables
