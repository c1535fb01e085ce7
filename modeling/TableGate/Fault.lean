import TableGate.Query.Operator
import TableGate.Sql.Dialect

/-!
# Faults

What can go wrong: the causes, each with its wording, and the kind and the severity of a fault. In
every family of causes `described` stands for a cause in the caller's own words.
-/

namespace TableGate

/-- What is wrong with a request. -/
inductive RequestFault where
  | described (text : String)
  | invalidIdentifier (name : String)
  | unknownOperator (text : String)
  | arrayExpected (operator : Operator) (column : String)
  | betweenCount (column : String) (count : Nat)
  | betweenShape (column : String)
  | columnExpected (column : String)
  | scalarExpected (column : String)
  | nullOperand (column : String)
  | emptyGroup
  | crossJoinCondition (table : String)
  | joinWithoutCondition (keyword table : String)
  | orderedUnionMember
  | cteInUnionMember
  | emptyFragment (context : String)
  | unsafeFragment (context : String)
  | sortDirection (text : String)
  | sortTerm (text : String)
  | noSearchColumns
  | jsonPath (path : String)
  | noRows
  | rowColumns (index : Nat)
  | rowsWithoutColumns
  | noUniqueColumns
  | uniqueColumnMissing (column : String)
  | noAssignments
  | noConditions (operation : String)
  | noSoftDelete (table : String)
  | encryptedKey (column : String)
  | notSearchable (column : String)
  | equalityOnly (column : String)
  | noColumns (table : String)
  | duplicateColumn (column : String)
  | noActions
  | encryptedModify (column : String)
  | encryptedRename (column : String)
  | autoIncrementModify (column : String)
  | autoIncrementEncrypted (column : String)
  | encryptedDefault (column : String)
  | uniqueUnsearchable (column : String)
  | defaultNotScalar
  | noPrivileges (statement : String)
  | unknownPrivilege (text : String)
  | invalidPrincipal (text : String)
  | parameters (operation : String)
  | operationList
  deriving DecidableEq, Repr

/-- What is wrong with the settings or the keys. -/
inductive SettingsFault where
  | described (text : String)
  | noScheme (redactedUrl : String)
  | unsupportedScheme (scheme : String)
  | templateWithoutId
  | unknownPolicy (text : String)
  | variable (name value : String)
  | keyEntryShape
  | keyVersion (text : String)
  | keyEncoding (version : Nat)
  | keyLength (version length : Nat)
  | duplicateKey (version : Nat)
  | activeKeyMissing (version : Nat)
  | keyExists (version : Nat)
  | operationFile
  deriving DecidableEq, Repr

/-- Why a value cannot be encrypted. -/
inductive SealFault where
  | described (text : String)
  | keyNotConfigured (version : Nat) (table column : String)
  deriving DecidableEq, Repr

/-- Why an envelope cannot be opened. -/
inductive OpenFault where
  | described (text : String)
  | malformed
  | unknownAlgorithm (tag : String)
  | unknownKey (version : Nat)
  | authentication
  | invalidText
  | invalidValue (table column : String)
  deriving DecidableEq, Repr

/-- What should not have happened. -/
inductive InternalFault where
  | described (text : String)
  | panicked (message : String)
  | noRuntime
  | countOutOfRange (number : String)
  | countNotNumber (text : String)
  | noAggregate
  deriving DecidableEq, Repr

/-- The reason why an operation gave no result. -/
inductive Fault where
  | connectionNotFound (name : String)
  | querySpec (cause : RequestFault)
  | sqlCompilation (dialect : Dialect) (construct : String)
  | encryption (cause : SealFault)
  | decryption (cause : OpenFault)
  | schemaOperation (step : Nat) (statement message : String)
  | batchNotFound (id : String)
  | database (detail : String)
  | timeout (detail : String)
  | configuration (cause : SettingsFault)
  | internal (cause : InternalFault)
  deriving DecidableEq, Repr

namespace RequestFault

def message : RequestFault → String
  | .described text => text
  | .invalidIdentifier name => "invalid identifier: '" ++ name ++ "'"
  | .unknownOperator text => "unknown operator: '" ++ text ++ "'"
  | .arrayExpected operator column => operator.sql ++ " on '" ++ column ++ "' requires an array value"
  | .betweenCount column count =>
    "BETWEEN on '" ++ column ++ "' requires exactly 2 values, got " ++ Text.ofNat count
  | .betweenShape column => "BETWEEN on '" ++ column ++ "' requires an array of 2 values"
  | .columnExpected column => "join condition on '" ++ column ++ "' must reference a column"
  | .scalarExpected column => "condition on '" ++ column ++ "' expects a scalar value"
  | .nullOperand column => "condition on '" ++ column ++ "' compares with null; use IS NULL"
  | .emptyGroup => "condition group is empty"
  | .crossJoinCondition table => "CROSS JOIN on '" ++ table ++ "' cannot have ON conditions"
  | .joinWithoutCondition keyword table => keyword ++ " on '" ++ table ++ "' requires an ON condition"
  | .orderedUnionMember => "ORDER BY and LIMIT belong to the primary query of a UNION"
  | .cteInUnionMember => "a UNION member cannot declare a CTE"
  | .emptyFragment context => context ++ " is empty"
  | .unsafeFragment context => context ++ " contains a statement separator or comment"
  | .sortDirection text => "invalid sort direction in '" ++ text ++ "'"
  | .sortTerm text => "invalid ORDER BY term: '" ++ text ++ "'"
  | .noSearchColumns => "full-text search requires at least one column"
  | .jsonPath path => "invalid JSON path: '" ++ path ++ "'"
  | .noRows => "insert requires at least one row"
  | .rowColumns index => "row " ++ Text.ofNat index ++ " has different columns than row 0"
  | .rowsWithoutColumns => "multi-row insert requires at least one column"
  | .noUniqueColumns => "upsert requires at least one unique column"
  | .uniqueColumnMissing column => "unique column '" ++ column ++ "' is missing from upsert rows"
  | .noAssignments => "update requires at least one column"
  | .noConditions operation => operation ++ " requires at least one where condition"
  | .noSoftDelete table => "table '" ++ table ++ "' does not use soft delete"
  | .encryptedKey column => "encrypted column '" ++ column ++ "' cannot be an upsert key"
  | .notSearchable column => "encrypted column '" ++ column ++ "' is not searchable"
  | .equalityOnly column => "encrypted column '" ++ column ++ "' only supports equality lookups"
  | .noColumns table => "table '" ++ table ++ "' needs at least one column"
  | .duplicateColumn column => "duplicate column '" ++ column ++ "'"
  | .noActions => "alter table requires at least one action"
  | .encryptedModify column =>
    "encrypted column '" ++ column ++ "' cannot be modified; drop and add it instead"
  | .encryptedRename column => "encrypted column '" ++ column ++ "' cannot be renamed"
  | .autoIncrementModify column =>
    "column '" ++ column ++ "' cannot be modified into an auto-increment column"
  | .autoIncrementEncrypted column => "auto-increment column '" ++ column ++ "' cannot be encrypted"
  | .encryptedDefault column => "encrypted column '" ++ column ++ "' cannot have a default value"
  | .uniqueUnsearchable column => "unique encrypted column '" ++ column ++ "' must be searchable"
  | .defaultNotScalar => "column default must be a scalar"
  | .noPrivileges statement => statement ++ " requires at least one privilege"
  | .unknownPrivilege text => "unknown privilege '" ++ text ++ "'"
  | .invalidPrincipal text => "invalid principal '" ++ text ++ "'"
  | .parameters operation => "invalid " ++ operation ++ " params"
  | .operationList => "invalid operations file"

end RequestFault

namespace SettingsFault

def message : SettingsFault → String
  | .described text => text
  | .noScheme redactedUrl => "connection url has no scheme: " ++ redactedUrl
  | .unsupportedScheme scheme => "unsupported database scheme: " ++ scheme
  | .templateWithoutId => "tenant url template must contain \x7bid\x7d"
  | .unknownPolicy text => "unknown raw SQL policy: " ++ text
  | .variable name value => name ++ " has an invalid value: '" ++ value ++ "'"
  | .keyEntryShape => "encryption key entry must look like <version>:<base64>"
  | .keyVersion text => "invalid encryption key version: '" ++ text ++ "'"
  | .keyEncoding version => "encryption key " ++ Text.ofNat version ++ " is not valid base64"
  | .keyLength version length =>
    "encryption key " ++ Text.ofNat version ++ " must be 32 bytes, got " ++ Text.ofNat length
  | .duplicateKey version => "duplicate encryption key version " ++ Text.ofNat version
  | .activeKeyMissing version =>
    "active encryption key version " ++ Text.ofNat version ++ " is not configured"
  | .keyExists version => "encryption key version " ++ Text.ofNat version ++ " already exists"
  | .operationFile => "cannot read operations file"

end SettingsFault

namespace SealFault

def message : SealFault → String
  | .described text => text
  | .keyNotConfigured version table column =>
    "key version " ++ Text.ofNat version ++ " for " ++ table ++ "." ++ column ++ " is not configured"

end SealFault

namespace OpenFault

def message : OpenFault → String
  | .described text => text
  | .malformed => "malformed ciphertext envelope"
  | .unknownAlgorithm tag => "unknown cipher algorithm '" ++ tag ++ "'"
  | .unknownKey version => "unknown key version " ++ Text.ofNat version
  | .authentication => "authentication failed"
  | .invalidText => "plaintext is not valid UTF-8"
  | .invalidValue table column => table ++ "." ++ column

end OpenFault

namespace InternalFault

def message : InternalFault → String
  | .described text => text
  | .panicked message => "operation panicked: " ++ message
  | .noRuntime => "parallel execution requires a tokio runtime"
  | .countOutOfRange number => "count result out of range: " ++ number
  | .countNotNumber text => "count result is not a number: " ++ text
  | .noAggregate => "count query returned no aggregate"

end InternalFault

/-- The kind of a fault, as it is reported in results. -/
inductive FaultKind where
  | connectionNotFound
  | querySpec
  | sqlCompilation
  | encryption
  | decryption
  | schemaOperation
  | batchNotFound
  | database
  | timeout
  | configuration
  | internal
  deriving DecidableEq, Repr

namespace FaultKind

def name : FaultKind → String
  | .connectionNotFound => "connectionNotFound"
  | .querySpec => "querySpec"
  | .sqlCompilation => "sqlCompilation"
  | .encryption => "encryption"
  | .decryption => "decryption"
  | .schemaOperation => "schemaOperation"
  | .batchNotFound => "batchNotFound"
  | .database => "database"
  | .timeout => "timeout"
  | .configuration => "configuration"
  | .internal => "internal"

def ofName? : String → Option FaultKind
  | "connectionNotFound" => some .connectionNotFound
  | "querySpec" => some .querySpec
  | "sqlCompilation" => some .sqlCompilation
  | "encryption" => some .encryption
  | "decryption" => some .decryption
  | "schemaOperation" => some .schemaOperation
  | "batchNotFound" => some .batchNotFound
  | "database" => some .database
  | "timeout" => some .timeout
  | "configuration" => some .configuration
  | "internal" => some .internal
  | _ => none

def ofJsonAt? (place : Place) : Value → Option FaultKind :=
  Value.asNameAt? place ofName?

def ofJson? : Value → Option FaultKind :=
  ofJsonAt? .alone

end FaultKind

/-- How urgent a fault is: a failure of the system, of an execution, of the caller's input, or an
everyday event. -/
inductive Severity where
  | critical
  | high
  | medium
  | low
  deriving DecidableEq, Repr

namespace Severity

def name : Severity → String
  | .critical => "Critical"
  | .high => "High"
  | .medium => "Medium"
  | .low => "Low"

/-- The level at which a fault of this severity is logged. -/
def logLevel : Severity → String
  | .critical => "ERROR"
  | .high => "ERROR"
  | .medium => "WARN"
  | .low => "INFO"

/-- The mark that opens the log line of a fault of this severity. -/
def mark : Severity → String
  | .critical => "[CRITICAL]"
  | .high => "[HIGH]"
  | .medium => "[MEDIUM]"
  | .low => "[LOW]"

end Severity

namespace Fault

def kind : Fault → FaultKind
  | .connectionNotFound _ => .connectionNotFound
  | .querySpec _ => .querySpec
  | .sqlCompilation _ _ => .sqlCompilation
  | .encryption _ => .encryption
  | .decryption _ => .decryption
  | .schemaOperation _ _ _ => .schemaOperation
  | .batchNotFound _ => .batchNotFound
  | .database _ => .database
  | .timeout _ => .timeout
  | .configuration _ => .configuration
  | .internal _ => .internal

def message : Fault → String
  | .connectionNotFound name => "connection not found: " ++ name
  | .querySpec cause => "invalid query spec: " ++ cause.message
  | .sqlCompilation dialect construct => dialect.name ++ " cannot compile " ++ construct
  | .encryption cause => "encryption failed: " ++ cause.message
  | .decryption cause => "decryption failed: " ++ cause.message
  | .schemaOperation step statement message =>
    "schema operation failed at step " ++ Text.ofNat step ++ " (" ++ statement ++ "): " ++ message
  | .batchNotFound id => "batch not found: " ++ id
  | .database detail => "database error: " ++ detail
  | .timeout detail => "timeout: " ++ detail
  | .configuration cause => "configuration error: " ++ cause.message
  | .internal cause => "internal error: " ++ cause.message

def severity : Fault → Severity
  | .configuration _ => .critical
  | .internal _ => .critical
  | .database _ => .high
  | .schemaOperation _ _ _ => .high
  | .decryption _ => .high
  | .encryption _ => .high
  | .timeout _ => .high
  | .querySpec _ => .medium
  | .sqlCompilation _ _ => .medium
  | .connectionNotFound _ => .medium
  | .batchNotFound _ => .low

/-- The line that is logged for a fault in a context. -/
def logLine (fault : Fault) (context : String) : String :=
  fault.severity.mark ++ " " ++ context ++ " - " ++ fault.message

end Fault

end TableGate
