import TableGate.Connection.Settings
import TableGate.Sql.RawPolicy
import TableGate.Vault.KeyRing

/-!
# Settings of the service

The settings that a service starts from, and their defaults.
-/

namespace TableGate

/-- How connections are kept open. Times are in seconds, the delay of a retry in milliseconds. -/
structure PoolSettings where
  maxConnections : UInt32 := 10
  connectTimeout : UInt64 := 10
  idleTimeout : UInt64 := 600
  maxLifetime : UInt64 := 3600
  retry : Bool := true
  maxRetries : UInt32 := 3
  retryDelay : UInt64 := 100
  deriving DecidableEq, Repr

/-- How many operations of batches are under way at once, and how long their results are kept, in
seconds. Without a number of workers the machine decides. -/
structure BatchSettings where
  workers : Option UInt64 := none
  perConnection : UInt64 := 4
  resultLifetime : UInt64 := 86400
  sweepInterval : UInt64 := 300
  deriving DecidableEq, Repr

/-- How queries are logged, and the policy for raw fragments. -/
structure QuerySettings where
  logged : Bool := true
  slowThreshold : UInt64 := 1000
  policy : RawPolicy := .guarded
  deriving DecidableEq, Repr

/-- The keys and the secret for hashes. -/
structure EncryptionSettings where
  keys : List KeyMaterial := []
  activeVersion : Option UInt32 := none
  pepper : String := ""
  algorithm : CipherAlgorithm := .chacha20Poly1305
  deriving DecidableEq, Repr

/-- All settings of a service. -/
structure ServiceSettings where
  connections : NameMap ConnectionSettings := .empty
  tenants : Option TenantSettings := none
  query : QuerySettings := {}
  pool : PoolSettings := {}
  batch : BatchSettings := {}
  encryption : EncryptionSettings := {}

namespace EncryptionSettings

/-- The text that shows the settings and keeps the keys and the secret for hashes secret. -/
def shown (s : EncryptionSettings) : String :=
  let versions := s.keys.map fun key => Text.ofNat key.version.toNat
  let active := match s.activeVersion with
    | some version => "Some(" ++ Text.ofNat version.toNat ++ ")"
    | none => "None"
  "EncryptionConfig \x7b key_versions: [" ++ String.intercalate ", " versions ++
    "], active_version: " ++ active ++ ", hash_pepper: \"***\", default_algorithm: " ++
    s.algorithm.title ++ " \x7d"

end EncryptionSettings

end TableGate
