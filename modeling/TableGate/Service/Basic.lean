import TableGate.Connection.Registry
import TableGate.Query.Write
import TableGate.Schema.Catalog
import TableGate.Schema.Plan
import TableGate.Settings.Service
import TableGate.Vault.Search

/-!
# The service

What a service knows: its connections, its vault, and its catalog. Each of its operations is planned
from this alone, before anything is sent to a database.
-/

namespace TableGate

/-- The connections, the vault, the catalog, and the policy for raw fragments. -/
structure Service where
  registry : Registry
  vault : Vault
  catalog : Catalog
  policy : RawPolicy

namespace Service

/-- The service of some settings. The random bytes are used as a key if there is no other. -/
def new? (suite : CipherSuite) (settings : ServiceSettings) (random : Bytes) : Except Fault Service := do
  let registry ← Registry.of? settings.connections settings.tenants settings.pool.maxConnections
  let encryption := settings.encryption
  let keys ← KeyRing.ofKeys? encryption.keys encryption.activeVersion random
  let vault := Vault.new suite keys (Bytes.ofText encryption.pepper) encryption.algorithm
  return ⟨registry, vault, .empty, settings.query.policy⟩

def compiler (s : Service) (c : Connection) : Compiler :=
  ⟨c.dialect, s.policy⟩

/-- The tables of a connection that keep deleted rows. -/
def scope (s : Service) (c : Connection) : Scope :=
  s.catalog.column? c.name

/-- What is remembered about a table. -/
def tableState (s : Service) (connection table : String) : TableState :=
  ⟨s.vault.columns.get connection table, s.catalog.column? connection table⟩

/-- The connection of a name, and the steps of a schema change to a table of it. -/
def planSchema (s : Service) (connection table : String) (change : SchemaChange) :
    Except Fault (Connection × List SchemaStep) := do
  let c ← s.registry.find? connection
  let planner : SchemaPlanner := ⟨c.dialect, s.policy, s.vault.algorithm⟩
  return (c, ← planner.plan? table (s.tableState c.name table) change)

def applyEffect (s : Service) (connection table : String) : CatalogEffect → Service
  | .registerEncrypted column => { s with vault := s.vault.register connection table column }
  | .unregisterEncrypted column => { s with vault := s.vault.unregister connection table column }
  | .renameColumn source target =>
    { s with
      vault := s.vault.rename connection table source target
      catalog := s.catalog.rename connection table source target }
  | .enableSoftDelete column => { s with catalog := s.catalog.enable connection table column }
  | .disableSoftDelete => { s with catalog := s.catalog.disable connection table }
  | .dropTable =>
    { s with
      vault := s.vault.unregisterTable connection table
      catalog := s.catalog.remove connection table }

def applyEffects (s : Service) (connection table : String) (effects : List CatalogEffect) : Service :=
  effects.foldl (fun s e => s.applyEffect connection table e) s

/-! ## Keys, encrypted columns and single texts -/

/-- Encrypts a text, bound to a connection. -/
def encrypt (s : Service) (connection text : String) (nonce : Nonce) : Except Fault String := do
  let c ← s.registry.find? connection
  return s.vault.encrypt c.name text nonce

def decrypt (s : Service) (connection text : String) : Except Fault String := do
  let c ← s.registry.find? connection
  s.vault.decrypt c.name text

def rotateKey (s : Service) (bytes : Bytes) : Option (Except Fault Service) :=
  (s.vault.rotate bytes).map fun rotated => rotated.map fun vault => { s with vault }

/-- The service in which a column of an existing table is encrypted as described. -/
def registerColumn (s : Service) (connection table : String) (column : EncryptedColumn) :
    Except Fault Service := do
  let c ← s.registry.find? connection
  return { s with vault := s.vault.register c.name table column }

/-- The service in which an existing table keeps deleted rows. -/
def enableSoftDelete (s : Service) (connection table : String) (column : Option String) :
    Except Fault Service := do
  let c ← s.registry.find? connection
  return { s with catalog := s.catalog.enable c.name table (column.getD defaultSoftDelete) }

end Service

end TableGate
