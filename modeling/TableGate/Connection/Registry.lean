import TableGate.Connection.Settings
import TableGate.Connection.Url
import TableGate.Text.Quoted

/-!
# The registry of connections

From the name of a connection to its description. A name is configured, or it names a tenant; what has
been found for a tenant is kept until the tenant is evicted.
-/

namespace TableGate

/-- Who shares a connection. -/
inductive Isolation where
  | shared
  | tenant (id : String)
  deriving DecidableEq, Repr

/-- A connection: its name, the database it leads to, and the number of connections kept open to it. -/
structure Connection where
  name : String
  dialect : Dialect
  url : String
  isolation : Isolation
  maxConnections : UInt32
  deriving DecidableEq, Repr

/-- The connections of tenants: the settings, the dialect, and the limit that applies. -/
structure TenantPattern where
  template : String
  dialect : Dialect
  maxConnections : UInt32
  deriving DecidableEq, Repr

/-- The configured connections, the pattern for tenants, and the tenants that have been found. -/
structure Registry where
  fixed : NameMap Connection
  tenants : Option TenantPattern
  found : NameMap Connection

namespace Isolation

def shown : Isolation → String
  | .shared => "Shared"
  | .tenant id => "Tenant(" ++ Text.quoted id ++ ")"

end Isolation

namespace Connection

/-- The text that shows a connection and keeps its password secret. -/
def shown (c : Connection) : String :=
  "ConnectionDescriptor \x7b name: " ++ Text.quoted c.name ++ ", dialect: " ++ c.dialect.title ++
    ", url: " ++ Text.quoted (Url.redacted c.url) ++ ", isolation: " ++ c.isolation.shown ++
    ", max_connections: " ++ Text.ofNat c.maxConnections.toNat ++ " \x7d"

end Connection

namespace TenantPattern

/-- The mark in a template that stands for the identifier of a tenant. -/
def idMark : List Char :=
  ['\x7b', 'i', 'd', '\x7d']

def of? (settings : TenantSettings) (defaultMax : UInt32) : Except Fault TenantPattern := do
  if Text.occursIn idMark settings.template.toList then
    let dialect ← Url.dialect? settings.template
    return ⟨settings.template, dialect, settings.maxConnections.getD defaultMax⟩
  else
    .error (.configuration .templateWithoutId)

def url (p : TenantPattern) (id : String) : String :=
  String.ofList (Text.replace idMark id.toList p.template.toList)

def connection (p : TenantPattern) (name id : String) : Connection :=
  ⟨name, p.dialect, p.url id, .tenant id, p.maxConnections⟩

end TenantPattern

namespace Registry

/-- What the name of a connection of a tenant opens with. -/
def tenantMark : String := "tenant_"

def connection? (name : String) (settings : ConnectionSettings) (defaultMax : UInt32) :
    Except Fault Connection := do
  let dialect ← Url.dialect? settings.url
  return ⟨name, dialect, settings.url, .shared, settings.maxConnections.getD defaultMax⟩

def of? (connections : NameMap ConnectionSettings) (tenants : Option TenantSettings)
    (defaultMax : UInt32) : Except Fault Registry := do
  let fixed ← connections.entries.mapM fun (name, settings) => do
    return (name, ← connection? name settings defaultMax)
  let tenants ← tenants.mapM (TenantPattern.of? · defaultMax)
  return ⟨.ofList fixed, tenants, .empty⟩

def names (r : Registry) : List String :=
  r.fixed.names

/-- The identifier of the tenant that a name stands for. -/
def tenantId? (name : String) : Option String :=
  match Text.after? tenantMark.toList name.toList with
  | some id => if Text.isWord id then some (String.ofList id) else none
  | none => none

/-- The connection that the pattern for tenants gives to a name. -/
def tenant? (r : Registry) (name : String) : Option Connection := do
  let id ← tenantId? name
  let pattern ← r.tenants
  return pattern.connection name id

/-- The connection of a name: the configured one, the one found earlier, or that of a tenant. -/
def find? (r : Registry) (name : String) : Except Fault Connection :=
  match r.fixed.get? name <|> r.found.get? name <|> r.tenant? name with
  | some c => .ok c
  | none => .error (.connectionNotFound name)

/-- Whether the connection of a name is at hand, without a look at the pattern for tenants. -/
def holds (r : Registry) (name : String) : Bool :=
  r.fixed.contains name || r.found.contains name

/-- The connection of a name, and the registry that keeps it. -/
def resolve (r : Registry) (name : String) : Except Fault (Connection × Registry) := do
  let c ← r.find? name
  return (c, if r.holds name then r else { r with found := r.found.insert name c })

/-- Whether the connection of a tenant was kept, and the registry without it. -/
def evict (r : Registry) (id : String) : Bool × Registry :=
  let name := tenantMark ++ id
  (r.found.contains name, { r with found := r.found.erase name })

end Registry

end TableGate
