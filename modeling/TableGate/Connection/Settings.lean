import TableGate.Json.Record

/-!
# Settings of connections

A connection with a fixed URL, and the pattern of the connections of tenants.
-/

namespace TableGate

/-- A connection that is configured by name. -/
structure ConnectionSettings where
  url : String
  maxConnections : Option UInt32 := none
  deriving DecidableEq, Repr

/-- The connections of tenants; the URL of one has its identifier in the marked places. -/
structure TenantSettings where
  template : String
  maxConnections : Option UInt32 := none
  deriving DecidableEq, Repr

namespace ConnectionSettings

def ofJson? (v : Value) : Option ConnectionSettings := do
  let fields ← Fields.of? 2 v
  return {
    url := ← fields.required 0 "url" Value.asText?
    maxConnections := ← fields.nullable 1 "max_connections" Value.asUInt32? }

def toJson (s : ConnectionSettings) : Value :=
  .object [("max_connections", .ofNumber? (fun n => n.toNat) s.maxConnections), ("url", .text s.url)]

end ConnectionSettings

namespace TenantSettings

def ofJson? (v : Value) : Option TenantSettings := do
  let fields ← Fields.of? 2 v
  return {
    template := ← fields.required 0 "url_template" Value.asText?
    maxConnections := ← fields.nullable 1 "max_connections" Value.asUInt32? }

def toJson (s : TenantSettings) : Value :=
  .object [("max_connections", .ofNumber? (fun n => n.toNat) s.maxConnections),
    ("url_template", .text s.template)]

end TenantSettings

end TableGate
