import TableGate.Service.Session

/-!
# Calls

Everything that a service can be called for, as data. A request is about rows or about the schema; other
calls are in the caller's own SQL, or are about keys, encrypted columns, single texts and connections.
-/

namespace TableGate

/-- A request about the rows or the schema of a table. Most come as an action; rows are also counted by a list
of conditions, and edited where a map chooses them; and an operation has its action in JSON. -/
inductive Request where
  | act (connection table : String) (action : Action)
  | count (connection table : String) (conditions : List Condition)
  | edit (connection table : String) (values conditions : Row)
  | operation (operation : Operation)

/-- A call on a service, with the random bytes that it uses. -/
inductive Call where
  | request (request : Request) (nonces : Nonces)
  | selectRaw (connection : String) (statement : Statement)
  | executeRaw (connection : String) (statement : Statement)
  | health (connection : String)
  | encrypt (connection text : String) (nonce : Nonce)
  | decrypt (connection text : String)
  | registerColumn (connection table : String) (column : EncryptedColumn)
  | enableSoftDelete (connection table : String) (column : Option String)
  | resolve (connection : String)
  | rotateKey (bytes : Bytes)

/-- What a call is answered with. -/
inductive Answer where
  | data (data : OperationData)
  | healthy (healthy : Bool)
  | text (text : String)
  | connection (connection : Connection)
  | version (version : UInt32)
  | done

/-- The action is to change a schema. -/
def Action.changesSchema : Action → Bool
  | .schema _ => true
  | _ => false

namespace Request

def connection : Request → String
  | .act connection _ _ => connection
  | .count connection _ _ => connection
  | .edit connection _ _ _ => connection
  | .operation o => o.connection

def table : Request → String
  | .act _ table _ => table
  | .count _ table _ => table
  | .edit _ table _ _ => table
  | .operation o => o.table

/-- The request is to change a schema. -/
def changesSchema : Request → Bool
  | .act _ _ action => action.changesSchema
  | .operation o => o.kind = .schema
  | _ => false

end Request

namespace Call

/-- The name of the connection that a call is on. A new key is for all of them. -/
def connection? : Call → Option String
  | .request r _ => some r.connection
  | .selectRaw connection _ => some connection
  | .executeRaw connection _ => some connection
  | .health connection => some connection
  | .encrypt connection _ _ => some connection
  | .decrypt connection _ => some connection
  | .registerColumn connection _ _ => some connection
  | .enableSoftDelete connection _ _ => some connection
  | .resolve connection => some connection
  | .rotateKey _ => none

end Call

namespace Session

/-- Carries out a request. -/
def respond (s : Session) (nonces : Nonces) : Request → Except Fault OperationData × Session
  | .act connection table action => s.carryOut connection table action nonces
  | .count connection table conditions =>
    s.perform ((s.service.count connection table conditions).map (·.map .count))
  | .edit connection table values conditions =>
    s.perform ((s.service.edit connection table values conditions nonces).map (·.map .affected))
  | .operation o => s.execute o nonces

/-- Carries out a call. One that panics is not answered. -/
def call (s : Session) : Call → Option (Except Fault Answer) × Session
  | .request r nonces =>
    let (result, s) := s.respond nonces r
    (some (result.map .data), s)
  | .selectRaw connection statement =>
    let rows := s.service.selectRaw connection statement
    let (result, s) := s.perform (rows.map (·.map fun rows => .data (.rows rows)))
    (some result, s)
  | .executeRaw connection statement =>
    let info := s.service.executeRaw connection statement
    let (result, s) := s.perform (info.map (·.map fun info => .data (.affected info)))
    (some result, s)
  | .health connection =>
    let (result, s) := s.perform ((s.service.health connection).map (·.map .healthy))
    (some result, s)
  | .encrypt connection text nonce => (some ((s.service.encrypt connection text nonce).map .text), s)
  | .decrypt connection text => (some ((s.service.decrypt connection text).map .text), s)
  | .registerColumn connection table column =>
    let (result, s) := s.change (s.service.registerColumn connection table column)
    (some (result.map fun _ => .done), s)
  | .enableSoftDelete connection table column =>
    let (result, s) := s.change (s.service.enableSoftDelete connection table column)
    (some (result.map fun _ => .done), s)
  | .resolve connection =>
    let found := s.service.registry.resolve connection
    let (_, s) := s.change (found.map fun (_, registry) => { s.service with registry })
    (some (found.map fun (c, _) => .connection c), s)
  | .rotateKey bytes =>
    match s.service.rotateKey bytes with
    | none => (none, s)
    | some rotated =>
      let (result, s) := s.change rotated
      (some (result.map fun _ => .version s.service.vault.keys.active.version), s)

end Session

end TableGate
