import TableGate.Batch.Run
import TableGate.Service.Request

/-!
# Sessions

A session is a service at work: the answers that its databases will give, the statements that have been
sent, and the pools of connections that have been opened. Operations on rows send their one statement;
a schema change sends its statements one after the other and takes effect step by step.
-/

namespace TableGate

/-- The connections kept open to a database, the number of statements sent over them, and the number of
those that succeeded. -/
structure Pool where
  maxConnections : UInt32
  sent : Nat := 0
  succeeded : Nat := 0
  deriving DecidableEq, Repr

/-- A service at work. The answers still to come and the statements already sent are in order. -/
structure Session where
  service : Service
  replies : List Reply
  sent : List (String × Statement) := []
  pools : NameMap Pool := .empty

namespace Session

/-- The answer in the absence of one. -/
def noReply : Reply :=
  .refused (.database "no answer")

def pool (s : Session) (c : Connection) : Pool :=
  (s.pools.get? c.name).getD { maxConnections := c.maxConnections }

/-- Opens the pool of a connection, unless it is open already. This fails if the database cannot be reached. -/
def connect (s : Session) (c : Connection) : Except Fault Unit × Session :=
  match s.pools.get? c.name, s.replies.head? with
  | none, some (.unreachable refusal) => (.error refusal.fault, { s with replies := s.replies.tail })
  | _, _ => (.ok (), { s with pools := s.pools.insert c.name (s.pool c) })

/-- Sends a statement over a connection of the pool, which is opened for it if need be, and takes the answer.
Without a connection the statement is not sent. -/
def send (s : Session) (c : Connection) (statement : Statement) : Reply × Session :=
  let reply := s.replies.head?.getD noReply
  let next := { s with replies := s.replies.tail }
  let sent (succeeded : Nat) :=
    let pool := s.pool c
    { next with
      sent := s.sent ++ [(c.name, statement)]
      pools := s.pools.insert c.name
        { pool with sent := pool.sent + 1, succeeded := pool.succeeded + succeeded } }
  match reply with
  | .unreachable _ => (reply, next)
  | .refused _ => (reply, sent 0)
  | _ => (reply, sent 1)

/-- Sends a prepared statement, if it could be prepared, and reads its answer. -/
def perform {α : Type} (s : Session) (prepared : Except Fault (Prepared α)) : Except Fault α × Session :=
  match prepared with
  | .error fault => (.error fault, s)
  | .ok p =>
    let (reply, s) := s.send p.connection p.statement
    (p.read reply, s)

/-- The session with a changed service, if there is one. -/
def change (s : Session) (service : Except Fault Service) : Except Fault Unit × Session :=
  match service with
  | .error fault => (.error fault, s)
  | .ok service => (.ok (), { s with service })

/-! ## Schema changes -/

/-- Sends the statements of steps, from the given position on, and applies the effects of each that
succeeds. The first that fails ends the change. The answer lists the statements. -/
def runSteps (s : Session) (c : Connection) (table : String) :
    Nat → List SchemaStep → Except Fault (List String) × Session
  | _, [] => (.ok [], s)
  | index, step :: rest =>
    let sql := step.statement.print c.dialect
    let (reply, s) := s.send c ⟨sql, []⟩
    match reply.settled with
    | .error fault => (.error (.schemaOperation index sql fault.message), s)
    | .ok () =>
      let s := { s with service := s.service.applyEffects c.name table step.effects }
      match s.runSteps c table (index + 1) rest with
      | (.ok done, s) => (.ok (sql :: done), s)
      | (.error fault, s) => (.error fault, s)

/-- Carries out all steps of a change, once the pool of the connection is open. -/
def runAll (s : Session) (c : Connection) (table : String) (steps : List SchemaStep) :
    Except Fault (List String) × Session :=
  match s.connect c with
  | (.error fault, s) => (.error fault, s)
  | (.ok (), s) => s.runSteps c table 0 steps

/-- Changes the schema of a table. Nothing is sent unless the whole change can be planned. -/
def applySchema (s : Session) (connection table : String) (change : SchemaChange) :
    Except Fault (List String) × Session :=
  match s.service.planSchema connection table change with
  | .error fault => (.error fault, s)
  | .ok (c, steps) => s.runAll c table steps

/-! ## Operations and batches -/

/-- Carries out an action on a table. -/
def carryOut (s : Session) (connection table : String) (action : Action) (nonces : Nonces) :
    Except Fault OperationData × Session :=
  let service := s.service
  let rows (p : Except Fault (Prepared (List Row))) := s.perform (p.map (·.map .rows))
  let number (p : Except Fault (Prepared Int)) := s.perform (p.map (·.map .count))
  let affected (p : Except Fault (Prepared AffectedInfo)) := s.perform (p.map (·.map .affected))
  match action with
  | .select query => rows (service.query connection table query)
  | .fetch conditions => rows (service.fetch connection table conditions)
  | .count conditions => number (service.fetchCount connection table conditions)
  | .insert items => affected (service.insert connection table items nonces)
  | .update params => affected (service.update connection table params.values params.conditions nonces)
  | .upsert params =>
    affected (service.upsert connection table params.rows params.uniqueBy params.update nonces)
  | .delete conditions => affected (service.delete connection table conditions)
  | .softDelete conditions => affected (service.softDelete connection table conditions)
  | .permanentDelete conditions => affected (service.permanentDelete connection table conditions)
  | .restore conditions => affected (service.restore connection table conditions)
  | .schema change =>
    let (result, s) := s.applySchema connection table change
    (result.map .schema, s)

def execute (s : Session) (operation : Operation) (nonces : Nonces) :
    Except Fault OperationData × Session :=
  match operation.action with
  | .error fault => (.error fault, s)
  | .ok action => s.carryOut operation.connection operation.table action nonces

/-- Carries out the operations of batches. Each operation has random bytes of its own. -/
def runner (nonces : Nat → Nonces) (index : Nat) (operation : Operation) (s : Session) :
    Execution × Session :=
  let (result, s) := s.execute operation (nonces index)
  (.ended result, s)

end Session

end TableGate
