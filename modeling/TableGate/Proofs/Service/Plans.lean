import TableGate.Proofs.Failure
import TableGate.Service.Call

/-! # What a request comes to

Before anything is sent, a request has come to one statement for a connection and a way to read the answer, or
to the steps of a schema change there. What is sent, and all that changes, follows from that alone. -/

namespace TableGate

/-- What a request comes to. -/
inductive Plan where
  | statement (p : Prepared OperationData)
  | steps (c : Connection) (table : String) (steps : List SchemaStep)

namespace Plan

/-- The plan to send a statement. -/
def ofPrepared {α : Type} (f : α → OperationData) (prepared : Except Fault (Prepared α)) : Except Fault Plan :=
  prepared.map fun p => .statement (p.map f)

/-- The connection that statements are sent to. -/
def connection : Plan → Connection
  | .statement p => p.connection
  | .steps c _ _ => c

end Plan

namespace Service

def planAction (s : Service) (connection table : String) (nonces : Nonces) : Action → Except Fault Plan
  | .select query => Plan.ofPrepared .rows (s.query connection table query)
  | .fetch conditions => Plan.ofPrepared .rows (s.fetch connection table conditions)
  | .count conditions => Plan.ofPrepared .count (s.fetchCount connection table conditions)
  | .insert items => Plan.ofPrepared .affected (s.insert connection table items nonces)
  | .update params =>
    Plan.ofPrepared .affected (s.update connection table params.values params.conditions nonces)
  | .upsert params =>
    Plan.ofPrepared .affected (s.upsert connection table params.rows params.uniqueBy params.update nonces)
  | .delete conditions => Plan.ofPrepared .affected (s.delete connection table conditions)
  | .softDelete conditions => Plan.ofPrepared .affected (s.softDelete connection table conditions)
  | .permanentDelete conditions => Plan.ofPrepared .affected (s.permanentDelete connection table conditions)
  | .restore conditions => Plan.ofPrepared .affected (s.restore connection table conditions)
  | .schema change =>
    (s.planSchema connection table change).map fun (c, steps) => .steps c table steps

def plan (s : Service) (nonces : Nonces) : Request → Except Fault Plan
  | .act connection table action => s.planAction connection table nonces action
  | .count connection table conditions => Plan.ofPrepared .count (s.count connection table conditions)
  | .edit connection table values conditions =>
    Plan.ofPrepared .affected (s.edit connection table values conditions nonces)
  | .operation o => do s.planAction o.connection o.table nonces (← o.action)

end Service

namespace Session

/-- Carries out a plan, if there is one. -/
def follow (s : Session) : Except Fault Plan → Except Fault OperationData × Session
  | .error fault => (.error fault, s)
  | .ok (.statement p) => s.perform (.ok p)
  | .ok (.steps c table steps) =>
    let (result, s) := s.runAll c table steps
    (result.map .schema, s)

theorem follow_ofPrepared {α : Type} (s : Session) (f : α → OperationData)
    (prepared : Except Fault (Prepared α)) :
    s.follow (Plan.ofPrepared f prepared) = s.perform (prepared.map (·.map f)) := by
  cases prepared <;> rfl

theorem carryOut_eq (s : Session) (connection table : String) (action : Action) (nonces : Nonces) :
    s.carryOut connection table action nonces =
      s.follow (s.service.planAction connection table nonces action) := by
  cases action with
  | schema change =>
      rw [carryOut, applySchema, Service.planAction]
      cases s.service.planSchema connection table change <;> rfl
  | _ => exact (follow_ofPrepared _ _ _).symm

/-- A request is carried out as planned. -/
theorem respond_eq (s : Session) (nonces : Nonces) (r : Request) :
    s.respond nonces r = s.follow (s.service.plan nonces r) := by
  cases r with
  | act connection table action => exact s.carryOut_eq connection table action nonces
  | count connection table conditions => exact (follow_ofPrepared _ _ _).symm
  | edit connection table values conditions => exact (follow_ofPrepared _ _ _).symm
  | operation o =>
      rw [respond, execute, Service.plan]
      cases o.action with
      | error fault => rfl
      | ok action => exact s.carryOut_eq o.connection o.table action nonces

end Session

end TableGate
