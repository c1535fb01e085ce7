import TableGate.Batch.Permits
import TableGate.Batch.Store

/-!
# Carrying out a batch

The operations of a batch are carried out side by side. Each takes a permit of its connection and then
one of all, is carried out, gives both back, and records its outcome. A run moves one operation on by
one stage at a time, in any order that the permits allow.
-/

namespace TableGate

/-- How the carrying out of an operation ended: with a result, or in a panic with a message, if it had
one. -/
inductive Execution where
  | ended (result : Except Fault OperationData)
  | panicked (message : Option String)

/-- How far an operation has come: it waits, it has a permit of its connection, it has both permits and
is under way, it has given them back, or its outcome is recorded. -/
inductive Stage where
  | waiting
  | claimed
  | running
  | ended (outcome : Outcome)
  | recorded

/-- An operation that is moved on by one stage, by its position. -/
inductive Move where
  | claim (index : Nat)
  | start (index : Nat)
  | finish (index : Nat)
  | record (index : Nat)
  deriving DecidableEq, Repr

/-- A batch that is being carried out, in a world that its operations change. -/
structure BatchRun (σ : Type) where
  id : String
  tasks : List (Operation × Stage)
  world : σ
  store : BatchStore

namespace Execution

/-- The result of the carrying out of an operation. A panic is an internal fault. -/
def result : Execution → Except Fault OperationData
  | .ended result => result
  | .panicked message => .error (.internal (.panicked (message.getD "unknown panic")))

end Execution

namespace Stage

def isRunning : Stage → Bool
  | .running => true
  | _ => false

def isHolding : Stage → Bool
  | .claimed | .running => true
  | _ => false

end Stage

namespace BatchRun

variable {σ : Type}

/-- A new batch in a store, before any of its operations has moved. -/
def begin (store : BatchStore) (now : Nat) (operations : List Operation) (world : σ) : BatchRun σ :=
  let (id, store) := store.create now operations.length
  ⟨id, operations.map (·, .waiting), world, store⟩

def running (r : BatchRun σ) : Nat :=
  r.tasks.countP fun t => t.2.isRunning

def runningOn (r : BatchRun σ) (connection : String) : Nat :=
  r.tasks.countP fun t => t.1.connection == connection && t.2.isRunning

def holding (r : BatchRun σ) (connection : String) : Nat :=
  r.tasks.countP fun t => t.1.connection == connection && t.2.isHolding

def put (r : BatchRun σ) (index : Nat) (operation : Operation) (stage : Stage) : BatchRun σ :=
  { r with tasks := r.tasks.set index (operation, stage) }

/-- The run after a move, if that is possible. The runner carries out the operation at a position. -/
def move? (limits : Limits) (runner : Nat → Operation → σ → Execution × σ) (r : BatchRun σ) :
    Move → Option (BatchRun σ)
  | .claim i =>
    match r.tasks[i]? with
    | some (operation, .waiting) =>
      if r.holding operation.connection < limits.each then
        some (r.put i operation .claimed)
      else
        none
    | _ => none
  | .start i =>
    match r.tasks[i]? with
    | some (operation, .claimed) =>
      if r.running < limits.all then some (r.put i operation .running) else none
    | _ => none
  | .finish i =>
    match r.tasks[i]? with
    | some (operation, .running) =>
      let (execution, world) := runner i operation r.world
      some { r.put i operation (.ended (.ofResult execution.result)) with world }
    | _ => none
  | .record i =>
    match r.tasks[i]? with
    | some (operation, .ended outcome) =>
      some { r.put i operation .recorded with store := (r.store.record r.id i outcome).2 }
    | _ => none

/-- The run after moves, of which those that are not possible are left out. -/
def play (limits : Limits) (runner : Nat → Operation → σ → Execution × σ) (moves : List Move)
    (r : BatchRun σ) : BatchRun σ :=
  moves.foldl (fun r m => (r.move? limits runner m).getD r) r

/-- The moves that carry out operations one after the other, by their positions. -/
def inTurn (indices : List Nat) : List Move :=
  indices.flatMap fun i => [.claim i, .start i, .finish i, .record i]

/-- The moves that bring as many operations under way as the permits allow, if none ends. -/
def together (count : Nat) : List Move :=
  (List.range count).map .claim ++ (List.range count).map .start

/-- The run after all operations have been carried out, in the order in which the permits bring them
under way. -/
def complete (limits : Limits) (runner : Nat → Operation → σ → Execution × σ) (r : BatchRun σ) :
    BatchRun σ :=
  r.play limits runner (inTurn (Lineup.starts limits (r.tasks.map (·.1.connection))))

/-- The run with as many operations under way as the permits allow. -/
def saturate (limits : Limits) (runner : Nat → Operation → σ → Execution × σ) (r : BatchRun σ) :
    BatchRun σ :=
  r.play limits runner (together r.tasks.length)

def connections (r : BatchRun σ) : List String :=
  (r.tasks.map (·.1.connection)).eraseDups

/-- The number of operations that would be under way if only the permits of connections counted. -/
def demand (limits : Limits) (r : BatchRun σ) : Nat :=
  r.connections.foldl (fun total c =>
    total + min limits.each (r.tasks.countP fun t => t.1.connection == c)) 0

/-- The greatest number of operations that are under way on each connection. It is the same in every
order of moves only if the permits of all connections together are enough for all of it. -/
def peaks (limits : Limits) (r : BatchRun σ) : Option (List (String × Nat)) :=
  if r.demand limits ≤ limits.all then
    some (r.connections.map fun c =>
      (c, min limits.each (r.tasks.countP fun t => t.1.connection == c)))
  else
    none

end BatchRun

/-- Batches need a runtime that carries them out. -/
def requireRuntime (present : Bool) : Except Fault Unit :=
  if present then .ok () else .error (.internal .noRuntime)

end TableGate
