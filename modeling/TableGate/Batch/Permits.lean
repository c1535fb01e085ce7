/-!
# Permits

How many operations may be under way at once, and the order in which they get under way. An operation
takes a permit of its connection and then one of all. Permits are given in the order in which they are
asked for.
-/

namespace TableGate

/-- How many operations may be under way at once, in all and on one connection. At least one may. -/
structure Limits where
  workers : Nat
  perConnection : Nat
  deriving DecidableEq, Repr

/-- The operations that are not over, by their connections and positions: those without a permit, those
with one of their connection, and those under way, each in the order in which they came there. -/
structure Lineup where
  waiting : List (String × Nat) := []
  claimed : List (String × Nat) := []
  running : List (String × Nat) := []
  deriving DecidableEq, Repr

namespace Limits

def all (l : Limits) : Nat :=
  max 1 l.workers

def each (l : Limits) : Nat :=
  max 1 l.perConnection

theorem all_pos (l : Limits) : 0 < l.all :=
  Nat.le_max_left 1 l.workers

theorem each_pos (l : Limits) : 0 < l.each :=
  Nat.le_max_left 1 l.perConnection

end Limits

namespace Lineup

/-- The number of permits of a connection that are given out. -/
def holding (l : Lineup) (connection : String) : Nat :=
  (l.claimed ++ l.running).countP fun t => t.1 == connection

/-- The lineup after an operation has asked for a permit of its connection. -/
def ask (limits : Limits) (l : Lineup) (task : String × Nat) : Lineup :=
  if l.holding task.1 < limits.each then { l with claimed := l.claimed ++ [task] }
  else { l with waiting := l.waiting ++ [task] }

/-- The lineup after a permit of a connection has gone to the first operation that waits for it. -/
def pass (l : Lineup) (connection : String) : Lineup :=
  match l.waiting.find? fun t => t.1 == connection with
  | some task => { l with waiting := l.waiting.erase task, claimed := l.claimed ++ [task] }
  | none => l

/-- The lineup after the operation that has been under way for longest has ended. -/
def finish (l : Lineup) : Lineup :=
  match l.running with
  | ended :: others => { l with running := others }.pass ended.1
  | [] => l

/-- The positions of the operations in the order in which they get under way, if they end in that order
too. In each of a bounded number of steps one gets under way or ends. -/
def startsWithin (limits : Limits) : Nat → Lineup → List Nat
  | 0, _ => []
  | bound + 1, l =>
    match l.claimed with
    | task :: rest =>
      if l.running.length < limits.all then
        task.2 :: startsWithin limits bound { l with claimed := rest, running := l.running ++ [task] }
      else
        startsWithin limits bound l.finish
    | [] => startsWithin limits bound l.finish

/-- The positions of operations on the given connections in the order in which they get under way. -/
def starts (limits : Limits) (connections : List String) : List Nat :=
  startsWithin limits (2 * connections.length) (connections.zipIdx.foldl (ask limits) {})

end Lineup

end TableGate
