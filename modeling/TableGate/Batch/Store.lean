import TableGate.Batch.Outcome

/-!
# The results of batches

A batch has a slot for each of its operations. Its results can be looked at any number of times and
taken once, as long as its time has not run out.
-/

namespace TableGate

/-- The slots of a batch, the number of those still empty, and when its time runs out. -/
structure Batch where
  slots : List (Option Outcome)
  remaining : Nat
  expires : Nat

/-- What can be seen of a batch: the number of its operations, and the outcomes by their positions. -/
structure Snapshot where
  total : Nat
  items : List (Nat × Outcome)

/-- The batches by their names, how long each is kept, and how many there have been. -/
structure BatchStore where
  lifetime : Nat
  created : Nat
  live : NameMap Batch

namespace Snapshot

def completed (s : Snapshot) : Nat :=
  s.items.length

def isComplete (s : Snapshot) : Bool :=
  s.completed == s.total

def status (s : Snapshot) : String :=
  if s.isComplete then "complete" else "pending"

def toJson (s : Snapshot) : Value :=
  .object [("complete", .bool s.isComplete), ("completed", .int s.completed),
    ("items", .object (s.items.map fun (i, outcome) => (Text.ofNat i, outcome.toJson))),
    ("status", .text s.status), ("total", .int s.total)]

end Snapshot

namespace Batch

def empty (total expires : Nat) : Batch :=
  ⟨List.replicate total none, total, expires⟩

def isExpired (b : Batch) (now : Nat) : Bool :=
  b.expires ≤ now

/-- The filled slots, with their positions from the given one on. -/
def itemsFrom : Nat → List (Option Outcome) → List (Nat × Outcome)
  | _, [] => []
  | i, none :: rest => itemsFrom (i + 1) rest
  | i, some outcome :: rest => (i, outcome) :: itemsFrom (i + 1) rest

def snapshot (b : Batch) : Snapshot :=
  ⟨b.slots.length, itemsFrom 0 b.slots⟩

/-- The batch with an outcome in an empty slot, and whether it was the last one; nothing for a slot that
does not exist or is filled. -/
def record? (b : Batch) (index : Nat) (outcome : Outcome) : Option (Bool × Batch) :=
  match b.slots[index]? with
  | some none =>
    some (b.remaining == 1,
      { b with slots := b.slots.set index (some outcome), remaining := b.remaining - 1 })
  | _ => none

end Batch

namespace BatchStore

def empty (lifetime : Nat) : BatchStore :=
  ⟨lifetime, 0, .empty⟩

def name (number : Nat) : String :=
  "batch-" ++ Text.ofNat number

/-- The name of a new batch, and the store with it. -/
def create (s : BatchStore) (now total : Nat) : String × BatchStore :=
  let id := name s.created
  (id, { s with
    created := s.created + 1
    live := s.live.insert id (.empty total (now + s.lifetime)) })

/-- Records an outcome in an empty slot of a batch. The answer is whether it was the last one. -/
def record (s : BatchStore) (id : String) (index : Nat) (outcome : Outcome) : Bool × BatchStore :=
  match (s.live.get? id).bind (·.record? index outcome) with
  | some (last, batch) => (last, { s with live := s.live.insert id batch })
  | none => (false, s)

def forget (s : BatchStore) (id : String) : BatchStore :=
  { s with live := s.live.erase id }

/-- The batch of a name. One whose time has run out is forgotten. -/
def find (s : BatchStore) (now : Nat) (id : String) : Except Fault Batch × BatchStore :=
  match s.live.get? id with
  | none => (.error (.batchNotFound id), s)
  | some batch =>
    if batch.isExpired now then (.error (.batchNotFound id), s.forget id) else (.ok batch, s)

/-- What can be seen of a batch, which stays in the store. -/
def get (s : BatchStore) (now : Nat) (id : String) : Except Fault Snapshot × BatchStore :=
  match s.find now id with
  | (.ok batch, s) => (.ok batch.snapshot, s)
  | (.error fault, s) => (.error fault, s)

/-- What can be seen of a batch, which is taken out of the store. -/
def consume (s : BatchStore) (now : Nat) (id : String) : Except Fault Snapshot × BatchStore :=
  match s.find now id with
  | (.ok batch, s) => (.ok batch.snapshot, s.forget id)
  | (.error fault, s) => (.error fault, s)

/-- The number of batches whose time has run out, and the store without them. -/
def sweep (s : BatchStore) (now : Nat) : Nat × BatchStore :=
  let live := s.live.filter fun _ batch => !batch.isExpired now
  (s.live.size - live.size, { s with live })

def size (s : BatchStore) : Nat :=
  s.live.size

end BatchStore

end TableGate
