import Mathlib.Logic.Function.Basic
import TableGate.Proofs.Batch.RunSlots

/-! # Counted permits

The permits that are left are counted: those of each connection, and those of all. An operation takes one of its
connection before it takes one of all. It gives them back one by one after it has ended, and its outcome is recorded
after that. The permits that are left and those that the operations have are as many as there were to begin with, so a
run of these turns is a run of a batch, and every run of a batch is one of them. -/

namespace TableGate

/-- How far an operation has come: it waits, it has a permit of its connection, it is under way with both permits, it
has ended with both of them, with that of its connection or with none, or its outcome is recorded. -/
inductive Phase where
  | waiting
  | claimed
  | running
  | finished (outcome : Outcome)
  | leaving (outcome : Outcome)
  | ended (outcome : Outcome)
  | recorded

/-- The turn of an operation, by its position. It takes a permit of its connection, takes one of all and begins, ends,
gives the permit of all back, gives that of its connection back, or has its outcome recorded. -/
inductive Turn where
  | claim (index : ℕ)
  | start (index : ℕ)
  | finish (index : ℕ)
  | release (index : ℕ)
  | leave (index : ℕ)
  | record (index : ℕ)
  deriving DecidableEq

/-- A batch that is being carried out, and the permits that are left in all and on each connection. -/
structure MeteredRun (σ : Type) where
  id : String
  tasks : List (Operation × Phase)
  world : σ
  store : BatchStore
  free : ℕ
  freeOn : String → ℕ

namespace Phase

def stage : Phase → Stage
  | .waiting => .waiting
  | .claimed => .claimed
  | .running => .running
  | .finished outcome | .leaving outcome | .ended outcome => .ended outcome
  | .recorded => .recorded

/-- The operation has a permit of all. -/
def holds : Phase → Bool
  | .running | .finished _ => true
  | _ => false

/-- The operation has a permit of its connection. -/
def holdsOn : Phase → Bool
  | .claimed | .running | .finished _ | .leaving _ => true
  | _ => false

/-- The number of turns that the operation has had. -/
def rank : Phase → ℕ
  | .waiting => 0
  | .claimed => 1
  | .running => 2
  | .finished _ => 3
  | .leaving _ => 4
  | .ended _ => 5
  | .recorded => 6

end Phase

namespace Turn

def index : Turn → ℕ
  | .claim i | .start i | .finish i | .release i | .leave i | .record i => i

/-- The turns of an operation, from the first one to the last. -/
def course (i : ℕ) : List Turn :=
  [.claim i, .start i, .finish i, .release i, .leave i, .record i]

/-- The move of a batch that a turn is. Permits are given back without one. -/
def moves : Turn → List Move
  | .claim i => [.claim i]
  | .start i => [.start i]
  | .finish i => [.finish i]
  | .release _ | .leave _ => []
  | .record i => [.record i]

end Turn

namespace MeteredRun

variable {σ : Type}

/-- A new batch with all permits. -/
def opened (limits : Limits) (store : BatchStore) (now : ℕ) (operations : List Operation) (world : σ) :
    MeteredRun σ :=
  let r := BatchRun.begin store now operations world
  ⟨r.id, operations.map (·, .waiting), world, r.store, limits.all, fun _ => limits.each⟩

def put (s : MeteredRun σ) (index : ℕ) (operation : Operation) (phase : Phase) : MeteredRun σ :=
  { s with tasks := s.tasks.set index (operation, phase) }

/-- The batch, without its permits. -/
def run (s : MeteredRun σ) : BatchRun σ :=
  ⟨s.id, s.tasks.map fun t => (t.1, t.2.stage), s.world, s.store⟩

/-- The run after a turn, if that is possible: a permit can be taken as long as there is one left. -/
def advance? (runner : ℕ → Operation → σ → Execution × σ) (s : MeteredRun σ) : Turn → Option (MeteredRun σ)
  | .claim i =>
    match s.tasks[i]? with
    | some (operation, .waiting) =>
      let left := s.freeOn operation.connection
      if 0 < left then
        some { s.put i operation .claimed with
          freeOn := Function.update s.freeOn operation.connection (left - 1) }
      else
        none
    | _ => none
  | .start i =>
    match s.tasks[i]? with
    | some (operation, .claimed) =>
      if 0 < s.free then some { s.put i operation .running with free := s.free - 1 } else none
    | _ => none
  | .finish i =>
    match s.tasks[i]? with
    | some (operation, .running) =>
      let (execution, world) := runner i operation s.world
      some { s.put i operation (.finished (.ofResult execution.result)) with world }
    | _ => none
  | .release i =>
    match s.tasks[i]? with
    | some (operation, .finished outcome) =>
      some { s.put i operation (.leaving outcome) with free := s.free + 1 }
    | _ => none
  | .leave i =>
    match s.tasks[i]? with
    | some (operation, .leaving outcome) =>
      let left := s.freeOn operation.connection
      some { s.put i operation (.ended outcome) with
        freeOn := Function.update s.freeOn operation.connection (left + 1) }
    | _ => none
  | .record i =>
    match s.tasks[i]? with
    | some (operation, .ended outcome) =>
      some { s.put i operation .recorded with store := (s.store.record s.id i outcome).2 }
    | _ => none

/-- The run after turns, all of which have to be possible. -/
def after? (runner : ℕ → Operation → σ → Execution × σ) : List Turn → MeteredRun σ → Option (MeteredRun σ)
  | [], s => some s
  | t :: turns, s => (s.advance? runner t).bind (after? runner turns)

/-- The permits that are left and those that operations have are as many as there were to begin with. -/
structure Metered (limits : Limits) (s : MeteredRun σ) : Prop where
  all : s.free + s.tasks.countP (fun t => t.2.holds) = limits.all
  each : ∀ c, s.freeOn c + s.tasks.countP (fun t => t.1.connection == c && t.2.holdsOn) = limits.each

variable {limits : Limits} {runner : ℕ → Operation → σ → Execution × σ} {s next : MeteredRun σ} {t : Turn} {i : ℕ}
  {operation : Operation} {phase : Phase}

/-! ## One turn -/

/-- What a turn comes to. -/
inductive Turns (runner : ℕ → Operation → σ → Execution × σ) (s : MeteredRun σ) : Turn → MeteredRun σ → Prop where
  | claim {i : ℕ} {operation : Operation} (h : s.tasks[i]? = some (operation, .waiting))
      (hfree : 0 < s.freeOn operation.connection) :
      Turns runner s (.claim i) { s.put i operation .claimed with
        freeOn := Function.update s.freeOn operation.connection (s.freeOn operation.connection - 1) }
  | start {i : ℕ} {operation : Operation} (h : s.tasks[i]? = some (operation, .claimed)) (hfree : 0 < s.free) :
      Turns runner s (.start i) { s.put i operation .running with free := s.free - 1 }
  | finish {i : ℕ} {operation : Operation} (h : s.tasks[i]? = some (operation, .running)) :
      Turns runner s (.finish i)
        { s.put i operation (.finished (.ofResult (runner i operation s.world).1.result)) with
          world := (runner i operation s.world).2 }
  | release {i : ℕ} {operation : Operation} {o : Outcome} (h : s.tasks[i]? = some (operation, .finished o)) :
      Turns runner s (.release i) { s.put i operation (.leaving o) with free := s.free + 1 }
  | leave {i : ℕ} {operation : Operation} {o : Outcome} (h : s.tasks[i]? = some (operation, .leaving o)) :
      Turns runner s (.leave i) { s.put i operation (.ended o) with
        freeOn := Function.update s.freeOn operation.connection (s.freeOn operation.connection + 1) }
  | record {i : ℕ} {operation : Operation} {o : Outcome} (h : s.tasks[i]? = some (operation, .ended o)) :
      Turns runner s (.record i)
        { s.put i operation .recorded with store := (s.store.record s.id i o).2 }

theorem turns_of_advance? (h : s.advance? runner t = some next) : Turns runner s t next := by
  cases t with
  | claim i =>
      simp only [advance?] at h
      split at h
      · rename_i operation htask
        split at h
        · rename_i hfree
          cases h
          exact .claim htask hfree
        · cases h
      · cases h
  | start i =>
      simp only [advance?] at h
      split at h
      · rename_i operation htask
        split at h
        · rename_i hfree
          cases h
          exact .start htask hfree
        · cases h
      · cases h
  | finish i =>
      simp only [advance?] at h
      split at h
      · rename_i operation htask
        cases h
        exact .finish htask
      · cases h
  | release i =>
      simp only [advance?] at h
      split at h
      · rename_i operation outcome htask
        cases h
        exact .release htask
      · cases h
  | leave i =>
      simp only [advance?] at h
      split at h
      · rename_i operation outcome htask
        cases h
        exact .leave htask
      · cases h
  | record i =>
      simp only [advance?] at h
      split at h
      · rename_i operation outcome htask
        cases h
        exact .record htask
      · cases h

theorem Turns.advance? (h : Turns runner s t next) : s.advance? runner t = some next := by
  cases h with
  | claim h hfree => simp [MeteredRun.advance?, h, hfree]
  | start h hfree => simp [MeteredRun.advance?, h, hfree]
  | finish h => simp [MeteredRun.advance?, h]
  | release h => simp [MeteredRun.advance?, h]
  | leave h => simp [MeteredRun.advance?, h]
  | record h => simp [MeteredRun.advance?, h]

/-- What every turn has in common: one operation goes on from a phase to the next, and the permits that it takes or
gives back are counted. -/
structure Shifts (s next : MeteredRun σ) (i : ℕ) (operation : Operation) (before after : Phase) : Prop where
  task : s.tasks[i]? = some (operation, before)
  tasks : next.tasks = s.tasks.set i (operation, after)
  id : next.id = s.id
  rank : after.rank = before.rank + 1
  free : next.free + after.holds.toNat = s.free + before.holds.toNat
  freeOn : ∀ c, next.freeOn c + (operation.connection == c && after.holdsOn).toNat =
    s.freeOn c + (operation.connection == c && before.holdsOn).toNat

theorem Turns.shifts (h : Turns runner s t next) :
    ∃ operation before after, Shifts s next t.index operation before after ∧
      (Turn.course t.index)[before.rank]? = some t := by
  cases h with
  | @claim i operation h hfree =>
      refine ⟨operation, .waiting, .claimed, ⟨h, rfl, rfl, rfl, rfl, fun c => ?_⟩, rfl⟩
      by_cases hc : operation.connection = c
      · subst hc
        simp only [Phase.holdsOn, beq_self_eq_true, Function.update_self, Bool.and_true, Bool.toNat_true,
          Bool.and_false, Bool.toNat_false]
        omega
      · simp [Phase.holdsOn, hc, Function.update_of_ne (Ne.symm hc)]
  | @start i operation h hfree =>
      refine ⟨operation, .claimed, .running, ⟨h, rfl, rfl, rfl, ?_, fun c => rfl⟩, rfl⟩
      simp only [Phase.holds, Bool.toNat_true, Bool.toNat_false]
      omega
  | @finish i operation h =>
      exact ⟨operation, .running, .finished _, ⟨h, rfl, rfl, rfl, rfl, fun c => rfl⟩, rfl⟩
  | @release i operation o h =>
      exact ⟨operation, .finished o, .leaving o, ⟨h, rfl, rfl, rfl, rfl, fun c => rfl⟩, rfl⟩
  | @leave i operation o h =>
      refine ⟨operation, .leaving o, .ended o, ⟨h, rfl, rfl, rfl, rfl, fun c => ?_⟩, rfl⟩
      by_cases hc : operation.connection = c
      · subst hc
        simp [Phase.holdsOn]
      · simp [Phase.holdsOn, hc, Function.update_of_ne (Ne.symm hc)]
  | @record i operation o h =>
      exact ⟨operation, .ended o, .recorded, ⟨h, rfl, rfl, rfl, rfl, fun c => rfl⟩, rfl⟩

theorem set_eq_self {α : Type} {l : List α} {i : ℕ} {a : α} (h : l[i]? = some a) : l.set i a = l := by
  obtain ⟨hi, rfl⟩ := List.getElem?_eq_some_iff.mp h
  exact List.set_getElem_self hi

theorem countP_set_add {α : Type} {p : α → Bool} {l : List α} {i : ℕ} {a b : α} (h : l[i]? = some a) :
    (l.set i b).countP p + (p a).toNat = l.countP p + (p b).toNat := by
  obtain ⟨hi, rfl⟩ := List.getElem?_eq_some_iff.mp h
  have hpos : p l[i] = true → 0 < l.countP p := fun hp =>
    List.countP_pos_iff.mpr ⟨_, List.getElem_mem hi, hp⟩
  rw [List.countP_set hi]
  cases hp : p l[i] <;> cases p b <;> simp
  · have := hpos hp
    omega
  · have := hpos hp
    omega

/-- No permit is lost or made by a turn. -/
theorem Metered.of_turns (hs : s.Metered limits) (h : Turns runner s t next) : next.Metered limits := by
  obtain ⟨operation, before, after, hshifts, -⟩ := h.shifts
  refine ⟨?_, fun c => ?_⟩
  · have hcount := countP_set_add (p := fun t => t.2.holds) (b := (operation, after)) hshifts.task
    have hfree := hshifts.free
    have hall := hs.all
    simp only [hshifts.tasks] at hcount ⊢
    omega
  · have hcount := countP_set_add (p := fun t => t.1.connection == c && t.2.holdsOn) (b := (operation, after))
      hshifts.task
    have hfree := hshifts.freeOn c
    have heach := hs.each c
    simp only [hshifts.tasks] at hcount ⊢
    omega

theorem metered_opened (limits : Limits) (store : BatchStore) (now : ℕ) (operations : List Operation) (world : σ) :
    (opened limits store now operations world).Metered limits := by
  constructor <;> simp [opened, List.countP_map, Function.comp_def, Phase.holds, Phase.holdsOn]

/-! ## Turns and moves -/

theorem run_put (s : MeteredRun σ) (i : ℕ) (operation : Operation) (phase : Phase) :
    (s.put i operation phase).run = s.run.put i operation phase.stage := by
  simp [run, put, BatchRun.put, List.map_set]

theorem getElem?_run (h : s.tasks[i]? = some (operation, phase)) :
    s.run.tasks[i]? = some (operation, phase.stage) := by
  simp [run, h]

/-- An operation that stays at its stage is where it has been. -/
theorem run_put_of_stage (h : s.tasks[i]? = some (operation, phase)) {after : Phase}
    (hstage : after.stage = phase.stage) : (s.put i operation after).run = s.run := by
  rw [run_put, hstage, BatchRun.put, set_eq_self (getElem?_run h)]

theorem running_run_le (s : MeteredRun σ) : s.run.running ≤ s.tasks.countP fun t => t.2.holds := by
  rw [run, BatchRun.running, List.countP_map]
  refine List.countP_mono_left fun t _ h => ?_
  cases hphase : t.2 <;> simp_all [Phase.stage, Stage.isRunning, Phase.holds]

theorem runningOn_run_le (s : MeteredRun σ) (c : String) :
    s.run.runningOn c ≤ s.tasks.countP fun t => t.1.connection == c && t.2.holdsOn := by
  rw [run, BatchRun.runningOn, List.countP_map]
  refine List.countP_mono_left fun t _ h => ?_
  cases hphase : t.2 <;> simp_all [Phase.stage, Stage.isRunning, Phase.holdsOn]

theorem holding_run_le (s : MeteredRun σ) (c : String) :
    s.run.holding c ≤ s.tasks.countP fun t => t.1.connection == c && t.2.holdsOn := by
  rw [run, BatchRun.holding, List.countP_map]
  refine List.countP_mono_left fun t _ h => ?_
  cases hphase : t.2 <;> simp_all [Phase.stage, Stage.isHolding, Phase.holdsOn]

/-- A turn is a move of the batch, or gives back a permit that the batch counts as given back already. -/
theorem Metered.run_of_turns (hs : s.Metered limits) (h : Turns runner s t next) :
    next.run = s.run.play limits runner t.moves := by
  cases h with
  | @claim i operation h hfree =>
      have heach := hs.each operation.connection
      have hholding := s.holding_run_le operation.connection
      have hleft : s.run.holding operation.connection < limits.each := by omega
      rw [Turn.moves, BatchRun.play_cons, BatchRun.step, BatchRun.move?, getElem?_run h]
      simp only [Phase.stage, hleft, if_true]
      exact run_put s i operation .claimed
  | @start i operation h hfree =>
      have hall := hs.all
      have hrunning := s.running_run_le
      have hleft : s.run.running < limits.all := by omega
      rw [Turn.moves, BatchRun.play_cons, BatchRun.step, BatchRun.move?, getElem?_run h]
      simp only [Phase.stage, hleft, if_true]
      exact run_put s i operation .running
  | @finish i operation h =>
      rw [Turn.moves, BatchRun.play_cons, BatchRun.step, BatchRun.move?, getElem?_run h]
      exact congrArg (fun r : BatchRun σ => { r with world := (runner i operation s.world).2 })
        (run_put s i operation (.finished (.ofResult (runner i operation s.world).1.result)))
  | @release i operation o h => exact run_put_of_stage h rfl
  | @leave i operation o h => exact run_put_of_stage h rfl
  | @record i operation o h =>
      rw [Turn.moves, BatchRun.play_cons, BatchRun.step, BatchRun.move?, getElem?_run h]
      exact congrArg (fun r : BatchRun σ => { r with store := (s.store.record s.id i o).2 })
        (run_put s i operation .recorded)

end MeteredRun

end TableGate
