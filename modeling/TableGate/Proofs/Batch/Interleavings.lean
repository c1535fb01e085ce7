import Mathlib.Algebra.BigOperators.Group.List.Basic
import Mathlib.Algebra.Order.BigOperators.Group.List
import Mathlib.Algebra.Order.Ring.Nat
import Mathlib.Data.List.Induction
import TableGate.Proofs.Batch.CountedPermits

/-! # Interleaved operations

The operations of a batch have their turns in any order that the permits allow. However they come, no more of them are
under way than there are permits, one of them can always go on until all are over, and every slot holds what its
operation ended with. -/

namespace TableGate

/-- The turns that make up a move of a batch: where an operation ends, it gives its permits back at once. -/
def Move.turns : Move → List Turn
  | .claim i => [.claim i]
  | .start i => [.start i]
  | .finish i => [.finish i, .release i, .leave i]
  | .record i => [.record i]

namespace BatchRun

variable {σ : Type} {limits : Limits} {runner : ℕ → Operation → σ → Execution × σ} {r next : BatchRun σ} {m : Move}

/-- The move is possible. -/
inductive Allows (limits : Limits) (r : BatchRun σ) : Move → Prop where
  | claim {i : ℕ} {operation : Operation} (h : r.tasks[i]? = some (operation, .waiting))
      (hleft : r.holding operation.connection < limits.each) : Allows limits r (.claim i)
  | start {i : ℕ} {operation : Operation} (h : r.tasks[i]? = some (operation, .claimed))
      (hleft : r.running < limits.all) : Allows limits r (.start i)
  | finish {i : ℕ} {operation : Operation} (h : r.tasks[i]? = some (operation, .running)) : Allows limits r (.finish i)
  | record {i : ℕ} {operation : Operation} {o : Outcome} (h : r.tasks[i]? = some (operation, .ended o)) :
      Allows limits r (.record i)

theorem allows_of_move? (h : r.move? limits runner m = some next) : r.Allows limits m := by
  cases m with
  | claim i =>
      simp only [move?] at h
      split at h
      · rename_i operation htask
        split at h
        · rename_i hleft
          exact .claim htask hleft
        · cases h
      · cases h
  | start i =>
      simp only [move?] at h
      split at h
      · rename_i operation htask
        split at h
        · rename_i hleft
          exact .start htask hleft
        · cases h
      · cases h
  | finish i =>
      simp only [move?] at h
      split at h
      · rename_i operation htask
        exact .finish htask
      · cases h
  | record i =>
      simp only [move?] at h
      split at h
      · rename_i operation outcome htask
        exact .record htask
      · cases h

end BatchRun

namespace MeteredRun

variable {σ : Type} {limits : Limits} {runner : ℕ → Operation → σ → Execution × σ} {s next : MeteredRun σ} {t : Turn}
  {turns : List Turn} {i : ℕ} {operation : Operation} {phase : Phase} {operations : List Operation}

/-! ## Turns one after the other -/

theorem Turns.after? (h : Turns runner s t next) : s.after? runner (t :: turns) = next.after? runner turns := by
  rw [MeteredRun.after?, h.advance?, Option.bind_some]

theorem after?_append (earlier later : List Turn) :
    s.after? runner (earlier ++ later) = (s.after? runner earlier).bind (after? runner later) := by
  induction earlier generalizing s with
  | nil => rfl
  | cons t earlier ih =>
      rw [List.cons_append, after?, after?]
      cases s.advance? runner t with
      | none => rfl
      | some next => exact ih

theorem after?_concat :
    s.after? runner (turns ++ [t]) = some next ↔
      ∃ between, s.after? runner turns = some between ∧ Turns runner between t next := by
  simp only [after?_append, Option.bind_eq_some_iff, after?]
  constructor
  · rintro ⟨between, hbetween, last, hlast, ⟨⟩⟩
    exact ⟨between, hbetween, turns_of_advance? hlast⟩
  · rintro ⟨between, hbetween, hlast⟩
    exact ⟨between, hbetween, next, hlast.advance?, rfl⟩

/-- What each turn keeps is true after all of them. -/
theorem after?_induction (motive : List Turn → MeteredRun σ → Prop) (hstart : motive [] s)
    (hturn : ∀ turns between t next, motive turns between → Turns runner between t next → motive (turns ++ [t]) next)
    (h : s.after? runner turns = some next) : motive turns next := by
  induction turns using List.reverseRecOn generalizing next with
  | nil =>
      cases h
      exact hstart
  | append_singleton turns t ih =>
      obtain ⟨between, hbetween, hlast⟩ := after?_concat.mp h
      exact hturn turns between t next (ih hbetween) hlast

theorem Metered.of_after? (hs : s.Metered limits) (h : s.after? runner turns = some next) : next.Metered limits :=
  after?_induction (fun _ s => s.Metered limits) hs (fun _ _ _ _ hbetween hlast => hbetween.of_turns hlast) h

/-- A run of turns is a run of the moves that they are. -/
theorem Metered.run_of_after? (hs : s.Metered limits) (h : s.after? runner turns = some next) :
    next.run = s.run.play limits runner (turns.flatMap Turn.moves) := by
  refine (after?_induction (fun turns between => between.Metered limits ∧
    between.run = s.run.play limits runner (turns.flatMap Turn.moves)) ⟨hs, rfl⟩ ?_ h).2
  rintro turns between t next ⟨hbetween, hrun⟩ hlast
  refine ⟨hbetween.of_turns hlast, ?_⟩
  rw [hbetween.run_of_turns hlast, hrun, ← BatchRun.play_append, List.flatMap_append, List.flatMap_singleton]

/-! ## The turns of a run -/

/-- No operation that has ended has a permit. -/
def Settled (s : MeteredRun σ) : Prop :=
  ∀ task ∈ s.tasks, task.2.holds = task.2.stage.isRunning ∧ task.2.holdsOn = task.2.stage.isHolding

theorem settled_opened (limits : Limits) (store : BatchStore) (now : ℕ) (operations : List Operation) (world : σ) :
    (opened limits store now operations world).Settled := by
  intro task htask
  obtain ⟨operation, -, rfl⟩ := List.mem_map.mp htask
  exact ⟨rfl, rfl⟩

theorem Settled.of_set (hs : s.Settled) (htasks : next.tasks = s.tasks.set i (operation, phase))
    (hphase : phase.holds = phase.stage.isRunning ∧ phase.holdsOn = phase.stage.isHolding) : next.Settled := by
  intro task htask
  rw [htasks] at htask
  rcases List.mem_or_eq_of_mem_set htask with hold | rfl
  · exact hs task hold
  · exact hphase

theorem Settled.running_run (hs : s.Settled) : s.run.running = s.tasks.countP fun t => t.2.holds := by
  rw [run, BatchRun.running, List.countP_map]
  exact List.countP_congr fun task htask => by simp [(hs task htask).1]

theorem Settled.holding_run (hs : s.Settled) (c : String) :
    s.run.holding c = s.tasks.countP fun t => t.1.connection == c && t.2.holdsOn := by
  rw [run, BatchRun.holding, List.countP_map]
  exact List.countP_congr fun task htask => by simp [(hs task htask).2]

theorem task_of_run {stage : Stage} (h : s.run.tasks[i]? = some (operation, stage)) :
    ∃ phase, s.tasks[i]? = some (operation, phase) ∧ phase.stage = stage := by
  rw [run, List.getElem?_map, Option.map_eq_some_iff] at h
  obtain ⟨⟨own, phase⟩, htask, heq⟩ := h
  cases heq
  exact ⟨phase, htask, rfl⟩

/-- An operation that has ended can give its permits back. -/
theorem exists_after?_of_finished (runner : ℕ → Operation → σ → Execution × σ) {o : Outcome}
    (h : s.tasks[i]? = some (operation, .finished o)) :
    ∃ next, s.after? runner [.release i, .leave i] = some next ∧ next.tasks = s.tasks.set i (operation, .ended o) := by
  obtain ⟨hi, -⟩ := List.getElem?_eq_some_iff.mp h
  obtain ⟨released, hrelease, hreleased⟩ :
      ∃ next, Turns runner s (.release i) next ∧ next.tasks = s.tasks.set i (operation, .leaving o) :=
    ⟨_, .release h, rfl⟩
  have hleaving : released.tasks[i]? = some (operation, .leaving o) := by
    rw [hreleased]
    exact List.getElem?_set_self hi
  obtain ⟨left, hleave, hleft⟩ :
      ∃ next, Turns runner released (.leave i) next ∧ next.tasks = released.tasks.set i (operation, .ended o) :=
    ⟨_, .leave hleaving, rfl⟩
  exact ⟨left, hrelease.after?.trans hleave.after?, by rw [hleft, hreleased, List.set_set]⟩

/-- What a batch allows is possible in turns. -/
theorem Settled.exists_after? (hs : s.Settled) (hmetered : s.Metered limits) {m : Move} (h : s.run.Allows limits m) :
    ∃ next, s.after? runner m.turns = some next ∧ next.Settled := by
  cases h with
  | @claim i operation htask hleft =>
      obtain ⟨phase, hphase, hstage⟩ := task_of_run htask
      have heach := hmetered.each operation.connection
      rw [← hs.holding_run operation.connection] at heach
      cases phase with
      | waiting =>
          have hturn : Turns runner s (.claim i) _ := .claim hphase (by omega)
          exact ⟨_, hturn.after?, hs.of_set rfl ⟨rfl, rfl⟩⟩
      | _ => cases hstage
  | @start i operation htask hleft =>
      obtain ⟨phase, hphase, hstage⟩ := task_of_run htask
      have hall := hmetered.all
      rw [← hs.running_run] at hall
      cases phase with
      | claimed =>
          have hturn : Turns runner s (.start i) _ := .start hphase (by omega)
          exact ⟨_, hturn.after?, hs.of_set rfl ⟨rfl, rfl⟩⟩
      | _ => cases hstage
  | @finish i operation htask =>
      obtain ⟨phase, hphase, hstage⟩ := task_of_run htask
      cases phase with
      | running =>
          obtain ⟨hi, -⟩ := List.getElem?_eq_some_iff.mp hphase
          obtain ⟨finished, o, hfinish, hfinished⟩ : ∃ next o, Turns runner s (.finish i) next ∧
              next.tasks = s.tasks.set i (operation, .finished o) := ⟨_, _, .finish hphase, rfl⟩
          have hover : finished.tasks[i]? = some (operation, .finished o) := by
            rw [hfinished]
            exact List.getElem?_set_self hi
          obtain ⟨next, hafter, htasks⟩ := exists_after?_of_finished runner hover
          rw [hfinished, List.set_set] at htasks
          exact ⟨next, hfinish.after?.trans hafter, hs.of_set htasks ⟨rfl, rfl⟩⟩
      | _ => cases hstage
  | @record i operation o htask =>
      obtain ⟨phase, hphase, hstage⟩ := task_of_run htask
      have hsettled := hs _ (List.mem_of_getElem? hphase)
      cases phase with
      | ended o =>
          have hturn : Turns runner s (.record i) _ := .record hphase
          exact ⟨_, hturn.after?, hs.of_set rfl ⟨rfl, rfl⟩⟩
      | finished o => cases hsettled.1
      | leaving o => cases hsettled.2
      | _ => cases hstage

theorem moves_turns (m : Move) : m.turns.flatMap Turn.moves = [m] := by
  cases m <;> rfl

/-- Every run of a batch is a run of turns. -/
theorem Settled.exists_run_eq_play (hs : s.Settled) (hmetered : s.Metered limits) (moves : List Move) :
    ∃ turns next, s.after? runner turns = some next ∧ next.run = s.run.play limits runner moves := by
  induction moves generalizing s with
  | nil => exact ⟨[], s, rfl, rfl⟩
  | cons m moves ih =>
      rw [BatchRun.play_cons, BatchRun.step]
      cases hmove : s.run.move? limits runner m with
      | none => exact ih hs hmetered
      | some r =>
          obtain ⟨next, hnext, hsettled⟩ := hs.exists_after? hmetered (BatchRun.allows_of_move? hmove)
          have hrun := hmetered.run_of_after? hnext
          rw [moves_turns, BatchRun.play_cons, BatchRun.step, hmove] at hrun
          obtain ⟨turns, last, hlast, hplay⟩ := ih hsettled (hmetered.of_after? hnext)
          refine ⟨m.turns ++ turns, last, ?_, hplay.trans (congrArg _ hrun)⟩
          rw [after?_append, hnext, Option.bind_some, hlast]

/-! ## The turns of one operation -/

/-- The number of turns that an operation has had. -/
def rankAt (s : MeteredRun σ) (i : ℕ) : ℕ :=
  s.tasks[i]?.elim 0 fun t => t.2.rank

/-- Each operation has had its turns in their order, as many as it has come to. -/
structure Traced (operations : List Operation) (turns : List Turn) (s : MeteredRun σ) : Prop where
  operations : s.tasks.map Prod.fst = operations
  course : ∀ i, turns.filter (fun t => t.index == i) = (Turn.course i).take (s.rankAt i)
  length : turns.length = (s.tasks.map fun t => t.2.rank).sum

theorem sum_map_set_add {α : Type} (f : α → ℕ) {l : List α} {i : ℕ} {a b : α} (h : l[i]? = some a) :
    ((l.set i b).map f).sum + f a = (l.map f).sum + f b := by
  induction l generalizing i with
  | nil => cases h
  | cons first rest ih =>
      cases i with
      | zero =>
          cases h
          simp only [List.set_cons_zero, List.map_cons, List.sum_cons]
          omega
      | succ i =>
          have := ih h
          simp only [List.set_cons_succ, List.map_cons, List.sum_cons]
          omega

theorem traced_opened (limits : Limits) (store : BatchStore) (now : ℕ) (operations : List Operation) (world : σ) :
    (opened limits store now operations world).Traced operations [] where
  operations := by simp [opened, Function.comp_def]
  course i := by
    rw [rankAt, opened, List.getElem?_map]
    cases operations[i]? <;> rfl
  length := by simp [opened, Function.comp_def, Phase.rank]

theorem Traced.of_turns (hs : s.Traced operations turns) (h : Turns runner s t next) :
    next.Traced operations (turns ++ [t]) := by
  obtain ⟨operation, before, after, hshifts, hturn⟩ := h.shifts
  have htasks := hshifts.tasks
  refine ⟨?_, fun i => ?_, ?_⟩
  · have hsame : (s.tasks.map Prod.fst)[t.index]? = some operation := by simp [hshifts.task]
    rw [htasks, List.map_set, set_eq_self hsame, hs.operations]
  · rw [List.filter_append, hs.course i, rankAt, rankAt, htasks]
    by_cases hi : t.index = i
    · subst hi
      have hafter : (s.tasks.set t.index (operation, after))[t.index]? = some (operation, after) :=
        List.getElem?_set_self (List.getElem?_eq_some_iff.mp hshifts.task).1
      simp [hshifts.task, hafter, hshifts.rank, List.take_add_one, hturn]
    · simp [hi, List.getElem?_set_ne hi]
  · have hsum := sum_map_set_add (fun t : Operation × Phase => t.2.rank) (b := (operation, after)) hshifts.task
    rw [htasks, List.length_append, hs.length, List.length_singleton]
    have hrank := hshifts.rank
    simp only at hsum
    omega

theorem Traced.of_after? {start : MeteredRun σ} (hstart : start.Traced operations [])
    (h : start.after? runner turns = some s) : s.Traced operations turns :=
  after?_induction (fun turns s => s.Traced operations turns) hstart
    (fun _ _ _ _ hbetween hlast => hbetween.of_turns hlast) h

theorem Traced.operation_eq (hs : s.Traced operations turns) (h : s.tasks[i]? = some (operation, phase)) :
    operations[i]? = some operation := by
  rw [← hs.operations, List.getElem?_map, h, Option.map_some]

theorem Traced.exists_task (hs : s.Traced operations turns) (hi : i < operations.length) :
    ∃ operation phase, s.tasks[i]? = some (operation, phase) := by
  rw [← hs.operations, List.length_map] at hi
  exact ⟨_, _, List.getElem?_eq_getElem hi⟩

theorem Traced.count_eq (hs : s.Traced operations turns) (t : Turn) :
    turns.count t = ((Turn.course t.index).take (s.rankAt t.index)).count t := by
  rw [← hs.course, List.count_filter (p := fun other : Turn => other.index == t.index) (beq_self_eq_true t.index)]

theorem Traced.mem_iff (hs : s.Traced operations turns) :
    t ∈ turns ↔ t ∈ (Turn.course t.index).take (s.rankAt t.index) := by
  rw [← List.count_pos_iff, hs.count_eq t, List.count_pos_iff]

/-- No operation has more turns than there are. -/
theorem Traced.length_le (hs : s.Traced operations turns) : turns.length ≤ 6 * operations.length := by
  have hranks : ∀ rank ∈ s.tasks.map (fun t => t.2.rank), rank ≤ 6 := by
    intro rank hrank
    obtain ⟨task, -, rfl⟩ := List.mem_map.mp hrank
    cases task.2 <;> simp [Phase.rank]
  have hsum := List.sum_le_card_nsmul _ 6 hranks
  rw [hs.length, ← hs.operations, List.length_map]
  rw [List.length_map, Nat.nsmul_eq_mul] at hsum
  omega

end MeteredRun

end TableGate
