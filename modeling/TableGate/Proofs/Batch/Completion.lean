import TableGate.Proofs.Batch.Interleavings

/-! # The end of a batch

Permits of all are asked for only by operations that have one of their connection, and those that have both need
nothing else. So there is always an operation that can go on, until the outcomes of all of them are recorded and the
batch is complete. -/

namespace TableGate

/-- The outcome of an operation, by how the carrying out of it ended. -/
def Execution.outcome : Execution → Outcome
  | .ended (.ok data) => .success data
  | .ended (.error fault) => .error ⟨fault.kind, fault.message⟩
  | .panicked message => .error ⟨.internal, "internal error: operation panicked: " ++ message.getD "unknown panic"⟩

theorem Execution.ofResult_result (e : Execution) : .ofResult e.result = e.outcome := by
  cases e with
  | ended result =>
      cases result with
      | ok data => rfl
      | error fault => rfl
  | panicked message =>
      have hwords (text : String) :
          "internal error: " ++ ("operation panicked: " ++ text) = "internal error: operation panicked: " ++ text := by
        rw [← String.append_assoc]
        rfl
      exact congrArg (fun text => Outcome.error ⟨.internal, text⟩) (hwords _)

/-! ## The batch in the store -/

theorem Batch.length_slots_put (b : Batch) (i : ℕ) (o : Outcome) : (b.put (i, o)).slots.length = b.slots.length := by
  cases hrecord : b.record? i o with
  | none => rw [put_eq_self (record?_eq_none.mp hrecord)]
  | some found =>
      rw [put_of_record? hrecord, (record?_eq_some.mp hrecord).2.2]
      exact List.length_set

namespace BatchRun

variable {σ : Type} {limits : Limits} {runner : ℕ → Operation → σ → Execution × σ} {r next : BatchRun σ} {m : Move}
  {total : ℕ}

/-- The batch is in the store, with this number of slots. -/
def Kept (r : BatchRun σ) (total : ℕ) : Prop :=
  ∃ b, r.store.live.get? r.id = some b ∧ b.slots.length = total ∧ b.InStep

theorem kept_begin (store : BatchStore) (now : ℕ) (operations : List Operation) (world : σ) :
    (begin store now operations world).Kept operations.length :=
  ⟨.empty operations.length (now + store.lifetime), by simp [begin, BatchStore.create], List.length_replicate,
    Batch.inStep_empty _ _⟩

theorem Kept.of_steps (h : r.Kept total) (hstep : Steps runner r m next) : next.Kept total := by
  cases hstep with
  | @record i operation o htask =>
      obtain ⟨b, hb, hlength, hcount⟩ := h
      refine ⟨b.put (i, o), ?_, (b.length_slots_put i o).trans hlength, hcount.put (i, o)⟩
      exact (r.store.get?_record r.id i o).trans (by rw [hb, Option.map_some])
  | _ => exact h

theorem Kept.play (h : r.Kept total) (moves : List Move) : (r.play limits runner moves).Kept total := by
  induction moves generalizing r with
  | nil => exact h
  | cons m moves ih => exact ih (h.of_steps (steps limits runner r m))

/-- A batch with an outcome in each slot is complete. -/
theorem Kept.isComplete (h : r.Kept total) (hslots : ∀ i < total, ∃ o, r.slot? i = some (some o)) :
    ∃ b, r.store.live.get? r.id = some b ∧ b.snapshot.total = total ∧ b.snapshot.isComplete = true ∧
      b.remaining = 0 := by
  obtain ⟨b, hb, hlength, hcount⟩ := h
  have hfull : b.Full := by
    refine Batch.full_iff_getElem?.mpr fun i hempty => ?_
    obtain ⟨hi, -⟩ := List.getElem?_eq_some_iff.mp hempty
    obtain ⟨o, ho⟩ := hslots i (hlength ▸ hi)
    rw [slot?, hb, Option.bind_some, hempty] at ho
    cases ho
  have hcompleted := b.reports_snapshot.completed
  rw [List.countP_eq_length.mpr hfull] at hcompleted
  exact ⟨b, hb, hlength, beq_iff_eq.mpr hcompleted, hcount.trans (Batch.full_iff_countP.mp hfull)⟩

end BatchRun

namespace Phase

/-- The operation has begun, and its outcome is not recorded. -/
def hasBegun : Phase → Bool
  | .running | .finished _ | .leaving _ | .ended _ => true
  | _ => false

theorem hasBegun_of_holds {phase : Phase} (h : phase.holds = true) : phase.hasBegun = true := by
  cases phase <;> first | rfl | cases h

theorem claimed_or_hasBegun_of_holdsOn {phase : Phase} (h : phase.holdsOn = true) :
    phase = .claimed ∨ phase.hasBegun = true := by
  cases phase <;> first | exact .inl rfl | exact .inr rfl | cases h

end Phase

namespace MeteredRun

variable {σ : Type} {limits : Limits} {runner : ℕ → Operation → σ → Execution × σ} {s next : MeteredRun σ} {t : Turn}
  {turns : List Turn} {i : ℕ} {operation : Operation} {phase : Phase} {operations : List Operation}

/-! ## Going on -/

/-- None of the operations can go on. -/
def Still (runner : ℕ → Operation → σ → Execution × σ) (s : MeteredRun σ) : Prop :=
  ∀ t, s.advance? runner t = none

theorem exists_turns_of_hasBegun (h : s.tasks[i]? = some (operation, phase)) (hbegun : phase.hasBegun = true) :
    ∃ t next, Turns runner s t next := by
  cases phase with
  | running => exact ⟨_, _, .finish h⟩
  | finished o => exact ⟨_, _, .release h⟩
  | leaving o => exact ⟨_, _, .leave h⟩
  | ended o => exact ⟨_, _, .record h⟩
  | _ => cases hbegun

/-- As long as an outcome is not recorded, an operation can go on. -/
theorem Metered.exists_turns (hs : s.Metered limits) (h : s.tasks[i]? = some (operation, phase))
    (hphase : phase ≠ .recorded) : ∃ t next, Turns runner s t next := by
  by_cases hbegun : ∃ task ∈ s.tasks, task.2.hasBegun = true
  · obtain ⟨task, hmem, htask⟩ := hbegun
    obtain ⟨j, hj⟩ := List.getElem?_of_mem hmem
    exact exists_turns_of_hasBegun hj htask
  · by_cases hclaimed : ∃ task ∈ s.tasks, task.2 = .claimed
    · -- all permits of all are left
      obtain ⟨⟨claimant, phase⟩, hmem, rfl⟩ := hclaimed
      obtain ⟨j, hj⟩ := List.getElem?_of_mem hmem
      have hnone : s.tasks.countP (fun t => t.2.holds) = 0 :=
        List.countP_eq_zero.mpr fun task htask hholds => hbegun ⟨task, htask, Phase.hasBegun_of_holds hholds⟩
      have hall := hs.all
      have hpos := limits.all_pos
      exact ⟨_, _, .start hj (by omega)⟩
    · -- all permits of every connection are left
      have hnone : s.tasks.countP (fun t => t.1.connection == operation.connection && t.2.holdsOn) = 0 := by
        refine List.countP_eq_zero.mpr fun task htask hholds => ?_
        rcases Phase.claimed_or_hasBegun_of_holdsOn (Bool.and_eq_true_iff.mp hholds).2 with hphase | hphase
        · exact hclaimed ⟨task, htask, hphase⟩
        · exact hbegun ⟨task, htask, hphase⟩
      have heach := hs.each operation.connection
      have hpos := limits.each_pos
      cases phase with
      | waiting => exact ⟨_, _, .claim h (by omega)⟩
      | claimed => exact absurd ⟨_, List.mem_of_getElem? h, rfl⟩ hclaimed
      | recorded => exact absurd rfl hphase
      | _ => exact absurd ⟨_, List.mem_of_getElem? h, rfl⟩ hbegun

/-- The operations have come to their ends if and only if all outcomes are recorded. -/
theorem Metered.still_iff (hs : s.Metered limits) : s.Still runner ↔ ∀ task ∈ s.tasks, task.2 = .recorded := by
  constructor
  · intro hstill task hmem
    obtain ⟨i, hi⟩ := List.getElem?_of_mem hmem
    by_contra hphase
    obtain ⟨t, next, hturn⟩ : ∃ t next, Turns runner s t next := hs.exists_turns hi hphase
    cases (hstill t).symm.trans hturn.advance?
  · intro hrecorded t
    rw [Option.eq_none_iff_forall_ne_some]
    intro next hnext
    obtain ⟨operation, before, after, hshifts, hturn⟩ := (turns_of_advance? hnext).shifts
    obtain rfl : before = .recorded := hrecorded _ (List.mem_of_getElem? hshifts.task)
    cases hturn

/-! ## The slots -/

section Opened

variable {store : BatchStore} {now : ℕ} {world : σ}

theorem run_opened (limits : Limits) (store : BatchStore) (now : ℕ) (operations : List Operation) (world : σ) :
    (opened limits store now operations world).run = .begin store now operations world := by
  simp [run, opened, BatchRun.begin, Phase.stage, Function.comp_def]

theorem run_of_opened (h : (opened limits store now operations world).after? runner turns = some s) :
    s.run = (BatchRun.begin store now operations world).play limits runner (turns.flatMap Turn.moves) := by
  rw [(metered_opened limits store now operations world).run_of_after? h, run_opened]

theorem slot?_of_ne_recorded (h : (opened limits store now operations world).after? runner turns = some s)
    (htask : s.tasks[i]? = some (operation, phase)) (hphase : phase ≠ .recorded) : s.run.slot? i = some none := by
  have hawaits : s.run.Awaits i := by
    rw [run_of_opened h]
    exact (BatchRun.awaits_begin store now operations world i).play _
  refine hawaits operation phase.stage (getElem?_run htask) fun hstage => hphase ?_
  cases phase <;> first | rfl | cases hstage

/-- An operation whose outcome is recorded has been carried out, and its slot has the outcome of that. -/
theorem exists_finish_of_recorded (h : (opened limits store now operations world).after? runner turns = some s)
    (htask : s.tasks[i]? = some (operation, .recorded)) :
    ∃ before after between, turns = before ++ .finish i :: after ∧
      (opened limits store now operations world).after? runner before = some between ∧
      s.run.slot? i = some (some (runner i operation between.world).1.outcome) := by
  have hnew := traced_opened limits store now operations world
  have htraced := hnew.of_after? h
  have hfinish : .finish i ∈ turns := by
    rw [htraced.mem_iff, Turn.index, rankAt, htask]
    simp [Phase.rank, Turn.course]
  have hrecord : .record i ∈ turns := by
    rw [htraced.mem_iff, Turn.index, rankAt, htask]
    simp [Phase.rank, Turn.course]
  obtain ⟨before, after, rfl⟩ := List.append_of_mem hfinish
  have hrun := run_of_opened h
  rw [after?_append] at h
  obtain ⟨between, hbetween, hlater⟩ := Option.bind_eq_some_iff.mp h
  have hearlier := hnew.of_after? hbetween
  refine ⟨before, after, between, rfl, hbetween, ?_⟩
  obtain ⟨finished, hadvance, -⟩ := Option.bind_eq_some_iff.mp hlater
  cases turns_of_advance? hadvance with
  | @finish i own hrunning =>
      obtain rfl : own = operation :=
        Option.some.inj ((hearlier.operation_eq hrunning).symm.trans (htraced.operation_eq htask))
      have hafter : .record i ∈ after := by
        have hbefore : .record i ∉ before := by
          rw [hearlier.mem_iff, Turn.index, rankAt, hrunning]
          simp [Phase.rank, Turn.course]
        simpa [hbefore] using hrecord
      have hmoves : Move.record i ∈ after.flatMap Turn.moves :=
        List.mem_flatMap.mpr ⟨.record i, hafter, List.mem_singleton.mpr rfl⟩
      have hslot := BatchRun.slot?_play_finish (after.flatMap Turn.moves) (run_of_opened hbetween)
        (getElem?_run hrunning)
      rw [if_pos hmoves, Execution.ofResult_result] at hslot
      rw [hrun, List.flatMap_append, BatchRun.play_append, ← run_of_opened hbetween]
      exact hslot

theorem slot?_eq_none_iff (h : (opened limits store now operations world).after? runner turns = some s)
    (hi : i < operations.length) : s.run.slot? i = some none ↔ .record i ∉ turns := by
  have htraced := (traced_opened limits store now operations world).of_after? h
  obtain ⟨operation, phase, htask⟩ := htraced.exists_task hi
  rw [htraced.mem_iff, Turn.index, rankAt, htask, Option.elim_some]
  by_cases hphase : phase = .recorded
  · subst hphase
    obtain ⟨_, _, _, -, -, hslot⟩ := exists_finish_of_recorded h htask
    simp [hslot, Phase.rank, Turn.course]
  · have hslot := slot?_of_ne_recorded h htask hphase
    cases phase <;> simp_all [Phase.rank, Turn.course]

/-- In the end, all outcomes are recorded. -/
theorem task_of_still (h : (opened limits store now operations world).after? runner turns = some s)
    (hstill : s.Still runner) (hoperation : operations[i]? = some operation) :
    s.tasks[i]? = some (operation, .recorded) := by
  have hmetered := (metered_opened limits store now operations world).of_after? h
  have htraced := (traced_opened limits store now operations world).of_after? h
  obtain ⟨hi, -⟩ := List.getElem?_eq_some_iff.mp hoperation
  obtain ⟨own, phase, htask⟩ := htraced.exists_task hi
  obtain rfl : own = operation := Option.some.inj ((htraced.operation_eq htask).symm.trans hoperation)
  obtain rfl : phase = .recorded := hmetered.still_iff.mp hstill _ (List.mem_of_getElem? htask)
  exact htask

/-- However far the operations have come, all of them can come to their ends. -/
theorem exists_still (h : (opened limits store now operations world).after? runner turns = some s) :
    ∃ later last, s.after? runner later = some last ∧ last.Still runner := by
  have hnew := traced_opened limits store now operations world
  obtain ⟨left, hleft⟩ := Nat.exists_eq_add_of_le (hnew.of_after? h).length_le
  -- each turn takes one of those that are left
  induction left generalizing turns s with
  | zero =>
      refine ⟨[], s, rfl, fun t => Option.eq_none_iff_forall_ne_some.mpr fun next hnext => ?_⟩
      have hlength := (hnew.of_after? (after?_concat.mpr ⟨s, h, turns_of_advance? hnext⟩)).length_le
      rw [List.length_append, List.length_singleton] at hlength
      omega
  | succ left ih =>
      by_cases hstill : s.Still runner
      · exact ⟨[], s, rfl, hstill⟩
      · obtain ⟨t, ht⟩ := not_forall.mp hstill
        obtain ⟨next, hnext⟩ := Option.ne_none_iff_exists'.mp ht
        have hturn := turns_of_advance? hnext
        obtain ⟨later, last, hlast, hend⟩ := ih (after?_concat.mpr ⟨s, h, hturn⟩) (by
          rw [List.length_append, List.length_singleton]
          omega)
        exact ⟨t :: later, last, hturn.after?.trans hlast, hend⟩

end Opened

/-! ## Every order -/

/-- What is true of a new batch after any turns that the permits allow. -/
structure Orderly (limits : Limits) (runner : ℕ → Operation → σ → Execution × σ) (store : BatchStore) (now : ℕ)
    (operations : List Operation) (world : σ) (turns : List Turn) (s : MeteredRun σ) : Prop where
  /-- The turns are moves of the batch. -/
  played : s.run = (BatchRun.begin store now operations world).play limits runner (turns.flatMap Turn.moves)
  /-- Each operation has its turns in order, and each of them at most once. -/
  course : ∀ i, ∃ count, turns.filter (fun t => t.index == i) = (Turn.course i).take count
  /-- No more operations of a connection are under way than may be. -/
  each : ∀ c, s.run.runningOn c ≤ max 1 limits.perConnection
  /-- No more operations are under way than may be in all. -/
  all : s.run.running ≤ max 1 limits.workers
  /-- A slot is empty until an outcome is recorded for it. -/
  empty : ∀ i < operations.length, s.run.slot? i = some none ↔ .record i ∉ turns
  /-- As long as a slot is empty, an operation can go on. -/
  goesOn : ∀ i < operations.length, s.run.slot? i = some none → ∃ t next, s.advance? runner t = some next
  /-- The turns come to an end. -/
  ends : turns.length ≤ 6 * operations.length
  /-- There are turns after which no operation can go on. -/
  reaches : ∃ later last, s.after? runner later = some last ∧ last.Still runner
  /-- In the end, each slot has the outcome of its operation, as that has been carried out. -/
  outcomes : s.Still runner → ∀ i operation, operations[i]? = some operation → ∃ before after between,
    turns = before ++ .finish i :: after ∧
      (opened limits store now operations world).after? runner before = some between ∧
      s.run.slot? i = some (some (runner i operation between.world).1.outcome)
  /-- In the end, each operation has been carried out once, and its outcome has been recorded once. -/
  once : s.Still runner → ∀ i < operations.length, turns.count (.finish i) = 1 ∧ turns.count (.record i) = 1
  /-- In the end, the batch is complete. -/
  complete : s.Still runner → ∃ b, s.store.live.get? s.id = some b ∧ b.snapshot.total = operations.length ∧
    b.snapshot.isComplete = true ∧ b.remaining = 0

theorem orderly_of_after? (limits : Limits) (runner : ℕ → Operation → σ → Execution × σ) (store : BatchStore) (now : ℕ)
    (operations : List Operation) (world : σ) (turns : List Turn) (s : MeteredRun σ)
    (h : (opened limits store now operations world).after? runner turns = some s) :
    Orderly limits runner store now operations world turns s := by
  have hmetered := (metered_opened limits store now operations world).of_after? h
  have htraced := (traced_opened limits store now operations world).of_after? h
  refine
    { played := run_of_opened h
      course := fun i => ⟨s.rankAt i, htraced.course i⟩
      each := fun c => ?_
      all := ?_
      empty := fun i hi => slot?_eq_none_iff h hi
      goesOn := fun i hi hslot => ?_
      ends := htraced.length_le
      reaches := exists_still h
      outcomes := fun hstill i operation hoperation =>
        exists_finish_of_recorded h (task_of_still h hstill hoperation)
      once := fun hstill i hi => ?_
      complete := fun hstill => ?_ }
  · have heach := hmetered.each c
    have hrunning := s.runningOn_run_le c
    rw [Limits.each] at heach
    omega
  · have hall := hmetered.all
    have hrunning := s.running_run_le
    rw [Limits.all] at hall
    omega
  · obtain ⟨operation, phase, htask⟩ := htraced.exists_task hi
    have hphase : phase ≠ .recorded := by
      rintro rfl
      obtain ⟨_, _, _, -, -, hfilled⟩ := exists_finish_of_recorded h htask
      cases hslot.symm.trans hfilled
    obtain ⟨t, next, hturn⟩ : ∃ t next, Turns runner s t next := hmetered.exists_turns htask hphase
    exact ⟨t, next, hturn.advance?⟩
  · have htask := task_of_still h hstill (List.getElem?_eq_getElem hi)
    rw [htraced.count_eq, htraced.count_eq, Turn.index, Turn.index, rankAt, htask]
    simp [Phase.rank, Turn.course]
  · have hkept : s.run.Kept operations.length := by
      rw [run_of_opened h]
      exact (BatchRun.kept_begin store now operations world).play _
    refine hkept.isComplete fun i hi => ?_
    obtain ⟨_, _, _, -, -, hslot⟩ :=
      exists_finish_of_recorded h (task_of_still h hstill (List.getElem?_eq_getElem hi))
    exact ⟨_, hslot⟩

/-- The operations of a batch are carried out in order, whatever turns they have, and turns make up every run of it. -/
theorem runs_orderly (limits : Limits) (runner : ℕ → Operation → σ → Execution × σ) (store : BatchStore) (now : ℕ)
    (operations : List Operation) (world : σ) :
    (∀ turns s, (opened limits store now operations world).after? runner turns = some s →
      Orderly limits runner store now operations world turns s) ∧
    ∀ moves, ∃ turns s, (opened limits store now operations world).after? runner turns = some s ∧
      s.run = (BatchRun.begin store now operations world).play limits runner moves := by
  refine ⟨fun turns s h => orderly_of_after? limits runner store now operations world turns s h, fun moves => ?_⟩
  rw [← run_opened limits store now operations world]
  exact (settled_opened limits store now operations world).exists_run_eq_play
    (metered_opened limits store now operations world) moves

/-- Two operations on one connection and one on another. -/
def mixed : List Operation :=
  [⟨"central", "users", .count, .null⟩, ⟨"central", "panic", .count, .null⟩, ⟨"tenant", "missing", .count, .null⟩]

/-- Counts the operations that have been carried out before. -/
def counting (i : ℕ) (operation : Operation) (before : List ℕ) : Execution × List ℕ :=
  let execution := match operation.table with
    | "panic" => .panicked (some "no luck")
    | "missing" => .ended (.error (.database "no such table"))
    | _ => .ended (.ok (.count before.length))
  (execution, before ++ [i])

/-- An order in which the first operation has to wait for the second one, and the third one is under way with both. -/
def mixedTurns : List Turn :=
  [.claim 1, .claim 2, .start 1, .start 2, .finish 2, .finish 1, .release 1, .leave 1, .claim 0, .release 2, .start 0,
    .leave 2, .record 1, .finish 0, .release 0, .record 2, .leave 0, .record 0]

/-- The second operation panics, and the third one fails. The first one is carried out all the same. -/
theorem runs_orderly_mixed :
    ∃ s, (opened ⟨2, 1⟩ (.empty 60) 0 mixed []).after? counting mixedTurns = some s ∧ s.Still counting ∧
      Orderly ⟨2, 1⟩ counting (.empty 60) 0 mixed [] mixedTurns s ∧
      (List.range 3).map (fun i => (s.run.slot? i).join.bind Outcome.failure?) =
        [none, some ⟨.internal, "internal error: operation panicked: no luck"⟩,
          some ⟨.database, "database error: no such table"⟩] := by
  let last := (opened ⟨2, 1⟩ (.empty 60) 0 mixed []).after? counting mixedTurns
  have hranks : (last.map fun s => s.tasks.map fun t => t.2.rank) = some [6, 6, 6] := by decide +kernel
  have hslots : (last.map fun s => (List.range 3).map fun i => (s.run.slot? i).join.bind Outcome.failure?) =
      some [none, some ⟨.internal, "internal error: operation panicked: no luck"⟩,
        some ⟨.database, "database error: no such table"⟩] := by decide +kernel
  obtain ⟨s, hs, hends⟩ := Option.map_eq_some_iff.mp hranks
  rw [hs, Option.map_some] at hslots
  have horderly := (runs_orderly ⟨2, 1⟩ counting (.empty 60) 0 mixed []).1 mixedTurns s hs
  refine ⟨s, hs, ?_, horderly, Option.some.inj hslots⟩
  refine ((metered_opened ⟨2, 1⟩ (.empty 60) 0 mixed []).of_after? hs).still_iff.mpr fun task htask => ?_
  have hrank := List.mem_map_of_mem (f := fun t : Operation × Phase => t.2.rank) htask
  rw [hends] at hrank
  cases hphase : task.2 <;> simp [hphase, Phase.rank] at hrank ⊢

end MeteredRun

end TableGate
