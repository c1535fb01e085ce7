import TableGate.Batch.Run
import TableGate.Proofs.Batch.StoreCalls

/-! # The slots of a batch that is carried out

The slot of an operation is empty until the outcome of the operation is recorded, and keeps it from then on. The
moves of other operations do not touch it. -/

namespace TableGate

open Batch

/-- The position of the operation that is moved on. -/
def Move.index : Move → ℕ
  | .claim i => i
  | .start i => i
  | .finish i => i
  | .record i => i

namespace BatchStore

theorem get?_record (s : BatchStore) (id : String) (i : ℕ) (o : Outcome) :
    (s.record id i o).2.live.get? id = (s.live.get? id).map fun b => b.put (i, o) := by
  have hnew : ∀ now total, StoreCall.record id i o = .create now total → id ≠ name s.created := by simp
  simpa [call, StoreCall.takes, StoreCall.recorded?] using get?_call rfl hnew

end BatchStore

namespace BatchRun

variable {σ : Type} {limits : Limits} {runner : ℕ → Operation → σ → Execution × σ} {r : BatchRun σ} {m : Move}
  {moves : List Move} {i : ℕ} {operation : Operation} {stage : Stage} {o : Outcome}

/-- The slot of an operation in the store. -/
def slot? (r : BatchRun σ) (i : ℕ) : Option (Option Outcome) :=
  (r.store.live.get? r.id).bind fun b => b.slots[i]?

/-- The run after a move, which is left out if it is not possible. -/
def step (limits : Limits) (runner : ℕ → Operation → σ → Execution × σ) (r : BatchRun σ) (m : Move) : BatchRun σ :=
  (r.move? limits runner m).getD r

theorem play_cons : play limits runner (m :: moves) r = play limits runner moves (r.step limits runner m) :=
  rfl

theorem play_append (others : List Move) :
    play limits runner (moves ++ others) r = play limits runner others (play limits runner moves r) :=
  List.foldl_append

/-! ## One move -/

/-- What a move comes to. -/
inductive Steps (runner : ℕ → Operation → σ → Execution × σ) (r : BatchRun σ) : Move → BatchRun σ → Prop where
  | left (m : Move) : Steps runner r m r
  | claim {i : ℕ} {operation : Operation} (h : r.tasks[i]? = some (operation, .waiting)) :
      Steps runner r (.claim i) (r.put i operation .claimed)
  | start {i : ℕ} {operation : Operation} (h : r.tasks[i]? = some (operation, .claimed)) :
      Steps runner r (.start i) (r.put i operation .running)
  | finish {i : ℕ} {operation : Operation} (h : r.tasks[i]? = some (operation, .running)) :
      Steps runner r (.finish i)
        { r.put i operation (.ended (.ofResult (runner i operation r.world).1.result)) with
          world := (runner i operation r.world).2 }
  | record {i : ℕ} {operation : Operation} {o : Outcome} (h : r.tasks[i]? = some (operation, .ended o)) :
      Steps runner r (.record i)
        { r.put i operation .recorded with store := (r.store.record r.id i o).2 }

theorem steps (limits : Limits) (runner : ℕ → Operation → σ → Execution × σ) (r : BatchRun σ) (m : Move) :
    Steps runner r m (r.step limits runner m) := by
  cases m with
  | claim i =>
      unfold step move?
      dsimp only
      split
      · split
        · rename_i h _
          exact .claim h
        · exact .left _
      · exact .left _
  | start i =>
      unfold step move?
      dsimp only
      split
      · split
        · rename_i h _
          exact .start h
        · exact .left _
      · exact .left _
  | finish i =>
      unfold step move?
      dsimp only
      split
      · rename_i h
        exact .finish h
      · exact .left _
  | record i =>
      unfold step move?
      dsimp only
      split
      · rename_i h
        exact .record h
      · exact .left _

/-- Recording an outcome fills the slot of its operation, if that is empty, and no other one. -/
theorem slot?_record (r : BatchRun σ) (i j : ℕ) (o : Outcome) (tasks : List (Operation × Stage)) :
    slot? { r with tasks, store := (r.store.record r.id i o).2 } j =
      (r.slot? j).map fun slot => slot.or (if j = i then some o else none) := by
  rw [slot?, slot?, BatchStore.get?_record]
  cases r.store.live.get? r.id with
  | none => rfl
  | some b => exact getElem?_slots_put b i o j

theorem Steps.of_ne {next : BatchRun σ} (h : Steps runner r m next) (hm : m.index ≠ i) :
    next.tasks[i]? = r.tasks[i]? ∧ next.slot? i = r.slot? i := by
  cases h with
  | left => exact ⟨rfl, rfl⟩
  | claim => exact ⟨List.getElem?_set_ne hm, rfl⟩
  | start => exact ⟨List.getElem?_set_ne hm, rfl⟩
  | finish => exact ⟨List.getElem?_set_ne hm, rfl⟩
  | @record j =>
      have hij : i ≠ j := Ne.symm hm
      refine ⟨List.getElem?_set_ne hm, (slot?_record r j i _ _).trans ?_⟩
      simp [hij]

/-- Only a move that records its outcome concerns an operation that has ended, and none one that is recorded. -/
theorem Steps.of_ended {next : BatchRun σ} (hstep : Steps runner r m next) (h : r.tasks[i]? = some (operation, stage))
    (hstage : stage = .recorded ∨ ∃ o, stage = .ended o) (hm : stage ≠ .recorded → m ≠ .record i) :
    next.tasks[i]? = r.tasks[i]? ∧ next.slot? i = r.slot? i := by
  by_cases hindex : m.index = i
  · subst hindex
    cases hstep with
    | left => exact ⟨rfl, rfl⟩
    | record htask =>
        cases htask.symm.trans h
        exact absurd rfl (hm nofun)
    | _ htask =>
        cases htask.symm.trans h
        simp at hstage
  · exact hstep.of_ne hindex

/-- The slot of an operation is empty as long as its outcome is not recorded. -/
def Awaits (r : BatchRun σ) (i : ℕ) : Prop :=
  ∀ operation stage, r.tasks[i]? = some (operation, stage) → stage ≠ .recorded → r.slot? i = some none

theorem getElem?_put (h : r.tasks[i]? = some (operation, stage)) (next : Stage) :
    (r.put i operation next).tasks[i]? = some (operation, next) := by
  obtain ⟨hi, -⟩ := List.getElem?_eq_some_iff.mp h
  exact List.getElem?_set_self hi

theorem Awaits.of_steps {next : BatchRun σ} (h : r.Awaits i) (hstep : Steps runner r m next) : next.Awaits i := by
  by_cases hm : m.index = i
  · subst hm
    cases hstep with
    | left => exact h
    | claim htask => exact fun _ _ _ _ => h _ _ htask nofun
    | start htask => exact fun _ _ _ _ => h _ _ htask nofun
    | finish htask => exact fun _ _ _ _ => h _ _ htask nofun
    | record htask =>
        intro operation stage hnext hstage
        have hput := getElem?_put htask .recorded
        cases hput.symm.trans hnext
        exact absurd rfl hstage
  · obtain ⟨htasks, hslot⟩ := hstep.of_ne hm
    rwa [Awaits, htasks, hslot]

theorem awaits_begin (store : BatchStore) (now : ℕ) (operations : List Operation) (world : σ) (i : ℕ) :
    (begin store now operations world).Awaits i := by
  intro operation stage htask _
  obtain ⟨hi, -⟩ := List.getElem?_eq_some_iff.mp htask
  have hlength : i < operations.length := by simpa [begin] using hi
  simp [slot?, begin, BatchStore.create, Batch.empty, hlength]

/-! ## All moves -/

theorem Awaits.play (h : r.Awaits i) (moves : List Move) : (r.play limits runner moves).Awaits i := by
  induction moves generalizing r with
  | nil => exact h
  | cons m moves ih => exact ih (h.of_steps (steps limits runner r m))

/-- An outcome that is recorded stays. -/
theorem slot?_play_of_recorded (h : r.tasks[i]? = some (operation, .recorded)) (moves : List Move) :
    (r.play limits runner moves).slot? i = r.slot? i := by
  induction moves generalizing r with
  | nil => rfl
  | cons m moves ih =>
      have hsame := (steps limits runner r m).of_ended h (.inl rfl) fun hne => absurd rfl hne
      rw [play_cons, ih (hsame.1.trans h), hsame.2]

/-- An outcome is in its slot as soon as it is recorded. -/
theorem slot?_play_of_ended (h : r.tasks[i]? = some (operation, .ended o)) (hslot : r.slot? i = some none)
    (moves : List Move) :
    (r.play limits runner moves).slot? i = some (if .record i ∈ moves then some o else none) := by
  induction moves generalizing r with
  | nil =>
      rw [if_neg List.not_mem_nil]
      exact hslot
  | cons m moves ih =>
      rw [play_cons]
      by_cases hrecord : m = .record i
      · subst hrecord
        have hnext : r.step limits runner (.record i) =
            { r.put i operation .recorded with store := (r.store.record r.id i o).2 } := by
          rw [step, move?, h]
          rfl
        have hrecorded : (r.step limits runner (.record i)).tasks[i]? = some (operation, .recorded) := by
          rw [hnext]
          exact getElem?_put h .recorded
        rw [slot?_play_of_recorded hrecorded, hnext]
        refine (slot?_record r i i o _).trans ?_
        simp [hslot]
      · have hsame := (steps limits runner r m).of_ended h (.inr ⟨o, rfl⟩) fun _ => hrecord
        rw [ih (hsame.1.trans h) (hsame.2.trans hslot)]
        have hmem : Move.record i ∈ m :: moves ↔ Move.record i ∈ moves := by
          simp [Ne.symm hrecord]
        simp only [hmem]

/-- In a new batch, the slot of an operation is filled if and only if its outcome is recorded after the operation has
ended, with the outcome that it ended with. -/
theorem slot?_play_finish {store : BatchStore} {now : ℕ} {operations : List Operation} {world : σ} {before : List Move}
    (after : List Move) (h : r = (begin store now operations world).play limits runner before)
    (hrunning : r.tasks[i]? = some (operation, .running)) :
    (r.play limits runner (.finish i :: after)).slot? i =
      some (if .record i ∈ after then some (.ofResult (runner i operation r.world).1.result) else none) := by
  have hawaits : r.Awaits i := h ▸ (awaits_begin store now operations world i).play before
  have hnext : r.step limits runner (.finish i) =
      { r.put i operation (.ended (.ofResult (runner i operation r.world).1.result)) with
        world := (runner i operation r.world).2 } := by
    rw [step, move?, hrunning]
    rfl
  rw [play_cons, slot?_play_of_ended]
  · rw [hnext]
    exact getElem?_put hrunning _
  · rw [hnext]
    exact hawaits operation _ hrunning nofun

end BatchRun

end TableGate
