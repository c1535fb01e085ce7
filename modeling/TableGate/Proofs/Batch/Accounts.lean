import Mathlib.Data.List.Induction
import TableGate.Proofs.Batch.StoreCalls

/-! # What a store of results accounts for

The calls that have been made tell everything about a store that began empty: which batches there still are, what
their slots hold, and what the next call is answered with. -/

namespace TableGate

namespace BatchStore

variable {lifetime : ℕ} {calls later : List StoreCall} {id : String} {total : ℕ}

/-- An empty store after some calls. -/
def after (lifetime : ℕ) (calls : List StoreCall) : BatchStore :=
  ((empty lifetime).run calls).2

/-- One of the calls creates the batch of this name. The calls after it are the given ones. -/
def Creates (lifetime : ℕ) (calls : List StoreCall) (id : String) (total : ℕ) (later : List StoreCall) : Prop :=
  ∃ earlier now, calls = earlier ++ .create now total :: later ∧ ((after lifetime earlier).create now total).1 = id

/-- What is true of the store that some calls leave. -/
structure Accounts (lifetime : ℕ) (calls : List StoreCall) : Prop where
  /-- The counter of a batch is the number of its empty slots. -/
  counted : ∀ id b, (after lifetime calls).live.get? id = some b → b.remaining = b.slots.countP (·.isNone)
  created : ∀ id b, (after lifetime calls).live.get? id = some b → ∃ total later, Creates lifetime calls id total later
  /-- A batch is there until it is taken. -/
  kept : ∀ id total later, Creates lifetime calls id total later →
    ((after lifetime calls).live.get? id = none ↔ ∃ c ∈ later, c.takes id = true)
  /-- A slot holds the first outcome that was recorded for it. -/
  first : ∀ id total later b, Creates lifetime calls id total later → (after lifetime calls).live.get? id = some b →
    b.slots = (List.range total).map fun i => (recordedFor id later).lookup i
  /-- What is seen of a batch are its filled slots. -/
  seen : ∀ now id b, (after lifetime calls).live.get? id = some b → b.isExpired now = false →
    ∃ seen : Snapshot, seen.Reports b.slots ∧ (after lifetime calls).get now id = (.ok seen, after lifetime calls) ∧
      (after lifetime calls).consume now id = (.ok seen, (after lifetime calls).forget id)
  /-- A batch that is not there cannot be seen, and nothing is recorded for it. -/
  unknown : ∀ id, (after lifetime calls).live.get? id = none →
    (∀ now, (after lifetime calls).get now id = (.error (.batchNotFound id), after lifetime calls)) ∧
    (∀ now, (after lifetime calls).consume now id = (.error (.batchNotFound id), after lifetime calls)) ∧
    ∀ i o, (after lifetime calls).record id i o = (false, after lifetime calls)
  /-- An outcome is the last one if and only if it goes into the only empty slot. -/
  last : ∀ id i o, ((after lifetime calls).record id i o).1 = true ↔
    ∃ b, (after lifetime calls).live.get? id = some b ∧ ∀ j, b.slots[j]? = some none ↔ j = i
  /-- The last outcome is told once, for a batch that is filled before it is taken and has slots at all. -/
  once : ∀ id total later, Creates lifetime calls id total later →
    lasts id ((empty lifetime).run calls).1 =
      if 0 < total ∧ ∀ i < total, ((recordedFor id (whileKept id later)).lookup i).isSome then 1 else 0
  /-- The order in which the outcomes are recorded does not matter. -/
  reordered : ∀ id total later b (f : ℕ → Outcome), Creates lifetime calls id total later →
    (after lifetime calls).live.get? id = some b →
    (recordedFor id later).Perm ((List.range total).map fun i => (i, f i)) →
    b.snapshot.items = (List.range total).map fun i => (i, f i)

theorem after_append (lifetime : ℕ) (calls others : List StoreCall) :
    after lifetime (calls ++ others) = ((after lifetime calls).run others).2 := by
  rw [after, run_append, after]

theorem after_concat (lifetime : ℕ) (calls : List StoreCall) (c : StoreCall) :
    after lifetime (calls ++ [c]) = ((after lifetime calls).call c).2 :=
  after_append lifetime calls [c]

theorem allInTime_concat {c : StoreCall} (h : (empty lifetime).allInTime (calls ++ [c]) = true) :
    (empty lifetime).allInTime calls = true ∧ (after lifetime calls).inTime c = true := by
  simpa [allInTime_append, allInTime, after] using h

theorem sound_after (h : (empty lifetime).allInTime calls = true) : (after lifetime calls).Sound :=
  (sound_empty lifetime).run h

/-! ## A batch from its creation on -/

/-- Where a batch is created, it is new, and the other calls find it there. -/
theorem Creates.begins (h : (empty lifetime).allInTime calls = true) (hid : Creates lifetime calls id total later) :
    ∃ s : BatchStore, s.Knows id ∧ (∃ expires, s.live.get? id = some (.empty total expires)) ∧
      s.allInTime later = true ∧ after lifetime calls = (s.run later).2 ∧
      lasts id ((empty lifetime).run calls).1 = lasts id (s.run later).1 := by
  obtain ⟨earlier, now, rfl, rfl⟩ := hid
  rw [allInTime_append, Bool.and_eq_true, allInTime, Bool.and_eq_true] at h
  obtain ⟨hearlier, -, hlater⟩ := h
  have hnone : lasts ((after lifetime earlier).create now total).1 ((empty lifetime).run earlier).1 = 0 := by
    refine lasts_eq_zero fun before hbefore => ?_
    obtain ⟨between, hcut⟩ := hbefore
    rw [← hcut, allInTime_append, Bool.and_eq_true] at hearlier
    rw [Option.eq_none_iff_forall_ne_some]
    intro b hb
    obtain ⟨n, hn, hname⟩ := (sound_after hearlier.1 _ b hb).1
    have hle : (after lifetime before).created ≤ (after lifetime earlier).created := by
      rw [← hcut, after_append]
      exact created_le_run hearlier.2
    exact Nat.ne_of_lt (Nat.lt_of_lt_of_le hn hle) (name_injective hname).symm
  refine ⟨((after lifetime earlier).call (.create now total)).2,
    ⟨_, Nat.lt_succ_self _, rfl⟩, ⟨now + (after lifetime earlier).lifetime, ?_⟩, hlater, ?_, ?_⟩
  · rw [get?_create]
    exact if_pos rfl
  · rw [after_append, run_cons]
  · rw [run_append, lasts, List.countP_append, ← lasts, ← lasts, hnone, Nat.zero_add, lasts_cons]
    rfl

/-- What there is of a batch. -/
theorem Creates.get?_after (h : (empty lifetime).allInTime calls = true)
    (hid : Creates lifetime calls id total later) :
    ∃ expires, (after lifetime calls).live.get? id =
      if later.any (·.takes id) then none
      else some ((Batch.empty total expires).fill (recordedFor id later)) := by
  obtain ⟨s, hknown, ⟨expires, hs⟩, hlater, hafter, -⟩ := hid.begins h
  exact ⟨expires, by rw [hafter, get?_run hknown hlater, hs, Option.map_some]⟩

theorem Creates.slots_eq {b : Batch} (h : (empty lifetime).allInTime calls = true)
    (hid : Creates lifetime calls id total later) (hb : (after lifetime calls).live.get? id = some b) :
    b.slots = (List.range total).map fun i => (recordedFor id later).lookup i := by
  obtain ⟨expires, hlive⟩ := hid.get?_after h
  rw [hlive] at hb
  split at hb
  · cases hb
  · cases hb
    exact Batch.slots_fill_empty total expires _

theorem Creates.lasts_eq (h : (empty lifetime).allInTime calls = true)
    (hid : Creates lifetime calls id total later) :
    lasts id ((empty lifetime).run calls).1 =
      if 0 < total ∧ ∀ i < total, ((recordedFor id (whileKept id later)).lookup i).isSome then 1 else 0 := by
  obtain ⟨s, hknown, ⟨expires, hs⟩, hlater, -, hlasts⟩ := hid.begins h
  rw [hlasts, lasts_run hknown hlater hs (Batch.inStep_empty total expires)]
  refine if_congr (and_congr ?_ ?_) rfl rfl
  · simp [Batch.Full, Batch.empty, Nat.pos_iff_ne_zero]
  · rw [Batch.Full, Batch.slots_fill_empty]
    simp

/-- A batch that is there has been created. -/
theorem creates_of_live {b : Batch} (h : (empty lifetime).allInTime calls = true)
    (hb : (after lifetime calls).live.get? id = some b) : ∃ total later, Creates lifetime calls id total later := by
  induction calls using List.reverseRecOn generalizing b with
  | nil => cases hb
  | append_singleton calls c ih =>
      obtain ⟨hcalls, hc⟩ := allInTime_concat h
      by_cases hnew : ∀ now total, c = .create now total → id ≠ name (after lifetime calls).created
      · rw [after_concat, get?_call hc hnew] at hb
        split at hb
        · cases hb
        · obtain ⟨own, hown, -⟩ := Option.map_eq_some_iff.mp hb
          obtain ⟨total, later, earlier, now, hcalls, hname⟩ := ih hcalls hown
          exact ⟨total, later ++ [c], earlier, now, by rw [hcalls, List.append_assoc, List.cons_append], hname⟩
      · simp only [not_forall, not_not] at hnew
        obtain ⟨now, total, rfl, rfl⟩ := hnew
        exact ⟨total, [], calls, now, rfl, rfl⟩

/-! ## The calls that follow -/

theorem record_last_iff {s : BatchStore} (hs : s.Sound) (i : ℕ) (o : Outcome) :
    (s.record id i o).1 = true ↔ ∃ b, s.live.get? id = some b ∧ ∀ j, b.slots[j]? = some none ↔ j = i := by
  cases hlive : s.live.get? id with
  | none => simp [record_of_missing hlive]
  | some b =>
      have hanswer : (s.record id i o).1 = b.isLast (i, o) := by
        rw [record, hlive, Option.bind_some, Batch.isLast]
        cases b.record? i o <;> rfl
      rw [hanswer, (hs id b hlive).2.isLast_iff_only]
      simp

/-- What is found first for a slot, where all that there is for it is the same. -/
theorem lookup_of_forall {entries : List (ℕ × Outcome)} {f : ℕ → Outcome} {i : ℕ}
    (hall : ∀ entry ∈ entries, entry.2 = f entry.1) (hi : (i, f i) ∈ entries) :
    entries.lookup i = some (f i) := by
  obtain ⟨o, ho⟩ := Option.isSome_iff_exists.mp (List.lookup_isSome_iff.mpr ⟨(i, f i), hi, beq_self_eq_true i⟩)
  obtain ⟨before, rest, rfl, -⟩ := List.lookup_eq_some_iff.mp ho
  exact ho.trans (congrArg some (hall (i, o) (by simp)))

theorem Creates.items_eq {b : Batch} {f : ℕ → Outcome} (h : (empty lifetime).allInTime calls = true)
    (hid : Creates lifetime calls id total later) (hb : (after lifetime calls).live.get? id = some b)
    (hperm : (recordedFor id later).Perm ((List.range total).map fun i => (i, f i))) :
    b.snapshot.items = (List.range total).map fun i => (i, f i) := by
  have hslots : b.slots = (List.range total).map fun i => some (f i) := by
    rw [hid.slots_eq h hb]
    refine List.map_congr_left fun i hi => lookup_of_forall (fun entry hentry => ?_) ?_
    · obtain ⟨j, -, rfl⟩ := List.mem_map.mp (hperm.mem_iff.mp hentry)
      rfl
    · exact hperm.mem_iff.mpr (List.mem_map.mpr ⟨i, hi, rfl⟩)
  rw [Batch.snapshot, hslots, List.range_eq_range', Batch.itemsFrom_of_full]

/-- A store that began empty accounts for the calls on it, as long as no batch that they ask for has run out of time. -/
theorem accounts_of_allInTime (lifetime : ℕ) (calls : List StoreCall) (h : (empty lifetime).allInTime calls = true) :
    Accounts lifetime calls where
  counted id b hb := (sound_after h id b hb).2
  created _ _ hb := creates_of_live h hb
  kept id total later hid := by
    obtain ⟨expires, hlive⟩ := hid.get?_after h
    rw [hlive, ← List.any_eq_true]
    cases later.any (·.takes id) <;> simp
  first _ _ _ _ hid hb := hid.slots_eq h hb
  seen now id b hb hintime := by
    refine ⟨b.snapshot, b.reports_snapshot, ?_, ?_⟩
    · simp [get, find, hb, hintime]
    · simp [consume, find, hb, hintime]
  unknown id hnone :=
    ⟨fun now => by simp [get, find, hnone], fun now => by simp [consume, find, hnone], record_of_missing hnone⟩
  last _ i o := record_last_iff (sound_after h) i o
  once _ _ _ hid := hid.lasts_eq h
  reordered _ _ _ _ _ hid hb hperm := hid.items_eq h hb hperm

/-- Two batches at once. The outcomes come in any order, twice for one slot, and late. -/
theorem accounts_two_batches :
    (empty 60).allInTime
      [.create 0 2, .create 1 1, .record "batch-0" 1 (.success (.count 1)), .record "batch-1" 0 (.success (.count 2)),
        .record "batch-0" 1 (.success (.count 3)), .get 30 "batch-0", .consume 40 "batch-1",
        .record "batch-1" 0 (.success (.count 4))] = true ∧
    Accounts 60
      [.create 0 2, .create 1 1, .record "batch-0" 1 (.success (.count 1)), .record "batch-1" 0 (.success (.count 2)),
        .record "batch-0" 1 (.success (.count 3)), .get 30 "batch-0", .consume 40 "batch-1",
        .record "batch-1" 0 (.success (.count 4))] :=
  ⟨by decide +kernel, accounts_of_allInTime _ _ (by decide +kernel)⟩

end BatchStore

end TableGate
