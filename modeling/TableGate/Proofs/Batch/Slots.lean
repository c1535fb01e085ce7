import Mathlib.Data.List.Basic
import TableGate.Batch.Store

/-! # The slots of a batch

A slot keeps the first outcome that is recorded for it. The count of the empty slots goes down with each of them, so
that the last one is known when it is filled. -/

namespace TableGate

/-- A view reports the filled slots, in order, and is complete if and only if there are no others. -/
structure Snapshot.Reports (seen : Snapshot) (slots : List (Option Outcome)) : Prop where
  total : seen.total = slots.length
  increasing : seen.items.Pairwise fun a b => a.1 < b.1
  items : ∀ i o, (i, o) ∈ seen.items ↔ slots[i]? = some (some o)
  completed : seen.completed = slots.countP (·.isSome)
  status : seen.status = if ∀ slot ∈ slots, slot.isSome then "complete" else "pending"

namespace Batch

variable {b next : Batch} {i j : ℕ} {o : Outcome} {last : Bool}

/-- The number of empty slots is the one that is kept. -/
def InStep (b : Batch) : Prop :=
  b.remaining = b.slots.countP (·.isNone)

/-- No slot is empty. -/
def Full (b : Batch) : Prop :=
  ∀ slot ∈ b.slots, slot.isSome

instance : Decidable b.Full :=
  inferInstanceAs (Decidable (∀ slot ∈ b.slots, slot.isSome))

/-- The batch after an outcome for a slot. -/
def put (b : Batch) (entry : ℕ × Outcome) : Batch :=
  ((b.record? entry.1 entry.2).map Prod.snd).getD b

/-- The outcome for a slot is the last one. -/
def isLast (b : Batch) (entry : ℕ × Outcome) : Bool :=
  ((b.record? entry.1 entry.2).map Prod.fst).getD false

/-- The batch after outcomes for slots, one after the other. -/
def fill (b : Batch) (entries : List (ℕ × Outcome)) : Batch :=
  entries.foldl put b

theorem inStep_empty (total expires : ℕ) : (empty total expires).InStep := by
  simp [InStep, empty, List.countP_replicate]

theorem full_iff_countP : b.Full ↔ b.slots.countP (·.isNone) = 0 := by
  simp [Full, List.countP_eq_zero, Option.isSome_iff_ne_none]

/-! ## One outcome -/

theorem record?_eq_some : b.record? i o = some (last, next) ↔
    b.slots[i]? = some none ∧ last = (b.remaining == 1) ∧
      next = { b with slots := b.slots.set i (some o), remaining := b.remaining - 1 } := by
  unfold record?
  split
  · rename_i hslot
    simp [hslot, eq_comm]
  · rename_i hslot
    simp only [reduceCtorEq, false_iff, not_and]
    exact fun hempty => absurd hempty hslot

theorem record?_eq_none : b.record? i o = none ↔ b.slots[i]? ≠ some none := by
  unfold record?
  split
  · rename_i hslot
    simp [hslot]
  · rename_i hslot
    exact ⟨fun _ hempty => hslot hempty, fun _ => rfl⟩

theorem countP_set_isNone {slots : List (Option Outcome)} (h : slots[i]? = some none) :
    (slots.set i (some o)).countP (·.isNone) + 1 = slots.countP (·.isNone) := by
  obtain ⟨hi, hslot⟩ := List.getElem?_eq_some_iff.mp h
  have hpos : 0 < slots.countP (·.isNone) :=
    List.countP_pos_iff.mpr ⟨none, List.mem_of_getElem? h, rfl⟩
  rw [List.countP_set hi, hslot]
  simp only [Option.isNone_none, Option.isNone_some, if_true, Bool.false_eq_true, if_false]
  omega

theorem InStep.record? (h : b.InStep) (hrecord : b.record? i o = some (last, next)) :
    next.InStep ∧ (last = true ↔ next.Full) := by
  obtain ⟨hslot, rfl, rfl⟩ := record?_eq_some.mp hrecord
  have hcount := countP_set_isNone (o := o) hslot
  rw [InStep] at h
  refine ⟨?_, ?_⟩
  · simp only [InStep]
    omega
  · simp only [full_iff_countP, beq_iff_eq]
    omega

theorem put_eq_self (h : b.slots[i]? ≠ some none) : b.put (i, o) = b := by
  simp [put, record?_eq_none.mpr h]

theorem put_of_record? (h : b.record? i o = some (last, next)) : b.put (i, o) = next := by
  simp [put, h]

theorem InStep.put (h : b.InStep) (entry : ℕ × Outcome) : (b.put entry).InStep := by
  obtain ⟨i, o⟩ := entry
  cases hrecord : b.record? i o with
  | none => rwa [put_eq_self (record?_eq_none.mp hrecord)]
  | some found =>
      rw [put_of_record? hrecord]
      exact (h.record? hrecord).1

theorem InStep.isLast (h : b.InStep) (entry : ℕ × Outcome) :
    b.isLast entry = true ↔ ¬b.Full ∧ (b.put entry).Full := by
  obtain ⟨i, o⟩ := entry
  cases hrecord : b.record? i o with
  | none =>
      rw [put_eq_self (record?_eq_none.mp hrecord), Batch.isLast, hrecord]
      simp
  | some found =>
      obtain ⟨last, next⟩ := found
      have hempty : ¬b.Full := fun hfull => by
        simpa using hfull none (List.mem_of_getElem? (record?_eq_some.mp hrecord).1)
      rw [put_of_record? hrecord, Batch.isLast, hrecord, Option.map_some, Option.getD_some,
        (h.record? hrecord).2]
      exact ⟨fun hfull => ⟨hempty, hfull⟩, And.right⟩

/-- An outcome goes into its slot if that is empty, and nowhere else. -/
theorem getElem?_slots_put (b : Batch) (i : ℕ) (o : Outcome) (j : ℕ) :
    (b.put (i, o)).slots[j]? = b.slots[j]?.map fun slot => slot.or (if j = i then some o else none) := by
  cases hrecord : b.record? i o with
  | none =>
      rw [put_eq_self (record?_eq_none.mp hrecord)]
      have hslot := record?_eq_none.mp hrecord
      cases hj : b.slots[j]? with
      | none => rfl
      | some slot =>
          by_cases hji : j = i
          · subst hji
            cases slot with
            | none => exact absurd hj hslot
            | some own => rfl
          · simp [hji]
  | some found =>
      obtain ⟨last, next⟩ := found
      rw [put_of_record? hrecord]
      obtain ⟨hslot, -, rfl⟩ := record?_eq_some.mp hrecord
      by_cases hji : j = i
      · subst hji
        obtain ⟨hj, hempty⟩ := List.getElem?_eq_some_iff.mp hslot
        simp [hj, hempty]
      · simp [List.getElem?_set_ne (Ne.symm hji), hji]

/-! ## Outcomes one after the other -/

/-- A slot keeps what it has; an empty one gets the first outcome that there is for it. -/
theorem getElem?_slots_fill (b : Batch) (entries : List (ℕ × Outcome)) (j : ℕ) :
    (b.fill entries).slots[j]? = b.slots[j]?.map fun slot => slot.or (entries.lookup j) := by
  induction entries generalizing b with
  | nil => simp [fill]
  | cons entry entries ih =>
      obtain ⟨i, o⟩ := entry
      rw [fill, List.foldl_cons, ← fill, ih, getElem?_slots_put, Option.map_map]
      congr 1
      funext slot
      rw [Function.comp, Option.or_assoc, List.lookup_cons]
      by_cases hji : j = i
      · simp [hji]
      · simp [hji, beq_eq_false_iff_ne.mpr hji]

theorem Full.fill (h : b.Full) (entries : List (ℕ × Outcome)) : (b.fill entries).Full := by
  intro slot hslot
  obtain ⟨j, hj⟩ := List.getElem?_of_mem hslot
  rw [getElem?_slots_fill, Option.map_eq_some_iff] at hj
  obtain ⟨own, hown, rfl⟩ := hj
  simp [Option.isSome_or, h own (List.mem_of_getElem? hown)]

/-- Among outcomes one after the other, the first one is the last if it fills the batch. Otherwise the last one is to be
found among the others. -/
theorem InStep.lasts_cons (h : b.InStep) (entry : ℕ × Outcome) (entries : List (ℕ × Outcome)) :
    ((if ¬(b.put entry).Full ∧ ((b.put entry).fill entries).Full then 1 else 0) +
      if b.isLast entry = true then 1 else 0) = if ¬b.Full ∧ (b.fill (entry :: entries)).Full then 1 else 0 := by
  have hstart : b.Full → (b.put entry).Full := fun hfull => hfull.fill [entry]
  have hrest : (b.put entry).Full → (b.fill (entry :: entries)).Full := fun hfull => hfull.fill entries
  have hfill : (b.put entry).fill entries = b.fill (entry :: entries) := rfl
  simp only [h.isLast entry, hfill]
  by_cases hfull : b.Full
  · simp [hfull, hstart hfull]
  · by_cases hput : (b.put entry).Full
    · simp [hfull, hput, hrest hput]
    · simp [hfull, hput]

/-- The slots of a new batch after some outcomes. -/
theorem slots_fill_empty (total expires : ℕ) (entries : List (ℕ × Outcome)) :
    ((empty total expires).fill entries).slots = (List.range total).map fun i => entries.lookup i := by
  refine List.ext_getElem? fun j => ?_
  rw [getElem?_slots_fill, List.getElem?_map, empty, List.getElem?_replicate]
  by_cases hj : j < total
  · simp [hj]
  · rw [if_neg hj, List.getElem?_eq_none (by simpa using hj)]
    rfl

theorem full_iff_getElem? {b : Batch} : b.Full ↔ ∀ j : ℕ, b.slots[j]? ≠ some none := by
  have hmem : b.Full ↔ none ∉ b.slots := by
    rw [full_iff_countP, List.countP_eq_zero]
    exact ⟨fun h hempty => h none hempty rfl, fun h slot hslot hnone => h (Option.isNone_iff_eq_none.mp hnone ▸ hslot)⟩
  rw [hmem, List.mem_iff_getElem?, not_exists]

/-- The last outcome goes into the only empty slot. -/
theorem InStep.isLast_iff_only (h : b.InStep) :
    b.isLast (i, o) = true ↔ ∀ j, b.slots[j]? = some none ↔ j = i := by
  have hput : ∀ j, (b.put (i, o)).slots[j]? = some none ↔ b.slots[j]? = some none ∧ j ≠ i := by
    intro j
    rw [getElem?_slots_put]
    by_cases hji : j = i <;> simp [hji]
  simp only [h.isLast, full_iff_getElem?, ne_eq, hput, not_forall, not_not, not_and]
  constructor
  · rintro ⟨⟨k, hk⟩, honly⟩ j
    exact ⟨honly j, fun hj => hj ▸ honly k hk ▸ hk⟩
  · exact fun honly => ⟨⟨i, (honly i).mpr rfl⟩, fun j => (honly j).mp⟩

/-! ## What is seen of them -/

theorem mem_itemsFrom {slots : List (Option Outcome)} {k : ℕ} :
    (i, o) ∈ itemsFrom k slots ↔ ∃ j, i = k + j ∧ slots[j]? = some (some o) := by
  induction slots generalizing k with
  | nil => simp [itemsFrom]
  | cons slot slots ih =>
      have hshift : (∃ j, i = k + 1 + j ∧ slots[j]? = some (some o)) ↔
          ∃ j, i = k + (j + 1) ∧ (slot :: slots)[j + 1]? = some (some o) := by
        simp only [List.getElem?_cons_succ, Nat.add_assoc, Nat.add_comm 1]
      cases slot with
      | none =>
          rw [itemsFrom, ih, hshift]
          constructor
          · rintro ⟨j, hj⟩
            exact ⟨j + 1, hj⟩
          · rintro ⟨_ | j, hi, hj⟩
            · simp at hj
            · exact ⟨j, hi, hj⟩
      | some own =>
          rw [itemsFrom, List.mem_cons, ih, hshift]
          constructor
          · rintro (heq | ⟨j, hj⟩)
            · cases heq
              exact ⟨0, rfl, rfl⟩
            · exact ⟨j + 1, hj⟩
          · rintro ⟨_ | j, hi, hj⟩
            · cases hj
              exact .inl (by rw [hi, Nat.add_zero])
            · exact .inr ⟨j, hi, hj⟩

theorem increasing_itemsFrom (k : ℕ) (slots : List (Option Outcome)) :
    (itemsFrom k slots).Pairwise fun a b => a.1 < b.1 := by
  induction slots generalizing k with
  | nil => exact List.Pairwise.nil
  | cons slot slots ih =>
      cases slot with
      | none => exact ih (k + 1)
      | some o =>
          refine List.pairwise_cons.mpr ⟨fun item hitem => ?_, ih (k + 1)⟩
          obtain ⟨j, hj, -⟩ := mem_itemsFrom.mp hitem
          rw [hj]
          omega

theorem length_itemsFrom (k : ℕ) (slots : List (Option Outcome)) :
    (itemsFrom k slots).length = slots.countP (·.isSome) := by
  induction slots generalizing k with
  | nil => rfl
  | cons slot slots ih => cases slot <;> simp [itemsFrom, ih]

/-- The view of full slots. -/
theorem itemsFrom_of_full (k total : ℕ) (f : ℕ → Outcome) :
    itemsFrom k ((List.range' k total).map fun i => some (f i)) = (List.range' k total).map fun i => (i, f i) := by
  induction total generalizing k with
  | zero => rfl
  | succ total ih => rw [List.range'_succ, List.map_cons, itemsFrom, ih, List.map_cons]

theorem reports_snapshot (b : Batch) : b.snapshot.Reports b.slots where
  total := rfl
  increasing := increasing_itemsFrom 0 b.slots
  items i o := by
    rw [snapshot, mem_itemsFrom]
    simp
  completed := length_itemsFrom 0 b.slots
  status := by
    have hcomplete : b.snapshot.isComplete = true ↔ ∀ slot ∈ b.slots, slot.isSome := by
      rw [Snapshot.isComplete, beq_iff_eq, snapshot, Snapshot.completed, length_itemsFrom,
        List.countP_eq_length]
    rw [Snapshot.status]
    exact if_congr hcomplete rfl rfl

end Batch

end TableGate
