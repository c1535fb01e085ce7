import TableGate.Proofs.Batch.Slots
import TableGate.Proofs.NameMap
import TableGate.Proofs.Text.Decimal

/-! # Calls on a store of results

The calls on a store create batches, record outcomes, look at results and take them. As long as no batch runs out of
time, what a batch holds is told by the calls since it was created: the first outcome for each slot, until the batch
is taken. -/

namespace TableGate

/-- A call on a store of results, at a time where that matters. -/
inductive StoreCall where
  | create (now total : ℕ)
  | record (id : String) (index : ℕ) (outcome : Outcome)
  | get (now : ℕ) (id : String)
  | consume (now : ℕ) (id : String)

/-- What a call is answered with. -/
inductive StoreAnswer where
  | created (id : String)
  | recorded (last : Bool)
  | seen (result : Except Fault Snapshot)

namespace StoreCall

/-- The outcome that the call records for a batch, with its position. -/
def recorded? (id : String) : StoreCall → Option (ℕ × Outcome)
  | .record other index outcome => if other = id then some (index, outcome) else none
  | _ => none

/-- The call takes the results of a batch. -/
def takes (id : String) : StoreCall → Bool
  | .consume _ other => other == id
  | _ => false

theorem recorded?_of_takes {c : StoreCall} {id : String} (h : c.takes id = true) : c.recorded? id = none := by
  cases c with
  | consume now other => rfl
  | create now total => rfl
  | get now other => rfl
  | record other i o => cases h

end StoreCall

/-- The answer is that the last outcome has been recorded. -/
def StoreAnswer.isLast : StoreAnswer → Bool
  | .recorded last => last
  | _ => false

namespace BatchStore

variable {s : BatchStore} {id : String} {b : Batch} {c : StoreCall} {calls : List StoreCall}

def call (s : BatchStore) : StoreCall → StoreAnswer × BatchStore
  | .create now total => let (id, s) := s.create now total; (.created id, s)
  | .record id index outcome => let (last, s) := s.record id index outcome; (.recorded last, s)
  | .get now id => let (result, s) := s.get now id; (.seen result, s)
  | .consume now id => let (result, s) := s.consume now id; (.seen result, s)

/-- Makes calls one after the other. Each is listed with its answer. -/
def run (s : BatchStore) : List StoreCall → List (StoreCall × StoreAnswer) × BatchStore
  | [] => ([], s)
  | c :: calls =>
    let (answer, s) := s.call c
    let (events, s) := s.run calls
    ((c, answer) :: events, s)

/-- The call is made before the batch that it asks for runs out of time. -/
def inTime (s : BatchStore) : StoreCall → Bool
  | .get now id => (s.live.get? id).all fun b => !b.isExpired now
  | .consume now id => (s.live.get? id).all fun b => !b.isExpired now
  | _ => true

def allInTime (s : BatchStore) : List StoreCall → Bool
  | [] => true
  | c :: calls => s.inTime c && (s.call c).2.allInTime calls

/-- The outcomes that calls record for a batch, in order. -/
def recordedFor (id : String) (calls : List StoreCall) : List (ℕ × Outcome) :=
  calls.filterMap (·.recorded? id)

/-- The calls before the one that takes the results of a batch. -/
def whileKept (id : String) (calls : List StoreCall) : List StoreCall :=
  calls.takeWhile fun c => !c.takes id

/-- How often a call has been told that it recorded the last outcome of a batch. -/
def lasts (id : String) (events : List (StoreCall × StoreAnswer)) : ℕ :=
  events.countP fun e => (e.1.recorded? id).isSome && e.2.isLast

/-- A batch with this name has been created. -/
def Knows (s : BatchStore) (id : String) : Prop :=
  ∃ n < s.created, id = name n

theorem run_cons (s : BatchStore) (c : StoreCall) (calls : List StoreCall) :
    s.run (c :: calls) =
      ((c, (s.call c).1) :: ((s.call c).2.run calls).1, ((s.call c).2.run calls).2) :=
  rfl

theorem run_append (s : BatchStore) (calls others : List StoreCall) :
    s.run (calls ++ others) =
      ((s.run calls).1 ++ ((s.run calls).2.run others).1, ((s.run calls).2.run others).2) := by
  induction calls generalizing s with
  | nil => rfl
  | cons c calls ih => rw [List.cons_append, run_cons, ih, run_cons, List.cons_append]

theorem allInTime_append {others : List StoreCall} :
    s.allInTime (calls ++ others) = (s.allInTime calls && (s.run calls).2.allInTime others) := by
  induction calls generalizing s with
  | nil => simp [allInTime, run]
  | cons c calls ih => rw [List.cons_append, allInTime, ih, allInTime, run_cons, Bool.and_assoc]

theorem name_injective {m n : ℕ} (h : name m = name n) : m = n := by
  have hdigits : Text.digits m = Text.digits n := by
    have hchars := congrArg String.toList h
    simpa [name, Text.ofNat] using hchars
  have hread := congrArg Text.digitsToNat? hdigits
  rwa [Text.digitsToNat?_digits, Text.digitsToNat?_digits, Option.some.injEq] at hread

theorem recordedFor_cons (id : String) (c : StoreCall) (calls : List StoreCall) :
    recordedFor id (c :: calls) = (c.recorded? id).toList ++ recordedFor id calls := by
  rw [recordedFor, recordedFor, List.filterMap_cons]
  cases c.recorded? id <;> rfl

/-! ## One call -/

theorem find_eq {now : ℕ} (h : s.inTime (.get now id) = true) :
    s.find now id = (match s.live.get? id with | some b => .ok b | none => .error (.batchNotFound id), s) := by
  rw [find]
  cases hlive : s.live.get? id with
  | none => rfl
  | some b =>
      rw [inTime, hlive, Option.all_some, Bool.not_eq_true'] at h
      simp [h]

theorem record_of_missing (h : s.live.get? id = none) (i : ℕ) (o : Outcome) :
    s.record id i o = (false, s) := by
  rw [record, h]
  rfl

theorem get?_create (s : BatchStore) (now total : ℕ) (id : String) :
    (s.call (.create now total)).2.live.get? id =
      if id = name s.created then some (.empty total (now + s.lifetime)) else s.live.get? id := by
  rw [call, create, NameMap.get?_insert]

/-- A call that does not create a batch records for it, takes it, or leaves it as it is. -/
theorem get?_call (hc : s.inTime c = true) (hid : ∀ now total, c = .create now total → id ≠ name s.created) :
    (s.call c).2.live.get? id =
      if c.takes id then none else (s.live.get? id).map fun b => (c.recorded? id).elim b b.put := by
  cases c with
  | create now total =>
      rw [get?_create, if_neg (hid now total rfl)]
      simp [StoreCall.takes, StoreCall.recorded?]
  | record other i o =>
      simp only [call, record, StoreCall.takes, StoreCall.recorded?, Bool.false_eq_true, if_false]
      by_cases hother : other = id
      · subst hother
        rw [if_pos rfl]
        cases hlive : s.live.get? other with
        | none => simp [hlive]
        | some b =>
            cases hrecord : b.record? i o with
            | none => simp [hrecord, hlive, Batch.put]
            | some found => simp [hrecord, Batch.put]
      · rw [if_neg hother]
        split
        · simp [NameMap.get?_insert, Ne.symm hother]
        · simp
  | get now other =>
      simp only [call, get, find_eq hc, StoreCall.takes, StoreCall.recorded?]
      cases s.live.get? other <;> simp
  | consume now other =>
      simp only [call, consume, find_eq hc, StoreCall.takes, StoreCall.recorded?]
      by_cases hother : other = id
      · subst hother
        cases hlive : s.live.get? other <;> simp [forget, hlive]
      · cases hlive : s.live.get? other <;> simp [forget, hother, Ne.symm hother]

theorem created_call (hc : s.inTime c = true) :
    (s.call c).2.created = match c with | .create _ _ => s.created + 1 | _ => s.created := by
  cases c with
  | create now total => rfl
  | record id i o =>
      simp only [call, record]
      split <;> rfl
  | get now id =>
      simp only [call, get, find_eq hc]
      cases s.live.get? id <;> rfl
  | consume now id =>
      simp only [call, consume, find_eq hc]
      cases s.live.get? id <;> rfl

theorem created_le_call (hc : s.inTime c = true) : s.created ≤ (s.call c).2.created := by
  rw [created_call hc]
  cases c <;> simp

theorem Knows.ne_name (h : s.Knows id) : id ≠ name s.created := by
  obtain ⟨n, hn, rfl⟩ := h
  exact fun hname => Nat.ne_of_lt hn (name_injective hname)

theorem Knows.call (h : s.Knows id) (hc : s.inTime c = true) : (s.call c).2.Knows id := by
  obtain ⟨n, hn, rfl⟩ := h
  exact ⟨n, Nat.lt_of_lt_of_le hn (created_le_call hc), rfl⟩

/-- What is live has been created, and its empty slots are counted. -/
def Sound (s : BatchStore) : Prop :=
  ∀ id b, s.live.get? id = some b → s.Knows id ∧ b.InStep

theorem sound_empty (lifetime : ℕ) : (empty lifetime).Sound :=
  fun _ _ h => nomatch h

theorem Sound.of_call (h : s.Sound) (hc : s.inTime c = true)
    (hid : ∀ now total, c = .create now total → id ≠ name s.created)
    (hb : (s.call c).2.live.get? id = some b) : (s.call c).2.Knows id ∧ b.InStep := by
  rw [get?_call hc hid] at hb
  split at hb
  · cases hb
  · obtain ⟨own, hown, rfl⟩ := Option.map_eq_some_iff.mp hb
    obtain ⟨hknown, hstep⟩ := h id own hown
    refine ⟨hknown.call hc, ?_⟩
    cases c.recorded? id with
    | none => exact hstep
    | some entry => exact hstep.put entry

theorem Sound.call (h : s.Sound) (hc : s.inTime c = true) : (s.call c).2.Sound := by
  intro id b hb
  by_cases hid : ∀ now total, c = .create now total → id ≠ name s.created
  · exact h.of_call hc hid hb
  · simp only [not_forall, not_not] at hid
    obtain ⟨now, total, rfl, rfl⟩ := hid
    rw [get?_create, if_pos rfl] at hb
    cases hb
    exact ⟨⟨s.created, Nat.lt_succ_self s.created, rfl⟩, Batch.inStep_empty total _⟩

/-! ## All calls -/

theorem Sound.run (h : s.Sound) (hcalls : s.allInTime calls = true) : (s.run calls).2.Sound := by
  induction calls generalizing s with
  | nil => exact h
  | cons c calls ih =>
      rw [allInTime, Bool.and_eq_true] at hcalls
      exact ih (h.call hcalls.1) hcalls.2

theorem created_le_run (hcalls : s.allInTime calls = true) : s.created ≤ (s.run calls).2.created := by
  induction calls generalizing s with
  | nil => exact Nat.le_refl _
  | cons c calls ih =>
      rw [allInTime, Bool.and_eq_true] at hcalls
      exact Nat.le_trans (created_le_call hcalls.1) (ih hcalls.2)

/-- A batch that has been created holds the outcomes that calls record for it, until one of them takes it. -/
theorem get?_run (hid : s.Knows id) (hcalls : s.allInTime calls = true) :
    (s.run calls).2.live.get? id =
      if calls.any (·.takes id) then none else (s.live.get? id).map (·.fill (recordedFor id calls)) := by
  induction calls generalizing s with
  | nil => simp [BatchStore.run, recordedFor, Batch.fill]
  | cons c calls ih =>
      rw [allInTime, Bool.and_eq_true] at hcalls
      rw [run_cons, ih (hid.call hcalls.1) hcalls.2, get?_call hcalls.1 fun _ _ _ => hid.ne_name,
        List.any_cons, recordedFor, recordedFor, List.filterMap_cons]
      cases c.takes id with
      | true => simp
      | false =>
          cases c.recorded? id with
          | none => simp
          | some entry => simp [Batch.fill, Function.comp_def]

/-! ## The last outcome -/

theorem isLast_call (s : BatchStore) (c : StoreCall) (id : String) :
    ((c.recorded? id).isSome && (s.call c).1.isLast) =
      match c.recorded? id with
      | none => false
      | some entry => (s.live.get? id).any (·.isLast entry) := by
  cases c with
  | record other i o =>
      by_cases hother : other = id
      · subst hother
        simp only [StoreCall.recorded?, if_true, call, record, StoreAnswer.isLast, Option.isSome_some, Bool.true_and]
        cases hlive : s.live.get? other with
        | none => rfl
        | some b => cases hrecord : b.record? i o <;> simp [hrecord, Batch.isLast]
      · simp [StoreCall.recorded?, hother]
  | create now total => rfl
  | get now other => rfl
  | consume now other => rfl

theorem lasts_cons (s : BatchStore) (c : StoreCall) (calls : List StoreCall) (id : String) :
    lasts id (s.run (c :: calls)).1 =
      lasts id ((s.call c).2.run calls).1 +
        if ((c.recorded? id).isSome && (s.call c).1.isLast) = true then 1 else 0 := by
  rw [run_cons, lasts, lasts, List.countP_cons]

/-- Nothing is the last outcome of a batch that is not there. -/
theorem lasts_eq_zero (h : ∀ before, before <+: calls → (s.run before).2.live.get? id = none) :
    lasts id (s.run calls).1 = 0 := by
  induction calls generalizing s with
  | nil => rfl
  | cons c calls ih =>
      have hnow : s.live.get? id = none := h [] List.nil_prefix
      have hrest : lasts id ((s.call c).2.run calls).1 = 0 :=
        ih fun before hbefore => h (c :: before) (List.cons_prefix_cons.mpr ⟨rfl, hbefore⟩)
      rw [lasts_cons, hrest, isLast_call, hnow]
      cases c.recorded? id <;> rfl

/-- One call records the last outcome of a batch, if the batch is filled before it is taken. -/
theorem lasts_run (hid : s.Knows id) (hcalls : s.allInTime calls = true) (hlive : s.live.get? id = some b)
    (hb : b.InStep) :
    lasts id (s.run calls).1 =
      if ¬b.Full ∧ (b.fill (recordedFor id (whileKept id calls))).Full then 1 else 0 := by
  induction calls generalizing s b with
  | nil =>
      rw [if_neg (fun h => h.1 h.2)]
      rfl
  | cons c calls ih =>
      rw [allInTime, Bool.and_eq_true] at hcalls
      have hknown : (s.call c).2.Knows id := hid.call hcalls.1
      have hnext := get?_call hcalls.1 fun _ _ _ => hid.ne_name
      rw [lasts_cons, isLast_call, hlive]
      cases htakes : c.takes id with
      | true =>
          have hnone : c.recorded? id = none := StoreCall.recorded?_of_takes htakes
          have hgone : lasts id ((s.call c).2.run calls).1 = 0 := by
            refine lasts_eq_zero fun before hbefore => ?_
            obtain ⟨after, hcut⟩ := hbefore
            rw [← hcut, allInTime_append, Bool.and_eq_true] at hcalls
            rw [get?_run hknown hcalls.2.1, hnext, htakes]
            simp
          have hkept : recordedFor id (whileKept id (c :: calls)) = [] := by
            simp [whileKept, htakes, recordedFor]
          rw [hgone, hnone, hkept]
          exact (if_neg fun h => h.1 h.2).symm
      | false =>
          have hkept : whileKept id (c :: calls) = c :: whileKept id calls := by
            simp [whileKept, htakes]
          rw [hlive, htakes, if_neg Bool.false_ne_true, Option.map_some] at hnext
          rw [hkept]
          cases hrecorded : c.recorded? id with
          | none =>
              rw [hrecorded] at hnext
              rw [ih hknown hcalls.2 hnext hb, recordedFor_cons, hrecorded]
              rfl
          | some entry =>
              rw [hrecorded] at hnext
              rw [ih hknown hcalls.2 hnext (hb.put entry), recordedFor_cons, hrecorded]
              exact hb.lasts_cons entry _

end BatchStore

end TableGate
