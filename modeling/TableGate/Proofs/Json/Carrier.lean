import TableGate.Json.Record
import TableGate.Proofs.Json.Settled

/-! # Things that carry JSON values

Rows, conditions and parameters carry JSON values that the gate does not look into. Reading what was written of such
a thing settles these values. Everything else in it comes back. -/

namespace TableGate

/-- A type of things that carry JSON values, which can be replaced one by one. -/
class Carrier (α : Type) where
  values : α → List Value
  /-- The thing with each of its values replaced, unless there is nothing for one of them. -/
  replace? : (Value → Option Value) → α → Option α
  replace?_eq_self_iff : ∀ f x, replace? f x = some x ↔ ∀ v ∈ values x, f v = some v

open Carrier

variable {α : Type} [Carrier α]

/-- Reading what was written of a thing settles its values. The thing itself comes back if and only if they are
literal, where their entries are in order. -/
structure ReadsBack (write : α → Value) (read : Value → Option α) (x : α) : Prop where
  settles : read (write x) = replace? Value.settled? x
  same : (∀ v ∈ values x, v.isOrdered = true) →
    (read (write x) = some x ↔ ∀ v ∈ values x, v.isLiteral = true)

theorem readsBack_of_settles {write : α → Value} {read : Value → Option α} {x : α}
    (h : read (write x) = replace? Value.settled? x) : ReadsBack write read x where
  settles := h
  same hordered := by
    rw [h, replace?_eq_self_iff]
    exact forall₂_congr fun v hv => Value.settled?_eq_self_iff (hordered v hv)

/-! ## Values, lists and rows -/

instance : Carrier Value where
  values v := [v]
  replace? f := f
  replace?_eq_self_iff f v := by simp

instance : Carrier (Option α) where
  values
    | some x => values x
    | none => []
  replace? f
    | some x => (replace? f x).map some
    | none => some none
  replace?_eq_self_iff f x := by
    cases x with
    | none => simp
    | some x => simpa using replace?_eq_self_iff f x

instance : Carrier (List α) where
  values xs := xs.flatMap values
  replace? f xs := xs.mapM (replace? f)
  replace?_eq_self_iff f xs := by
    induction xs with
    | nil => simp
    | cons x xs ih =>
        simp only [List.mapM_cons, Option.bind_eq_bind, Option.bind_eq_some_iff, Option.pure_def, Option.some.injEq,
          List.cons.injEq, List.flatMap_cons, List.forall_mem_append]
        rw [← replace?_eq_self_iff, ← ih]
        constructor
        · rintro ⟨_, hx, _, hxs, rfl, rfl⟩
          exact ⟨hx, hxs⟩
        · rintro ⟨hx, hxs⟩
          exact ⟨x, hx, xs, hxs, rfl, rfl⟩

instance : Carrier (String × α) where
  values e := values e.2
  replace? f e := (replace? f e.2).map fun x => (e.1, x)
  replace?_eq_self_iff f e := by
    rw [← replace?_eq_self_iff, Option.map_eq_some_iff]
    exact ⟨fun ⟨x, hx, he⟩ => by rwa [← congrArg Prod.snd he] at hx ⊢, fun hx => ⟨e.2, hx, rfl⟩⟩

theorem names_replace? {f : Value → Option Value} {entries others : List (String × α)}
    (h : replace? f entries = some others) : others.map (·.1) = entries.map (·.1) := by
  induction entries generalizing others with
  | nil =>
      cases h
      rfl
  | cons e rest ih =>
      simp only [replace?, List.mapM_cons, Option.bind_eq_bind, Option.bind_eq_some_iff, Option.map_eq_some_iff,
        Option.pure_def, Option.some.injEq] at h
      obtain ⟨_, ⟨x, -, rfl⟩, ds, hds, rfl⟩ := h
      rw [List.map_cons, List.map_cons, ih hds]

instance : Carrier (NameMap α) where
  values m := values m.entries
  replace? f m := (replace? f m.entries).map .ofList
  replace?_eq_self_iff f m := by
    rw [← replace?_eq_self_iff, Option.map_eq_some_iff]
    constructor
    · rintro ⟨others, hothers, hm⟩
      have hincreasing : (others.map (·.1)).Pairwise (· < ·) := by
        rw [names_replace? hothers]
        exact List.pairwise_map.mpr m.increasing
      have hsame : m.entries = others := by
        rw [← hm, NameMap.entries_ofList (List.pairwise_map.mp hincreasing)]
      rwa [← hsame] at hothers
    · exact fun h => ⟨m.entries, h, m.ofList_entries⟩

namespace Value

variable {write : α → Value} {read : Value → Option α}

/-- A list is read item by item. -/
theorem asList?_written {xs : List α} (h : ∀ x ∈ xs, read (write x) = replace? settled? x) :
    asList? read (.array (xs.map write)) = replace? settled? xs := by
  rw [asList?, List.mapM_map]
  induction xs with
  | nil => rfl
  | cons x xs ih =>
      rw [List.forall_mem_cons] at h
      rw [List.mapM_cons, ih h.2, Function.comp, h.1]
      exact List.mapM_cons.symm

theorem asRow?_ofRow (row : Row) : asRow? (ofRow row) = replace? settled? row := by
  have hentry : (fun e : String × Value => do return (e.1, ← e.2.settled?)) = replace? settled? := by
    funext e
    simp only [replace?]
    cases e.2.settled? <;> rfl
  change (do return NameMap.ofList (← row.entries.mapM fun e => do return (e.1, ← e.2.settled?)) : Option Row) = _
  rw [hentry]
  simp only [replace?]
  cases row.entries.mapM fun e => e.2.settled?.map fun v => (e.1, v) <;> rfl

end Value

end TableGate
