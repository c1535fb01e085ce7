import Mathlib.Data.List.Basic
import TableGate.Proofs.Json.Carrier

/-! # Fields that were written

What a field holds after it was written is read as what was written. -/

namespace TableGate

namespace Value

theorem depth_le_of_mem (name : String) {v : Value} {entries : List (String × Value)} (h : (name, v) ∈ entries) :
    v.depth ≤ depthOfEntries entries := by
  induction entries with
  | nil => cases h
  | cons e rest ih =>
      rw [depthOfEntries]
      rcases List.mem_cons.mp h with rfl | hrest
      · exact Nat.le_max_left _ _
      · exact Nat.le_trans (ih hrest) (Nat.le_max_right _ _)

theorem asNat?_natCast {greatest n : ℕ} (h : n ≤ greatest) : (Value.int n).asNat? greatest = some n := by
  simp [asNat?, h]

theorem asUInt8?_toNat (n : UInt8) : (Value.int n.toNat).asUInt8? = some n := by
  rw [asUInt8?, asNat?_natCast (Nat.le_sub_one_of_lt n.toNat_lt_size), Option.map_some, UInt8.ofNat_toNat]

theorem asUInt32?_toNat (n : UInt32) : (Value.int n.toNat).asUInt32? = some n := by
  rw [asUInt32?, asNat?_natCast (Nat.le_sub_one_of_lt n.toNat_lt_size), Option.map_some, UInt32.ofNat_toNat]

theorem asUInt64?_toNat (n : UInt64) : (Value.int n.toNat).asUInt64? = some n := by
  rw [asUInt64?, asNat?_natCast (Nat.le_sub_one_of_lt n.toNat_lt_size), Option.map_some, UInt64.ofNat_toNat]

theorem asInt?_of_le {least greatest n : Int} (hleast : least ≤ n) (hgreatest : n ≤ greatest) :
    (Value.int n).asInt? least greatest = some n := by
  simp [asInt?, hleast, hgreatest]

theorem asInt64?_toInt (n : Int64) : (Value.int n.toInt).asInt64? = some n := by
  rw [asInt64?, asInt?_of_le n.minValue_le_toInt n.toInt_le, Option.map_some, Int64.ofInt_toInt]

theorem asTexts?_ofTexts (ss : List String) : (ofTexts ss).asTexts? = some ss := by
  rw [asTexts?, ofTexts, asList?, List.mapM_map]
  induction ss with
  | nil => rfl
  | cons s ss ih => rw [List.mapM_cons, ih]; rfl

end Value

namespace Fields

variable {α : Type} {fields : Fields} {position : ℕ} {name : String} {names : List String} {default : α}
  {read : Value → Option α} {v : Value}

theorem required_of_find? (h : fields.find? position [name] = some (some v)) :
    fields.required position name read = read v := by
  rw [required, h]

theorem orDefault_of_find? (h : fields.find? position names = some (some v)) :
    fields.orDefault position names default read = read v := by
  rw [orDefault, h]

theorem optional_of_null (h : fields.find? position names = some (some .null)) :
    fields.optional position names read = some none := by
  rw [optional, orDefault_of_find? h]

theorem optional_of_find? (h : fields.find? position names = some (some v)) (hv : v.isNull = false) :
    fields.optional position names read = (read v).map some := by
  rw [optional, orDefault_of_find? h]
  cases v <;> first | rfl | cases hv

variable {write : α → Value}

/-- A field that may be absent is written as null then. -/
theorem optional_same (x : Option α) (hnull : ∀ a, (write a).isNull = false) (hread : ∀ a, read (write a) = some a)
    (h : fields.find? position names = some (some (x.elim .null write))) :
    fields.optional position names read = some x := by
  cases x with
  | none => exact optional_of_null h
  | some a => rw [optional_of_find? h (hnull a), Option.elim_some, hread, Option.map_some]

theorem optional_written [Carrier α] (x : Option α) (hnull : ∀ a, (write a).isNull = false)
    (hread : ∀ a, read (write a) = Carrier.replace? Value.settled? a)
    (h : fields.find? position names = some (some (x.elim .null write))) :
    fields.optional position names read = Carrier.replace? Value.settled? x := by
  cases x with
  | none => exact optional_of_null h
  | some a =>
      rw [optional_of_find? h (hnull a), Option.elim_some, hread]
      rfl

end Fields

end TableGate
