import Mathlib.Data.Nat.Notation
import TableGate.Bytes.Basic

/-! # Parts of a row of bytes

A row of bytes is cut into full parts and a shorter rest, and numbers are written in a fixed number of
bytes. -/

namespace TableGate.Bytes

theorem length_littleEndian (count n : ℕ) : (littleEndian count n).length = count := by
  induction count generalizing n with
  | zero => rfl
  | succ count ih => simp [littleEndian, ih]

/-- The bound on the number of parts does not matter once it is large enough. -/
theorem partsWithin_eq {length : ℕ} (hlength : 0 < length) {bound : ℕ} {bs : Bytes}
    (h : bs.length ≤ bound) : partsWithin length bound bs = parts length bs := by
  suffices hfuel : ∀ (m n : ℕ) (bs : Bytes), bs.length ≤ m → bs.length ≤ n →
      partsWithin length m bs = partsWithin length n bs from hfuel _ _ bs h (Nat.le_refl _)
  intro m
  induction m with
  | zero =>
      intro n bs hm _
      rw [List.length_eq_zero_iff.mp (Nat.le_zero.mp hm)]
      cases n <;> rfl
  | succ m ih =>
      intro n bs hm hn
      cases bs with
      | nil => cases n <;> rfl
      | cons b bs =>
          cases n with
          | zero => simp at hn
          | succ n =>
              have hdrop : ((b :: bs).drop length).length ≤ bs.length := by
                simp only [List.length_drop, List.length_cons]
                omega
              simp only [List.length_cons] at hm hn
              simp only [partsWithin, List.cons.injEq, true_and]
              exact ih n _ (by omega) (by omega)

/-- A row that is not empty has a first part, and what remains is cut in turn. -/
theorem parts_of_ne_nil {length : ℕ} (hlength : 0 < length) {bs : Bytes} (h : bs ≠ []) :
    parts length bs = bs.take length :: parts length (bs.drop length) := by
  cases bs with
  | nil => exact absurd rfl h
  | cons b bs =>
      have hdrop : ((b :: bs).drop length).length ≤ bs.length := by
        simp only [List.length_drop, List.length_cons]
        omega
      rw [parts, List.length_cons, partsWithin, partsWithin_eq hlength hdrop]
      simp

/-- A full part in front. -/
theorem parts_append {length : ℕ} (hlength : 0 < length) {front : Bytes} (h : front.length = length)
    (back : Bytes) : parts length (front ++ back) = front :: parts length back := by
  have hne : front ++ back ≠ [] := by
    intro hnil
    have hfront := (List.append_eq_nil_iff.mp hnil).1
    simp [hfront] at h
    omega
  rw [parts_of_ne_nil hlength hne, List.take_left' h, List.drop_left' h]

/-- A row that one part holds. -/
theorem parts_of_short {length : ℕ} (hlength : 0 < length) {bs : Bytes} (hne : bs ≠ [])
    (h : bs.length ≤ length) : parts length bs = [bs] := by
  rw [parts_of_ne_nil hlength hne, List.take_of_length_le h, List.drop_eq_nil_of_le h]
  rfl

theorem length_parts {length : ℕ} (hlength : 0 < length) (count : ℕ) {bs : Bytes}
    (h : bs.length = length * count) : (parts length bs).length = count := by
  induction count generalizing bs with
  | zero =>
      rw [List.length_eq_zero_iff.mp h]
      rfl
  | succ count ih =>
      have hne : bs ≠ [] := by
        rintro rfl
        simp only [List.length_nil, Nat.mul_add, Nat.mul_one] at h
        omega
      have hdrop : (bs.drop length).length = length * count := by
        rw [List.length_drop, h, Nat.mul_add]
        omega
      rw [parts_of_ne_nil hlength hne, List.length_cons, ih hdrop]

theorem length_littleEndianWords (count : ℕ) {bs : Bytes} (h : bs.length = 4 * count) :
    (littleEndianWords bs).length = count := by
  rw [littleEndianWords, List.length_map, length_parts (by decide) count h]

end TableGate.Bytes
