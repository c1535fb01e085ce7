import Mathlib.Algebra.Group.Nat.Defs
import TableGate.Text.Decimal

/-! # Decimal digits are read back

The digits of a number are decimal, there is at least one, and reading them gives the number. -/

namespace TableGate.Text

theorem isDigit_digitChar {n : ℕ} (h : n < 10) : (digitChar n).isDigit = true := by
  have hall : ∀ m < 10, (digitChar m).isDigit = true := by decide
  exact hall n h

theorem digitValue_digitChar {n : ℕ} (h : n < 10) : digitValue (digitChar n) = n := by
  have hall : ∀ m < 10, digitValue (digitChar m) = m := by decide
  exact hall n h

theorem isDigit_of_mem_digits {n : ℕ} {c : Char} (h : c ∈ digits n) : c.isDigit = true := by
  induction n using digits.induct with
  | case1 n hn =>
      rw [digits, if_pos hn] at h
      rw [List.mem_singleton.mp h]
      exact isDigit_digitChar hn
  | case2 n hn ih =>
      rw [digits, if_neg hn] at h
      rcases List.mem_append.mp h with h | h
      · exact ih h
      · rw [List.mem_singleton.mp h]
        exact isDigit_digitChar (Nat.mod_lt n (by omega))

theorem digits_ne_nil (n : ℕ) : digits n ≠ [] := by
  rw [digits]
  split <;> simp

theorem appendDigits_digits (n : ℕ) : appendDigits 0 (digits n) = n := by
  induction n using digits.induct with
  | case1 n hn =>
      rw [digits, if_pos hn]
      simp [appendDigits, digitValue_digitChar hn]
  | case2 n hn ih =>
      have hmod : n % 10 < 10 := Nat.mod_lt n (by omega)
      rw [digits, if_neg hn]
      simp only [appendDigits, List.foldl_append, List.foldl_cons, List.foldl_nil] at ih ⊢
      rw [ih, digitValue_digitChar hmod]
      omega

/-- A number has no more digits than it needs. -/
theorem pow_length_digits_le {n : ℕ} (h : 0 < n) : 10 ^ ((digits n).length - 1) ≤ n := by
  induction n using digits.induct with
  | case1 n hn =>
      rw [digits, if_pos hn]
      exact h
  | case2 n hn ih =>
      have hlength : 0 < (digits (n / 10)).length := List.length_pos_iff.mpr (digits_ne_nil _)
      rw [digits, if_neg hn, List.length_append, List.length_singleton, Nat.add_sub_cancel]
      calc 10 ^ (digits (n / 10)).length = 10 ^ ((digits (n / 10)).length - 1) * 10 := by
            rw [← Nat.pow_succ, Nat.succ_eq_add_one, Nat.sub_add_cancel hlength]
        _ ≤ n / 10 * 10 := Nat.mul_le_mul_right 10 (ih (by omega))
        _ ≤ n := Nat.div_mul_le_self n 10

theorem appendDigits_append (acc : ℕ) (ds es : List Char) :
    appendDigits acc (ds ++ es) = appendDigits (appendDigits acc ds) es :=
  List.foldl_append

theorem appendDigits_zeros (acc n : ℕ) : appendDigits acc (List.replicate n '0') = acc * 10 ^ n := by
  induction n generalizing acc with
  | zero => exact (Nat.mul_one acc).symm
  | succ n ih =>
      rw [List.replicate_succ]
      calc appendDigits acc ('0' :: List.replicate n '0') = appendDigits (10 * acc) (List.replicate n '0') := rfl
        _ = acc * 10 ^ (n + 1) := by rw [ih, Nat.pow_succ, Nat.mul_comm 10, Nat.mul_assoc, Nat.mul_comm 10]

theorem appendDigits_zeros_append (n : ℕ) (ds : List Char) :
    appendDigits 0 (List.replicate n '0' ++ ds) = appendDigits 0 ds := by
  rw [appendDigits_append, appendDigits_zeros, Nat.zero_mul]

theorem digitsToNat?_eq_some {ds : List Char} {n : ℕ} :
    digitsToNat? ds = some n ↔ ds ≠ [] ∧ (∀ d ∈ ds, d.isDigit = true) ∧ appendDigits 0 ds = n := by
  cases ds <;> simp [digitsToNat?]

theorem digitsToNat?_digits (n : ℕ) : digitsToNat? (digits n) = some n :=
  digitsToNat?_eq_some.mpr ⟨digits_ne_nil n, fun _ hc => isDigit_of_mem_digits hc, appendDigits_digits n⟩

/-! ## Numerals -/

/-- The text writes the number: decimal digits, which zeros and a plus sign may precede. -/
def Numeral (n : ℕ) (cs : List Char) : Prop :=
  ∃ sign ds, (sign = [] ∨ sign = ['+']) ∧
    (ds ≠ [] ∧ (∀ d ∈ ds, d.isDigit = true) ∧ appendDigits 0 ds = n) ∧ cs = sign ++ ds

theorem numeral_digits (n : ℕ) : Numeral n (digits n) :=
  ⟨[], digits n, .inl rfl, digitsToNat?_eq_some.mp (digitsToNat?_digits n), rfl⟩

theorem Numeral.eq_plus_or_isDigit {n : ℕ} {cs : List Char} (h : Numeral n cs) {c : Char} (hc : c ∈ cs) :
    c = '+' ∨ c.isDigit = true := by
  obtain ⟨sign, ds, rfl | rfl, ⟨-, hdigits, -⟩, rfl⟩ := h
  · exact .inr (hdigits c hc)
  · exact (List.mem_cons.mp hc).imp_right (hdigits c)

theorem Numeral.notMem {n : ℕ} {cs : List Char} (h : Numeral n cs) {c : Char} (hplus : c ≠ '+')
    (hdigit : c.isDigit = false) : c ∉ cs := by
  intro hmem
  rcases h.eq_plus_or_isDigit hmem with hc | hc
  · exact hplus hc
  · rw [hdigit] at hc
    cases hc

theorem toNat?_plus (greatest : ℕ) (ds : List Char) :
    toNat? greatest ('+' :: ds) = (digitsToNat? ds).filter (· ≤ greatest) := by
  rw [toNat?]
  cases digitsToNat? ds <;> simp [Option.filter]

theorem toNat?_of_ne_plus (greatest : ℕ) {cs : List Char} (h : ∀ rest, cs ≠ '+' :: rest) :
    toNat? greatest cs = (digitsToNat? cs).filter (· ≤ greatest) := by
  unfold toNat?
  split
  · exact absurd rfl (h _)
  · cases hread : digitsToNat? cs <;> simp [hread, Option.filter]

/-- The numbers up to the limit are read, each from every text that writes it. -/
theorem toNat?_eq_some {greatest n : ℕ} {cs : List Char} :
    toNat? greatest cs = some n ↔ Numeral n cs ∧ n ≤ greatest := by
  by_cases hplus : ∃ rest, cs = '+' :: rest
  · obtain ⟨rest, rfl⟩ := hplus
    rw [toNat?_plus, Option.filter_eq_some_iff, decide_eq_true_eq, digitsToNat?_eq_some]
    refine and_congr_left fun _ => ⟨fun h => ⟨['+'], rest, .inr rfl, h, rfl⟩, ?_⟩
    rintro ⟨sign, ds, rfl | rfl, hds, heq⟩
    · rw [List.nil_append] at heq
      exact absurd (hds.2.1 '+' (by simp [← heq])) (by decide)
    · rwa [(List.cons.inj heq).2]
  · have hne : ∀ rest, cs ≠ '+' :: rest := fun rest heq => hplus ⟨rest, heq⟩
    rw [toNat?_of_ne_plus _ hne, Option.filter_eq_some_iff, decide_eq_true_eq, digitsToNat?_eq_some]
    refine and_congr_left fun _ => ⟨fun h => ⟨[], cs, .inl rfl, h, rfl⟩, ?_⟩
    rintro ⟨sign, ds, rfl | rfl, hds, rfl⟩
    · exact hds
    · exact absurd rfl (hne ds)

/-- A number within the limit is read back from its digits. -/
theorem toNat?_digits {n greatest : ℕ} (h : n ≤ greatest) :
    toNat? greatest (digits n) = some n :=
  toNat?_eq_some.mpr ⟨numeral_digits n, h⟩

end TableGate.Text
