import Mathlib.Algebra.Order.Field.Power
import Mathlib.Algebra.Order.Field.Rat
import Mathlib.Tactic.Linarith
import Mathlib.Tactic.NormNum
import Mathlib.Tactic.Positivity
import Mathlib.Tactic.Ring
import TableGate.Number.Binary64
import TableGate.Proofs.Text.Decimal

/-! # The shortest decimal of a magnitude

The numbers that round to a magnitude of the format form an interval. Seventeen digits always suffice for a decimal
in it, so that the search for the shortest one succeeds, and no number lies in the intervals of two magnitudes. -/

namespace TableGate

namespace Shortest

theorem zpow_mul_pow_toNat {b : ℚ} (hb : b ≠ 0) (k : ℤ) : b ^ k * b ^ (-k).toNat = b ^ k.toNat := by
  rw [← zpow_natCast, ← zpow_natCast, ← zpow_add₀ hb]
  congr 1
  omega

/-! ## Intervals -/

/-- The number lies in the interval. -/
def Interval.Contains (i : Interval) (d : ℚ) : Prop :=
  if i.closed then i.low ≤ d * i.unit ∧ d * i.unit ≤ i.high else i.low < d * i.unit ∧ d * i.unit < i.high

theorem Interval.holds_iff {i : Interval} {n : ℕ} : i.holds n = true ↔ i.Contains n := by
  unfold holds Contains
  split
  · simp only [Bool.and_eq_true, decide_eq_true_eq, ← Nat.cast_mul, Nat.cast_le]
  · simp only [Bool.and_eq_true, decide_eq_true_eq, ← Nat.cast_mul, Nat.cast_lt]

/-- A number lies in the interval if and only if, counted in powers of ten, it lies in the interval counted so. -/
theorem Interval.contains_inUnitsOf {i : Interval} {k : ℤ} {d : ℚ} :
    (i.inUnitsOf k).Contains d ↔ i.Contains (d * 10 ^ k) := by
  have hpos : (0 : ℚ) < 10 ^ (-k).toNat := by positivity
  have hscale : d * (i.unit * 10 ^ k.toNat) = d * 10 ^ k * i.unit * 10 ^ (-k).toNat := by
    rw [← zpow_mul_pow_toNat (by norm_num) k]
    ring
  simp only [Contains, inUnitsOf, Nat.pow_eq, Nat.cast_mul, Nat.cast_pow, Nat.cast_ofNat, hscale,
    mul_le_mul_iff_left₀ hpos, mul_lt_mul_iff_left₀ hpos]

/-- How far the interval of a magnitude reaches down, in quarters of its last place. -/
def below (m : ℕ) (lowestBinade : Bool) : ℕ :=
  if m = 2 ^ 52 ∧ lowestBinade = false then 1 else 2

/-- The interval of a magnitude, in quarters of its last place. -/
theorem contains_intervalOf {m : ℕ} (hm : 0 < m) {q : ℤ} {lowestBinade : Bool} {y : ℚ} :
    (intervalOf m q lowestBinade).Contains (y * 2 ^ (q - 2)) ↔
      if m % 2 = 0 then (4 * m - below m lowestBinade : ℚ) ≤ y ∧ y ≤ 4 * m + 2
      else (4 * m - below m lowestBinade : ℚ) < y ∧ y < 4 * m + 2 := by
  have hpos : (0 : ℚ) < 2 ^ (q - 2).toNat := by positivity
  have hneg : -(q - 2) = 2 - q := by ring
  have hscale : y * 2 ^ (q - 2) * 2 ^ (2 - q).toNat = y * 2 ^ (q - 2).toNat := by
    rw [mul_assoc, ← hneg, zpow_mul_pow_toNat (by norm_num)]
  have hbelow : (if m = Nat.pow 2 52 && !lowestBinade then 1 else 2) = below m lowestBinade := by
    simp [below]
  have hle : below m lowestBinade ≤ 4 * m := by
    unfold below
    split <;> omega
  simp only [Interval.Contains, intervalOf, hbelow, Nat.pow_eq, Nat.cast_mul, Nat.cast_pow, Nat.cast_ofNat,
    Nat.cast_sub hle, Nat.cast_add, hscale, mul_le_mul_iff_left₀ hpos, mul_lt_mul_iff_left₀ hpos, decide_eq_true_eq]

theorem below_le_two (m : ℕ) (lowestBinade : Bool) : below m lowestBinade ≤ 2 := by
  unfold below
  split <;> omega

/-! ## No number rounds to two magnitudes -/

/-- The magnitude `m * 2 ^ q` is one of the format. In the lowest binade there are also the numbers without a
leading bit. -/
structure OfFormat (m : ℕ) (q : ℤ) (lowestBinade : Bool) : Prop where
  pos : 0 < m
  lt : m < 2 ^ 53
  le_exponent : -1074 ≤ q
  lowest : lowestBinade = true → q = -1074
  leading : lowestBinade = false → 2 ^ 52 ≤ m ∧ -1074 < q

variable {m n : ℕ} {q r : ℤ} {lowest other : Bool} {d : ℚ}

/-- What lies in an interval lies between its ends, and on them only if the last bit is zero. -/
theorem bounds_of_contains (h : OfFormat m q lowest) (hd : (intervalOf m q lowest).Contains d) :
    ∃ y : ℚ, d = y * 2 ^ (q - 2) ∧ (4 * m - below m lowest : ℚ) ≤ y ∧ y ≤ 4 * m + 2 ∧
      (m % 2 = 1 → (4 * m - below m lowest : ℚ) < y ∧ y < 4 * m + 2) := by
  have hne : (2 : ℚ) ^ (q - 2) ≠ 0 := by positivity
  refine ⟨d / 2 ^ (q - 2), (div_mul_cancel₀ d hne).symm, ?_⟩
  rw [← div_mul_cancel₀ d hne, contains_intervalOf h.pos] at hd
  split at hd
  · exact ⟨hd.1, hd.2, fun hodd => by omega⟩
  · exact ⟨hd.1.le, hd.2.le, fun _ => hd⟩

/-- Of two magnitudes with the same last place, the intervals meet only in an end, which belongs to one of them. -/
theorem not_contains_of_lt (hm : OfFormat m q lowest) (hn : OfFormat n q other) (hlt : m < n)
    (hd : (intervalOf m q lowest).Contains d) : ¬(intervalOf n q other).Contains d := by
  intro hd'
  obtain ⟨y, rfl, -, hhigh, hodd⟩ := bounds_of_contains hm hd
  obtain ⟨z, hz, hlow, -, hodd'⟩ := bounds_of_contains hn hd'
  obtain rfl : y = z := mul_right_cancel₀ (by positivity) hz
  have hbelow : (below n other : ℚ) ≤ 2 := by exact_mod_cast below_le_two n other
  have hnext : n = m + 1 := by
    have hle : (n : ℚ) ≤ m + 1 := by linarith
    have : n ≤ m + 1 := by exact_mod_cast hle
    omega
  have hcast : (n : ℚ) = m + 1 := by exact_mod_cast hnext
  rcases Nat.mod_two_eq_zero_or_one m with heven | hodd₁
  · linarith [(hodd' (by omega)).1]
  · linarith [(hodd hodd₁).2]

/-- The interval of a magnitude with a greater last place is above the others. -/
theorem not_contains_of_exponent_lt (hm : OfFormat m q lowest) (hn : OfFormat n r other) (hlt : q < r)
    (hd : (intervalOf m q lowest).Contains d) : ¬(intervalOf n r other).Contains d := by
  intro hd'
  obtain ⟨y, rfl, -, hhigh, hodd⟩ := bounds_of_contains hm hd
  obtain ⟨z, hz, hlow, -, -⟩ := bounds_of_contains hn hd'
  have hother : other = false := by
    cases other with
    | false => rfl
    | true => exact absurd (hn.lowest rfl) (by have := hm.le_exponent; omega)
  have hpos : (0 : ℚ) < 2 ^ (q - 2) := by positivity
  have hz2 : z * 2 ^ (r - q) = y := by
    refine mul_right_cancel₀ hpos.ne' ?_
    rw [hz, mul_assoc, ← zpow_add₀ (by norm_num)]
    congr 2
    ring
  have htwo : (2 : ℚ) ≤ 2 ^ (r - q) := by
    calc (2 : ℚ) = 2 ^ (1 : ℤ) := (zpow_one 2).symm
      _ ≤ 2 ^ (r - q) := zpow_le_zpow_right₀ (by norm_num) (by omega)
  -- the lower end is that of the least magnitude with this last place, or above it
  have hlow' : (2 ^ 54 - 1 : ℚ) ≤ z := by
    obtain ⟨hge, -⟩ := hn.leading hother
    by_cases hn52 : n = 2 ^ 52
    · subst hn52
      simp only [below, hother, and_self, if_true] at hlow
      push_cast at hlow
      linarith
    · have hgt : (2 ^ 52 + 1 : ℚ) ≤ n := by exact_mod_cast (by omega : 2 ^ 52 + 1 ≤ n)
      have hbelow : (below n other : ℚ) ≤ 2 := by exact_mod_cast below_le_two n other
      linarith
  have hy : (2 ^ 55 - 2 : ℚ) ≤ y := by
    rw [← hz2]
    nlinarith
  have hlt53 : (m : ℚ) ≤ 2 ^ 53 - 1 := by
    have : (m : ℚ) + 1 ≤ 2 ^ 53 := by exact_mod_cast hm.lt
    linarith
  by_cases hmax : m = 2 ^ 53 - 1
  · have hstrict := (hodd (by omega)).2
    linarith
  · have hle : (m : ℚ) ≤ 2 ^ 53 - 2 := by
      have hlt' := hm.lt
      have : (m : ℚ) + 2 ≤ 2 ^ 53 := by exact_mod_cast (by omega : m + 2 ≤ 2 ^ 53)
      linarith
    linarith

/-- No number lies in the intervals of two magnitudes. -/
theorem eq_of_contains (hm : OfFormat m q lowest) (hn : OfFormat n r other)
    (hd : (intervalOf m q lowest).Contains d) (hd' : (intervalOf n r other).Contains d) : m = n ∧ q = r := by
  rcases lt_trichotomy q r with hlt | rfl | hgt
  · exact absurd hd' (not_contains_of_exponent_lt hm hn hlt hd)
  · rcases lt_trichotomy m n with hlt | rfl | hgt
    · exact absurd hd' (not_contains_of_lt hm hn hlt hd)
    · exact ⟨rfl, rfl⟩
    · exact absurd hd (not_contains_of_lt hn hm hgt hd')
  · exact absurd hd (not_contains_of_exponent_lt hn hm hgt hd')

/-! ## Seventeen digits suffice -/

/-- One of the two integers next to the magnitude lies in an interval that is longer than one. -/
theorem Interval.isSome_nearest? {i : Interval} (hunit : 0 < i.unit) (hlow : i.low < i.center)
    (hhigh : i.center < i.high) (hwide : i.low + i.unit < i.high) : i.nearest?.isSome = true := by
  have hbelow : i.center / i.unit * i.unit ≤ i.center := Nat.div_mul_le_self _ _
  have habove : i.center < (i.center / i.unit + 1) * i.unit := by
    rw [Nat.add_mul, Nat.one_mul]
    exact Nat.lt_div_mul_add hunit
  have hstep : (i.center / i.unit + 1) * i.unit = i.center / i.unit * i.unit + i.unit := by
    rw [Nat.add_mul, Nat.one_mul]
  have hholds : i.holds (i.center / i.unit) = true ∨ i.holds (i.center / i.unit + 1) = true := by
    unfold holds
    split
    · simp only [Bool.and_eq_true, decide_eq_true_eq]
      omega
    · simp only [Bool.and_eq_true, decide_eq_true_eq]
      omega
  unfold nearest?
  dsimp only
  split
  · rfl
  · rfl
  · simp_all
  · split
    · rfl
    · split
      · rfl
      · split <;> rfl

/-- What is found lies in the interval. -/
theorem Interval.holds_of_nearest? {i : Interval} {n : ℕ} (h : i.nearest? = some n) : i.holds n = true := by
  unfold nearest? at h
  dsimp only at h
  split at h
  · cases h
    assumption
  · cases h
    assumption
  · cases h
  · split at h
    · cases h
      assumption
    · split at h
      · cases h
        assumption
      · split at h
        · cases h
          assumption
        · cases h
          assumption

theorem contains_of_search {i : Interval} {e k : ℤ} {tries digits found : ℕ}
    (h : search i e tries digits = some (found, k)) : i.Contains (found * 10 ^ k) := by
  induction tries generalizing digits with
  | zero => cases h
  | succ tries ih =>
      rw [search] at h
      split at h
      · rename_i hnearest
        cases h
        rw [← Interval.contains_inUnitsOf, ← Interval.holds_iff]
        exact Interval.holds_of_nearest? hnearest
      · exact ih h

/-- The search succeeds if it would on one of the grids that it gets to. -/
theorem isSome_search {i : Interval} {e : ℤ} {tries first last : ℕ} (hfirst : first ≤ last)
    (hlast : last < first + tries) (h : (i.inUnitsOf (e - last)).nearest?.isSome = true) :
    (search i e tries first).isSome = true := by
  induction tries generalizing first with
  | zero => omega
  | succ tries ih =>
      rw [search]
      split
      · rfl
      · rename_i hnone
        rcases Nat.eq_or_lt_of_le hfirst with rfl | hlt
        · rw [hnone] at h
          cases h
        · exact ih hlt (by omega)

/-- The number of digits of a quotient tells a power of ten that is not above it. -/
theorem pow_length_digits_div_le {center unit shift : ℕ} (hunit : 0 < unit)
    (h : unit ≤ center * Nat.pow 10 shift) :
    (10 : ℚ) ^ ((Text.digits (center * Nat.pow 10 shift / unit)).length - 1 - shift : ℤ) * unit ≤ center := by
  have hlength : 0 < (Text.digits (center * Nat.pow 10 shift / unit)).length :=
    List.length_pos_iff.mpr (Text.digits_ne_nil _)
  have hle : 10 ^ ((Text.digits (center * Nat.pow 10 shift / unit)).length - 1) * unit ≤ center * 10 ^ shift :=
    (Nat.mul_le_mul_right unit (Text.pow_length_digits_le (Nat.div_pos h hunit))).trans (Nat.div_mul_le_self _ _)
  generalize (Text.digits (center * Nat.pow 10 shift / unit)).length = length at hlength hle ⊢
  have hcast : (10 : ℚ) ^ (length - 1) * unit ≤ center * 10 ^ shift := by exact_mod_cast hle
  have hpow : (10 : ℚ) ^ (length - 1 - shift : ℤ) * 10 ^ shift = 10 ^ (length - 1) := by
    rw [← zpow_natCast, ← zpow_natCast, ← zpow_add₀ (by norm_num), Nat.cast_sub hlength]
    exact congrArg _ (Int.sub_add_cancel _ _)
  refine le_of_mul_le_mul_right ?_ (by positivity : (0 : ℚ) < 10 ^ shift)
  rwa [mul_right_comm, hpow]

theorem two_pow_le_mul_ten_pow {m n k c : ℕ} (hm : m ≤ 49 * k) (hn : 15 * k ≤ n) (hc : 0 < c) :
    2 ^ m ≤ c * Nat.pow 10 n := by
  calc 2 ^ m ≤ 2 ^ (49 * k) := Nat.pow_le_pow_right (by omega) hm
    _ = (2 ^ 49) ^ k := Nat.pow_mul 2 49 k
    _ ≤ (10 ^ 15) ^ k := Nat.pow_le_pow_left (by norm_num) k
    _ = 10 ^ (15 * k) := (Nat.pow_mul 10 15 k).symm
    _ ≤ 10 ^ n := Nat.pow_le_pow_right (by omega) hn
    _ ≤ c * 10 ^ n := Nat.le_mul_of_pos_left _ hc

/-- A power of ten that is not above the magnitude. No magnitude of the format is so small that it has none. -/
theorem pow_decimalExponent_le {i : Interval} {s : ℕ} (hunit : i.unit = 2 ^ s) (hs : s ≤ 49 * 22)
    (hcenter : 0 < i.center) : (10 : ℚ) ^ i.decimalExponent * i.unit ≤ i.center := by
  obtain ⟨shift, hshift, hexponent⟩ : ∃ shift : ℕ, 330 ≤ shift ∧ i.decimalExponent =
      (Text.digits (i.center * Nat.pow 10 shift / i.unit)).length - 1 - shift := by
    refine ⟨330, Nat.le_refl 330, ?_⟩
    rw [Interval.decimalExponent]
    omega
  have hleast : i.unit ≤ i.center * Nat.pow 10 shift := by
    rw [hunit]
    exact two_pow_le_mul_ten_pow hs (by omega) hcenter
  rw [hexponent]
  exact pow_length_digits_div_le (hunit ▸ Nat.two_pow_pos s) hleast

/-- The search succeeds on a grid whose steps are shorter than the interval. -/
theorem Interval.isSome_nearest?_inUnitsOf {i : Interval} {k : ℤ} (hunit : 0 < i.unit) (hlow : i.low < i.center)
    (hhigh : i.center < i.high) (hstep : (i.unit : ℚ) * 10 ^ k < i.high - i.low) :
    (i.inUnitsOf k).nearest?.isSome = true := by
  have hscale : 0 < 10 ^ (-k).toNat := Nat.pow_pos (by omega)
  refine isSome_nearest? (Nat.mul_pos hunit (Nat.pow_pos (by omega))) (Nat.mul_lt_mul_of_pos_right hlow hscale)
    (Nat.mul_lt_mul_of_pos_right hhigh hscale) ?_
  have hpos : (0 : ℚ) < 10 ^ (-k).toNat := by positivity
  have hwide : (i.low * 10 ^ (-k).toNat + i.unit * 10 ^ k.toNat : ℚ) < i.high * 10 ^ (-k).toNat := by
    rw [← zpow_mul_pow_toNat (by norm_num) k]
    nlinarith
  exact_mod_cast hwide

theorem low_intervalOf (m : ℕ) (q : ℤ) (lowest : Bool) :
    (intervalOf m q lowest).low = (4 * m - below m lowest) * 2 ^ (q - 2).toNat := by
  simp [intervalOf, below]

/-- The interval of a magnitude is longer than the magnitude divided by ten to the sixteenth. -/
theorem center_intervalOf_lt (h : OfFormat m q lowest) :
    (intervalOf m q lowest).center + (intervalOf m q lowest).low * 10 ^ 16 <
      (intervalOf m q lowest).high * 10 ^ 16 := by
  have hm := h.pos
  have hlt := h.lt
  have hcount : 4 * m + (4 * m - below m lowest) * 10 ^ 16 < (4 * m + 2) * 10 ^ 16 := by
    unfold below
    split <;> omega
  rw [low_intervalOf]
  calc 4 * m * 2 ^ (q - 2).toNat + (4 * m - below m lowest) * 2 ^ (q - 2).toNat * 10 ^ 16
      = (4 * m + (4 * m - below m lowest) * 10 ^ 16) * 2 ^ (q - 2).toNat := by ring
    _ < (4 * m + 2) * 10 ^ 16 * 2 ^ (q - 2).toNat := Nat.mul_lt_mul_of_pos_right hcount (Nat.two_pow_pos _)
    _ = (4 * m + 2) * 2 ^ (q - 2).toNat * 10 ^ 16 := by ring

/-- On the grid of seventeen digits there is a point in the interval. -/
theorem isSome_nearest?_seventeen (h : OfFormat m q lowest) :
    ((intervalOf m q lowest).inUnitsOf ((intervalOf m q lowest).decimalExponent - 16)).nearest?.isSome = true := by
  have hm := h.pos
  have hup : 0 < 2 ^ (q - 2).toNat := Nat.two_pow_pos _
  refine Interval.isSome_nearest?_inUnitsOf (Nat.two_pow_pos _) ?_
    (Nat.mul_lt_mul_of_pos_right (by omega) hup) ?_
  · rw [low_intervalOf]
    refine Nat.mul_lt_mul_of_pos_right ?_ hup
    unfold below
    split <;> omega
  · have hexponent := h.le_exponent
    have hle : (10 : ℚ) ^ (intervalOf m q lowest).decimalExponent * (intervalOf m q lowest).unit ≤
        (intervalOf m q lowest).center :=
      pow_decimalExponent_le rfl (by omega) (Nat.mul_pos (by omega) hup)
    have hlong : ((intervalOf m q lowest).center + (intervalOf m q lowest).low * 10 ^ 16 : ℚ) <
        (intervalOf m q lowest).high * 10 ^ 16 := by exact_mod_cast center_intervalOf_lt h
    generalize intervalOf m q lowest = i at hle hlong ⊢
    have hpow : (10 : ℚ) ^ (i.decimalExponent - 16) * 10 ^ 16 = 10 ^ i.decimalExponent := by
      rw [← zpow_natCast, ← zpow_add₀ (by norm_num)]
      exact congrArg _ (Int.sub_add_cancel _ _)
    refine lt_of_mul_lt_mul_right ?_ (by positivity : (0 : ℚ) ≤ 10 ^ 16)
    calc (i.unit : ℚ) * 10 ^ (i.decimalExponent - 16) * 10 ^ 16 = 10 ^ i.decimalExponent * i.unit := by
          rw [mul_assoc, hpow, mul_comm]
      _ < (i.high - i.low) * 10 ^ 16 := by linarith

/-! ## The decimal that is found -/

theorem exists_withoutTrailingZeros (ds : List Char) :
    ∃ n, ds = withoutTrailingZeros ds ++ List.replicate n '0' := by
  refine ⟨(ds.reverse.takeWhile (· == '0')).length, ?_⟩
  have hzeros : ds.reverse.takeWhile (· == '0') =
      List.replicate (ds.reverse.takeWhile (· == '0')).length '0' := by
    refine List.eq_replicate_iff.mpr ⟨rfl, fun c hc => ?_⟩
    simpa using List.all_eq_true.mp List.all_takeWhile c hc
  calc ds = (ds.reverse.takeWhile (· == '0') ++ ds.reverse.dropWhile (· == '0')).reverse := by
        rw [List.takeWhile_append_dropWhile, List.reverse_reverse]
    _ = withoutTrailingZeros ds ++ (ds.reverse.takeWhile (· == '0')).reverse := List.reverse_append
    _ = _ := by rw [hzeros, List.reverse_replicate, List.length_replicate]

end Shortest

/-- The number that digits with an exponent stand for. -/
def Scientific.value (s : Scientific) : ℚ :=
  Text.appendDigits 0 s.digits * 10 ^ (s.exponent + 1 - s.digits.length)

namespace Shortest

variable {m : ℕ} {q : ℤ} {lowest : Bool}

/-- Every number in the interval of a magnitude is positive. -/
theorem pos_of_contains (h : OfFormat m q lowest) {d : ℚ} (hd : (intervalOf m q lowest).Contains d) : 0 < d := by
  obtain ⟨y, rfl, hlow, -, -⟩ := bounds_of_contains h hd
  have hm : (1 : ℚ) ≤ m := by exact_mod_cast h.pos
  have hbelow : (below m lowest : ℚ) ≤ 2 := by exact_mod_cast below_le_two m lowest
  have hy : 0 < y := by linarith
  positivity

/-- The decimal of a magnitude is written with digits, and it rounds to the magnitude. -/
theorem ofMagnitude_spec (h : OfFormat m q lowest) :
    (ofMagnitude m q lowest).digits ≠ [] ∧ (∀ c ∈ (ofMagnitude m q lowest).digits, c.isDigit = true) ∧
      (intervalOf m q lowest).Contains (ofMagnitude m q lowest).value := by
  have hsome : (search (intervalOf m q lowest) (intervalOf m q lowest).decimalExponent 17 0).isSome = true :=
    isSome_search (Nat.zero_le 16) (by omega) (isSome_nearest?_seventeen h)
  obtain ⟨⟨n, k⟩, hfound⟩ := Option.isSome_iff_exists.mp hsome
  have hcontains := contains_of_search hfound
  obtain ⟨zeros, hzeros⟩ := exists_withoutTrailingZeros (Text.digits n)
  simp only [ofMagnitude, hfound]
  generalize withoutTrailingZeros (Text.digits n) = ds at hzeros
  have hn : n = Text.appendDigits 0 ds * 10 ^ zeros := by
    rw [← Text.appendDigits_zeros, ← Text.appendDigits_append, ← hzeros, Text.appendDigits_digits]
  refine ⟨?_, fun c hc => ?_, ?_⟩
  · rintro rfl
    have hzero : n = 0 := by simpa [Text.appendDigits] using hn
    have hpos := pos_of_contains h hcontains
    simp [hzero] at hpos
  · refine Text.isDigit_of_mem_digits (n := n) ?_
    rw [hzeros]
    exact List.mem_append_left _ hc
  · have hvalue : Scientific.value ⟨ds, k + (Text.digits n).length - 1⟩ = n * 10 ^ k := by
      have hexponent : k + (Text.digits n).length - 1 + 1 - ds.length = zeros + k := by
        rw [hzeros, List.length_append, List.length_replicate]
        omega
      rw [Scientific.value, hexponent, zpow_add₀ (by norm_num), zpow_natCast, ← mul_assoc, hn]
      norm_cast
    rwa [hvalue]

end Shortest

end TableGate
