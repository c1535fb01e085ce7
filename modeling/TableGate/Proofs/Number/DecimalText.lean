import Mathlib.Data.List.TakeWhile
import TableGate.Proofs.Number.Shortest

/-! # The decimal texts of numbers

A text with a point and an exponent stands for a number. The text of a magnitude stands for the decimal that was found
for it, so that two numbers with one text are the same. -/

namespace TableGate

namespace Text

/-- The number that digits with at most one point among them stand for. -/
def pointValue (cs : List Char) : ℚ :=
  appendDigits 0 (cs.filter (· != '.')) / 10 ^ ((cs.dropWhile (· != '.')).length - 1)

/-- The integer that digits behind a sign stand for. -/
def signedValue : List Char → ℤ
  | '-' :: ds => -(appendDigits 0 ds : ℤ)
  | _ :: ds => appendDigits 0 ds
  | [] => 0

/-- The number that a text stands for in which an exponent may follow behind the letter `e`. -/
def decimalValue (cs : List Char) : ℚ :=
  pointValue (cs.takeWhile (· != 'e')) * 10 ^ signedValue ((cs.dropWhile (· != 'e')).drop 1)

/-- The character may stand in the text of a number. -/
def isNumeric (c : Char) : Bool :=
  c.isDigit || c == '.' || c == 'e' || c == '+' || c == '-'

theorem ne_of_isDigit {c d : Char} (hc : c.isDigit = true) (hd : d.isDigit = false) : (c != d) = true := by
  rw [bne_iff_ne]
  rintro rfl
  rw [hc] at hd
  cases hd

theorem bne_of_notMem {d : Char} {cs : List Char} (h : d ∉ cs) : ∀ c ∈ cs, (c != d) = true := by
  intro c hc
  rw [bne_iff_ne]
  rintro rfl
  exact h hc

theorem isNumeric_of_isDigit {c : Char} (h : c.isDigit = true) : isNumeric c = true := by
  simp [isNumeric, h]

theorem isDigit_of_mem_zeros {n : ℕ} {c : Char} (h : c ∈ Scientific.zeros n) : c.isDigit = true := by
  rw [List.eq_of_mem_replicate h]
  rfl

variable {ds es : List Char}

theorem filter_point (hds : ∀ c ∈ ds, c.isDigit = true) : ds.filter (· != '.') = ds :=
  List.filter_eq_self.mpr fun c hc => ne_of_isDigit (hds c hc) rfl

theorem pointValue_digits (hds : ∀ c ∈ ds, c.isDigit = true) : pointValue ds = appendDigits 0 ds := by
  have hdrop : ds.dropWhile (· != '.') = [] :=
    List.dropWhile_eq_nil_iff.mpr fun c hc => ne_of_isDigit (hds c hc) rfl
  rw [pointValue, filter_point hds, hdrop]
  simp

theorem pointValue_point (hds : ∀ c ∈ ds, c.isDigit = true) (hes : ∀ c ∈ es, c.isDigit = true) :
    pointValue (ds ++ '.' :: es) = appendDigits 0 (ds ++ es) / 10 ^ es.length := by
  have hdrop : (ds ++ '.' :: es).dropWhile (· != '.') = '.' :: es := by
    rw [List.dropWhile_append_of_pos fun c hc => ne_of_isDigit (hds c hc) rfl]
    rfl
  rw [pointValue, List.filter_append, filter_point hds, List.filter_cons_of_neg (by decide), filter_point hes, hdrop,
    List.length_cons, Nat.add_sub_cancel]

/-- A text without the letter `e` has no exponent. -/
theorem decimalValue_of_notMem {cs : List Char} (h : 'e' ∉ cs) : decimalValue cs = pointValue cs := by
  have hne := bne_of_notMem h
  rw [decimalValue, List.takeWhile_eq_self_iff.mpr hne, List.dropWhile_eq_nil_iff.mpr hne]
  simp [signedValue]

theorem decimalValue_exponent {cs : List Char} (h : 'e' ∉ cs) (es : List Char) :
    decimalValue (cs ++ 'e' :: es) = pointValue cs * 10 ^ signedValue es := by
  have hne := bne_of_notMem h
  rw [decimalValue, List.takeWhile_append_of_pos hne, List.dropWhile_append_of_pos hne]
  simp

theorem signedValue_exponent (e : ℤ) :
    signedValue ((if e < 0 then '-' else '+') :: digits e.natAbs) = e := by
  split
  · rw [signedValue, appendDigits_digits]
    omega
  · rw [signedValue, appendDigits_digits]
    · omega
    · simp

end Text

namespace Scientific

open Text

/-- The decimal has digits, and nothing else. -/
structure Written (s : Scientific) : Prop where
  ne_nil : s.digits ≠ []
  isDigit : ∀ c ∈ s.digits, c.isDigit = true

variable {s : Scientific}

/-! ## Where the exponent is written as zeros -/

/-- The digits in front of the point and behind it stand for the decimal. -/
structure PartedAs (s : Scientific) (whole fraction : List Char) : Prop where
  ne_nil : whole ≠ []
  whole_isDigit : ∀ c ∈ whole, c.isDigit = true
  fraction_isDigit : ∀ c ∈ fraction, c.isDigit = true
  value_eq : (appendDigits 0 (whole ++ fraction) : ℚ) / 10 ^ fraction.length = s.value

theorem partedAs_zero (h : s.Written) (hneg : s.exponent < 0) :
    s.PartedAs ['0'] (zeros (-s.exponent - 1).toNat ++ s.digits) where
  ne_nil := by simp
  whole_isDigit := by simp
  fraction_isDigit c hc := (List.mem_append.mp hc).elim isDigit_of_mem_zeros (h.isDigit c)
  value_eq := by
    have hdigits : appendDigits 0 (['0'] ++ (zeros (-s.exponent - 1).toNat ++ s.digits)) = appendDigits 0 s.digits :=
      appendDigits_zeros_append ((-s.exponent - 1).toNat + 1) s.digits
    have hpower : s.exponent + 1 - s.digits.length = -(((-s.exponent - 1).toNat + s.digits.length : ℕ) : ℤ) := by
      omega
    rw [hdigits, value, hpower, zpow_neg, zpow_natCast, List.length_append, zeros, List.length_replicate,
      div_eq_mul_inv]

theorem partedAs_take_drop (h : s.Written) (hnonneg : 0 ≤ s.exponent)
    (hlong : s.exponent.toNat + 1 < s.digits.length) :
    s.PartedAs (s.digits.take (s.exponent.toNat + 1)) (s.digits.drop (s.exponent.toNat + 1)) where
  ne_nil := by simpa using h.ne_nil
  whole_isDigit c hc := h.isDigit c (List.mem_of_mem_take hc)
  fraction_isDigit c hc := h.isDigit c (List.mem_of_mem_drop hc)
  value_eq := by
    have hpower : s.exponent + 1 - s.digits.length = -((s.digits.length - (s.exponent.toNat + 1) : ℕ) : ℤ) := by
      omega
    rw [List.take_append_drop, List.length_drop, value, hpower, zpow_neg, zpow_natCast, div_eq_mul_inv]

theorem partedAs_zeros (h : s.Written) (hnonneg : 0 ≤ s.exponent)
    (hshort : s.digits.length ≤ s.exponent.toNat + 1) :
    s.PartedAs (s.digits ++ zeros (s.exponent.toNat + 1 - s.digits.length)) ['0'] where
  ne_nil := by simp [h.ne_nil]
  whole_isDigit c hc := (List.mem_append.mp hc).elim (h.isDigit c) isDigit_of_mem_zeros
  fraction_isDigit := by simp
  value_eq := by
    have hpower : s.exponent + 1 - s.digits.length = ((s.exponent.toNat + 1 - s.digits.length : ℕ) : ℤ) := by
      omega
    have hdigits : appendDigits 0 (s.digits ++ zeros (s.exponent.toNat + 1 - s.digits.length) ++ ['0']) =
        appendDigits 0 s.digits * 10 ^ (s.exponent.toNat + 1 - s.digits.length) * 10 := by
      rw [appendDigits_append, appendDigits_append, zeros, appendDigits_zeros]
      exact (Nat.add_zero _).trans (Nat.mul_comm _ _)
    rw [hdigits, value, hpower, zpow_natCast]
    push_cast
    rw [List.length_singleton, pow_one, mul_div_assoc, div_self (by norm_num), mul_one]

/-- The point stands between digits. -/
theorem positional_eq (h : s.Written) :
    ∃ whole fraction, s.positional = whole ++ '.' :: fraction ∧ s.PartedAs whole fraction := by
  unfold positional
  split
  · rename_i hneg
    exact ⟨_, _, rfl, partedAs_zero h hneg⟩
  · rename_i hnonneg
    refine ⟨_, _, rfl, ?_⟩
    rcases Nat.lt_or_ge (s.exponent.toNat + 1) s.digits.length with hlong | hshort
    · have hfraction : (s.digits.drop (s.exponent.toNat + 1)).isEmpty = false := by simpa using hlong
      rw [hfraction, Nat.sub_eq_zero_of_le hlong.le, zeros, List.replicate_zero, List.append_nil]
      exact partedAs_take_drop h (by omega) hlong
    · rw [List.drop_eq_nil_of_le hshort, List.take_of_length_le hshort]
      exact partedAs_zeros h (by omega) hshort

/-! ## Where it is written behind the letter -/

theorem exponential_eq (h : s.Written) :
    ∃ d ds, d.isDigit = true ∧ (∀ c ∈ ds, c.isDigit = true) ∧ s.digits = d :: ds ∧
      s.exponential = ((if ds.isEmpty then [d] else d :: '.' :: ds) ++
        'e' :: (if s.exponent < 0 then '-' else '+') :: Text.digits s.exponent.natAbs) := by
  cases hdigits : s.digits with
  | nil => exact absurd hdigits h.ne_nil
  | cons d ds =>
      have hall : ∀ c ∈ d :: ds, c.isDigit = true := hdigits ▸ h.isDigit
      refine ⟨d, ds, hall d List.mem_cons_self, fun c hc => hall c (List.mem_cons_of_mem d hc), rfl, ?_⟩
      simp only [exponential, hdigits, List.take_succ_cons, List.take_zero, List.drop_succ_cons, List.drop_zero]
      split <;> rfl

theorem exponential_value (h : s.Written) : decimalValue s.exponential = s.value := by
  obtain ⟨d, ds, hd, hds, hdigits, htext⟩ := exponential_eq h
  have he : ∀ c ∈ d :: ds, c ≠ 'e' := by
    rintro c hc rfl
    rcases List.mem_cons.mp hc with rfl | hc
    · cases hd
    · cases hds _ hc
  have hnotMem : 'e' ∉ (if ds.isEmpty then [d] else d :: '.' :: ds) := by
    intro hmem
    split at hmem
    · exact he _ (by simpa using Or.inl (List.mem_singleton.mp hmem)) rfl
    · simp only [List.mem_cons, Char.reduceEq, false_or] at hmem
      exact he _ (List.mem_cons.mpr hmem) rfl
  have hpoint : pointValue (if ds.isEmpty then [d] else d :: '.' :: ds) =
      appendDigits 0 (d :: ds) / 10 ^ ds.length := by
    split
    · rename_i hempty
      rw [List.isEmpty_iff.mp hempty, pointValue_digits (by simpa using hd)]
      simp
    · have hone : ∀ c ∈ [d], c.isDigit = true := by simpa using hd
      exact pointValue_point hone hds
  have hpower : s.exponent + 1 - (d :: ds).length = -(ds.length : ℤ) + s.exponent := by
    rw [List.length_cons]
    omega
  rw [htext, decimalValue_exponent hnotMem, signedValue_exponent, hpoint, value, hdigits, hpower,
    zpow_add₀ (by norm_num), zpow_neg, zpow_natCast, div_eq_mul_inv, mul_assoc]

/-! ## Either way -/

/-- The text of a decimal stands for it. -/
theorem decimalValue_text (h : s.Written) : decimalValue s.text = s.value := by
  unfold text
  split
  · obtain ⟨whole, fraction, htext, hparted⟩ := positional_eq h
    have he : 'e' ∉ whole ++ '.' :: fraction := by
      simp only [List.mem_append, List.mem_cons, Char.reduceEq, false_or]
      rintro (hmem | hmem)
      · cases hparted.whole_isDigit _ hmem
      · cases hparted.fraction_isDigit _ hmem
    rw [htext, decimalValue_of_notMem he, pointValue_point hparted.whole_isDigit hparted.fraction_isDigit,
      hparted.value_eq]
  · exact exponential_value h

/-- A text with a digit in front, made of the characters of numbers, that is not the text of an integer. -/
structure RealText (cs : List Char) : Prop where
  head : ∃ d rest, cs = d :: rest ∧ d.isDigit = true
  isNumeric : ∀ c ∈ cs, isNumeric c = true
  marked : '.' ∈ cs ∨ 'e' ∈ cs

theorem realText_point {whole fraction : List Char} (h : s.PartedAs whole fraction) :
    RealText (whole ++ '.' :: fraction) where
  head := by
    obtain ⟨d, rest, rfl⟩ := List.exists_cons_of_ne_nil h.ne_nil
    exact ⟨d, rest ++ '.' :: fraction, rfl, h.whole_isDigit d List.mem_cons_self⟩
  isNumeric c hc := by
    rcases List.mem_append.mp hc with hc | hc
    · exact isNumeric_of_isDigit (h.whole_isDigit c hc)
    · rcases List.mem_cons.mp hc with rfl | hc
      · rfl
      · exact isNumeric_of_isDigit (h.fraction_isDigit c hc)
  marked := by simp

theorem realText_exponential (h : s.Written) : RealText s.exponential := by
  obtain ⟨d, ds, hd, hds, -, htext⟩ := exponential_eq h
  rw [htext]
  refine ⟨?_, fun c hc => ?_, by simp⟩
  · split
    · exact ⟨d, _, rfl, hd⟩
    · exact ⟨d, _, rfl, hd⟩
  · have hfront : c ∈ (if ds.isEmpty then [d] else d :: '.' :: ds) → isNumeric c = true := by
      intro hc
      split at hc
      · rw [List.mem_singleton.mp hc]
        exact isNumeric_of_isDigit hd
      · rcases List.mem_cons.mp hc with rfl | hc
        · exact isNumeric_of_isDigit hd
        · rcases List.mem_cons.mp hc with rfl | hc
          · rfl
          · exact isNumeric_of_isDigit (hds c hc)
    rcases List.mem_append.mp hc with hc | hc
    · exact hfront hc
    · rcases List.mem_cons.mp hc with rfl | hc
      · rfl
      · rcases List.mem_cons.mp hc with rfl | hc
        · split <;> rfl
        · exact isNumeric_of_isDigit (isDigit_of_mem_digits hc)

theorem realText_text (h : s.Written) : RealText s.text := by
  unfold text
  split
  · obtain ⟨whole, fraction, htext, hparted⟩ := positional_eq h
    rw [htext]
    exact realText_point hparted
  · exact realText_exponential h

end Scientific

namespace Binary64

open Text

/-! ## Numbers of the format -/

variable {x y : Binary64}

/-- The text of a number without its sign. -/
def magnitudeChars (x : Binary64) : List Char :=
  if x.significand = 0 then ['0', '.', '0']
  else (Shortest.ofMagnitude x.significand x.exponent (x.exponentField ≤ 1)).text

theorem chars_eq (x : Binary64) : x.chars = if x.isNegative then '-' :: x.magnitudeChars else x.magnitudeChars :=
  rfl

theorem fractionField_lt (x : Binary64) : x.fractionField < 2 ^ 52 :=
  Nat.mod_lt _ (by decide)

theorem ofFormat (h : x.significand ≠ 0) : Shortest.OfFormat x.significand x.exponent (x.exponentField ≤ 1) := by
  have hfraction := x.fractionField_lt
  unfold significand at h ⊢
  unfold exponent
  split at h
  · rename_i hzero
    rw [if_pos hzero, if_pos hzero]
    exact ⟨by omega, by omega, by omega, fun _ => by omega, fun hleading => by simp [hzero] at hleading⟩
  · rename_i hzero
    rw [if_neg hzero, if_neg hzero]
    refine ⟨by omega, ?_, by omega, fun hlowest => ?_, fun hleading => ?_⟩
    · simp only [Nat.pow_eq]
      omega
    · simp only [decide_eq_true_eq] at hlowest
      omega
    · simp only [decide_eq_false_iff_not] at hleading
      simp only [Nat.pow_eq]
      omega

theorem written (h : x.significand ≠ 0) :
    (Shortest.ofMagnitude x.significand x.exponent (x.exponentField ≤ 1)).Written :=
  ⟨(Shortest.ofMagnitude_spec (ofFormat h)).1, (Shortest.ofMagnitude_spec (ofFormat h)).2.1⟩

theorem realText_magnitudeChars (x : Binary64) : Scientific.RealText x.magnitudeChars := by
  unfold magnitudeChars
  split
  · exact ⟨⟨'0', _, rfl, rfl⟩, by simp [isNumeric], by decide⟩
  · rename_i h
    exact Scientific.realText_text (written h)

/-- The text of a magnitude that is not zero stands for a number that rounds to it. -/
theorem contains_decimalValue (h : x.significand ≠ 0) :
    (Shortest.intervalOf x.significand x.exponent (x.exponentField ≤ 1)).Contains (decimalValue x.magnitudeChars) := by
  rw [magnitudeChars, if_neg h, Scientific.decimalValue_text (written h)]
  exact (Shortest.ofMagnitude_spec (ofFormat h)).2.2

theorem decimalValue_pos_iff : 0 < decimalValue x.magnitudeChars ↔ x.significand ≠ 0 := by
  refine ⟨fun h hzero => ?_, fun h => Shortest.pos_of_contains (ofFormat h) (contains_decimalValue h)⟩
  have hvalue : decimalValue ['0', '.', '0'] = 0 := by
    have hdigit : ∀ c ∈ ['0'], c.isDigit = true := by simp
    rw [decimalValue_of_notMem (by decide)]
    exact (pointValue_point hdigit hdigit).trans (zero_div _)
  rw [magnitudeChars, if_pos hzero, hvalue] at h
  exact lt_irrefl 0 h

/-- The fields of a number say which one it is. -/
theorem ext_of_fields (hsign : x.isNegative = y.isNegative) (hm : x.significand = y.significand)
    (hq : x.exponent = y.exponent) : x = y := by
  have hx := x.bits.toNat_lt
  have hy := y.bits.toNat_lt
  have hsign' : x.bits.toNat / 2 ^ 63 = y.bits.toNat / 2 ^ 63 := by
    have hiff := Bool.eq_iff_iff.mp hsign
    simp only [isNegative, Nat.pow_eq, beq_iff_eq] at hiff
    omega
  have hfields : x.exponentField = y.exponentField ∧ x.fractionField = y.fractionField := by
    have hfraction := x.fractionField_lt
    have hfraction' := y.fractionField_lt
    simp only [significand, exponent, Nat.pow_eq] at hm hq
    split at hm <;> split at hm <;> simp_all
    omega
  have hbits : x.bits.toNat = y.bits.toNat := by
    simp only [exponentField, fractionField, Nat.pow_eq] at hfields
    omega
  cases x
  cases y
  exact congrArg mk (UInt64.toNat_inj.mp hbits)

theorem head_magnitudeChars_ne (x : Binary64) (rest : List Char) : x.magnitudeChars ≠ '-' :: rest := by
  obtain ⟨d, rest', hd, hdigit⟩ := (realText_magnitudeChars x).head
  rw [hd]
  rintro heq
  rw [(List.cons.inj heq).1] at hdigit
  cases hdigit

/-- The text of a magnitude says which one it is. -/
theorem fields_of_magnitudeChars (h : x.magnitudeChars = y.magnitudeChars) :
    x.significand = y.significand ∧ x.exponent = y.exponent := by
  have hpos : 0 < decimalValue x.magnitudeChars ↔ 0 < decimalValue y.magnitudeChars := by rw [h]
  rw [decimalValue_pos_iff, decimalValue_pos_iff] at hpos
  by_cases hzero : x.significand = 0
  · have hzero' : y.significand = 0 := not_not.mp fun hne => hpos.mpr hne hzero
    refine ⟨hzero.trans hzero'.symm, ?_⟩
    unfold significand at hzero hzero'
    unfold exponent
    split at hzero
    · split at hzero'
      · simp [*]
      · simp at hzero'
    · simp at hzero
  · have hx := contains_decimalValue hzero
    rw [h] at hx
    exact Shortest.eq_of_contains (ofFormat hzero) (ofFormat (hpos.mp hzero)) hx (contains_decimalValue (hpos.mp hzero))

/-- Two numbers with the same text are the same. -/
theorem chars_injective {x y : Binary64} (h : x.chars = y.chars) : x = y := by
  rw [chars_eq, chars_eq] at h
  cases hx : x.isNegative <;> cases hy : y.isNegative <;> simp only [hx, hy, if_true, Bool.false_eq_true, if_false] at h
  · obtain ⟨hm, hq⟩ := fields_of_magnitudeChars h
    exact ext_of_fields (hx.trans hy.symm) hm hq
  · exact absurd h (x.head_magnitudeChars_ne _)
  · exact absurd h.symm (y.head_magnitudeChars_ne _)
  · obtain ⟨hm, hq⟩ := fields_of_magnitudeChars (List.cons.inj h).2
    exact ext_of_fields (hx.trans hy.symm) hm hq

theorem isNumeric_chars (x : Binary64) : ∀ c ∈ x.chars, isNumeric c = true := by
  intro c h
  have hmagnitude := (realText_magnitudeChars x).isNumeric
  rw [chars_eq] at h
  split at h
  · rcases List.mem_cons.mp h with rfl | h
    · rfl
    · exact hmagnitude c h
  · exact hmagnitude c h

/-- The text of a number is not the text of an integer. -/
theorem marked_chars (x : Binary64) : '.' ∈ x.chars ∨ 'e' ∈ x.chars := by
  have hmarked := (realText_magnitudeChars x).marked
  rw [chars_eq]
  split
  · exact hmarked.imp (List.mem_cons_of_mem '-') (List.mem_cons_of_mem '-')
  · exact hmarked

theorem chars_ne_nil (x : Binary64) : x.chars ≠ [] := by
  rcases x.marked_chars with h | h
  · exact List.ne_nil_of_mem h
  · exact List.ne_nil_of_mem h

end Binary64

end TableGate
