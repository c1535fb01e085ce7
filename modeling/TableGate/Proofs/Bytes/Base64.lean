import Mathlib.Data.Nat.Notation
import Mathlib.Tactic.SplitIfs
import TableGate.Bytes.Base64

/-! # Base64 text is read back

What was written is read back, and nothing but what is written is read. -/

namespace TableGate.Base64

theorem value?_char : ∀ n < 64, value? (char .standard n) = some n := by
  decide

theorem char_ne_pad : ∀ n < 64, char .standard n ≠ '=' := by
  decide

theorem ofNat_eq_of_toNat {b : UInt8} {n : ℕ} (h : n = b.toNat) : UInt8.ofNat n = b := by
  rw [h, UInt8.ofNat_toNat]

/-- Four characters without padding are three bytes. -/
theorem decodeChars?_group {a b c d : Char} (hd : d ≠ '=') (rest : List Char) :
    decodeChars? (a :: b :: c :: d :: rest) = (do
      let n := (((← value? a) * 64 + (← value? b)) * 64 + (← value? c)) * 64 + (← value? d)
      return UInt8.ofNat (n / 65536) :: UInt8.ofNat (n / 256 % 256) :: UInt8.ofNat (n % 256) ::
        (← decodeChars? rest)) := by
  rw [decodeChars?]
  · exact fun _ h _ => hd h
  · exact fun h _ => hd h

theorem decodeChars?_encodeChars (bs : Bytes) :
    decodeChars? (encodeChars .standard true bs) = some bs := by
  induction bs using encodeChars.induct with
  | case1 => rfl
  | case2 x =>
      have hx := x.toNat_lt
      simp only [encodeChars, if_true, List.cons_append, List.nil_append, decodeChars?]
      rw [value?_char _ (by omega), value?_char _ (by omega)]
      simp only [bind, Option.bind, pure, Option.ite_none_right_eq_some, Option.some.injEq,
        List.cons.injEq, and_true]
      exact ⟨by omega, ofNat_eq_of_toNat (by omega)⟩
  | case3 x y =>
      have hx := x.toNat_lt
      have hy := y.toNat_lt
      simp only [encodeChars, if_true, List.cons_append, List.nil_append]
      rw [decodeChars?, value?_char _ (by omega), value?_char _ (by omega), value?_char _ (by omega)]
      · simp only [bind, Option.bind, pure, Option.ite_none_right_eq_some, Option.some.injEq,
          List.cons.injEq, and_true]
        exact ⟨by omega, ofNat_eq_of_toNat (by omega), ofNat_eq_of_toNat (by omega)⟩
      · exact char_ne_pad _ (by omega)
  | case4 x y z rest ih =>
      have hx := x.toNat_lt
      have hy := y.toNat_lt
      have hz := z.toNat_lt
      rw [encodeChars, decodeChars?_group (char_ne_pad _ (by omega)), value?_char _ (by omega),
        value?_char _ (by omega), value?_char _ (by omega), value?_char _ (by omega), ih]
      simp only [bind, Option.bind, pure, Option.some.injEq, List.cons.injEq, and_true]
      exact ⟨ofNat_eq_of_toNat (by omega), ofNat_eq_of_toNat (by omega),
        ofNat_eq_of_toNat (by omega)⟩

/-- The number of a character has no other character. -/
theorem char_of_value? {c : Char} {n : ℕ} (h : value? c = some n) : n < 64 ∧ char .standard n = c := by
  have hrange {a b : Char} (hab : (a ≤ c && c ≤ b) = true) : a.toNat ≤ c.toNat ∧ c.toNat ≤ b.toNat := by
    simpa [Char.le_def, UInt32.le_iff_toNat_le] using hab
  unfold value? at h
  split_ifs at h with hupper hlower hdigit hplus hslash
  · obtain ⟨hlow, hhigh⟩ : 65 ≤ c.toNat ∧ c.toNat ≤ 90 := hrange hupper
    cases h
    refine ⟨by omega, ?_⟩
    rw [char, if_pos (by omega), Nat.add_sub_cancel' hlow, Char.ofNat_toNat]
  · obtain ⟨hlow, hhigh⟩ : 97 ≤ c.toNat ∧ c.toNat ≤ 122 := hrange hlower
    cases h
    refine ⟨by omega, ?_⟩
    rw [char, if_neg (by omega), if_pos (by omega), Nat.add_sub_cancel' (by omega), Char.ofNat_toNat]
  · obtain ⟨hlow, hhigh⟩ : 48 ≤ c.toNat ∧ c.toNat ≤ 57 := hrange hdigit
    cases h
    refine ⟨by omega, ?_⟩
    rw [char, if_neg (by omega), if_neg (by omega), if_pos (by omega), Nat.add_sub_cancel, Char.ofNat_toNat]
  · cases h
    exact ⟨by decide, hplus.symm⟩
  · cases h
    exact ⟨by decide, hslash.symm⟩

/-- What is read is the text of the bytes that it is read as. -/
theorem encodeChars_of_decodeChars? {cs : List Char} {bs : Bytes} (h : decodeChars? cs = some bs) :
    encodeChars .standard true bs = cs := by
  induction cs using decodeChars?.induct generalizing bs with
  | case1 =>
      cases h
      rfl
  | case2 a b =>
      simp only [decodeChars?, Option.bind_eq_bind, Option.bind_eq_some_iff, pure, Option.ite_none_right_eq_some,
        Option.some.injEq] at h
      obtain ⟨x, hx, y, hy, hpad, rfl⟩ := h
      obtain ⟨hx, rfl⟩ := char_of_value? hx
      obtain ⟨hy, rfl⟩ := char_of_value? hy
      simp only [encodeChars, UInt8.toNat_ofNat', if_true, List.cons_append, List.nil_append, List.cons.injEq, and_true]
      exact ⟨congrArg _ (by omega), congrArg _ (by omega)⟩
  | case3 a b c hc =>
      rw [decodeChars?.eq_3 a b c hc] at h
      simp only [Option.bind_eq_bind, Option.bind_eq_some_iff, pure, Option.ite_none_right_eq_some,
        Option.some.injEq] at h
      obtain ⟨x, hx, y, hy, z, hz, hpad, rfl⟩ := h
      obtain ⟨hx, rfl⟩ := char_of_value? hx
      obtain ⟨hy, rfl⟩ := char_of_value? hy
      obtain ⟨hz, rfl⟩ := char_of_value? hz
      simp only [encodeChars, UInt8.toNat_ofNat', if_true, List.cons_append, List.nil_append, List.cons.injEq, and_true]
      exact ⟨congrArg _ (by omega), congrArg _ (by omega), congrArg _ (by omega)⟩
  | case4 a b c d rest hpads hpad ih =>
      rw [decodeChars?.eq_4 a b c d rest hpads hpad] at h
      simp only [Option.bind_eq_bind, Option.bind_eq_some_iff, pure, Option.some.injEq] at h
      obtain ⟨x, hx, y, hy, z, hz, w, hw, bytes, hrest, rfl⟩ := h
      obtain ⟨hx, rfl⟩ := char_of_value? hx
      obtain ⟨hy, rfl⟩ := char_of_value? hy
      obtain ⟨hz, rfl⟩ := char_of_value? hz
      obtain ⟨hw, rfl⟩ := char_of_value? hw
      simp only [encodeChars, ih hrest, UInt8.toNat_ofNat', List.cons.injEq, and_true]
      exact ⟨congrArg _ (by omega), congrArg _ (by omega), congrArg _ (by omega), congrArg _ (by omega)⟩
  | case5 cs hnil htwo hthree hfour =>
      rw [decodeChars?.eq_5 cs hnil htwo hthree hfour] at h
      cases h

theorem mem_encodeChars {bs : Bytes} {c : Char} (h : c ∈ encodeChars .standard true bs) :
    c = '=' ∨ ∃ n < 64, c = char .standard n := by
  induction bs using encodeChars.induct with
  | case1 => cases h
  | case2 x =>
      have hx := x.toNat_lt
      simp only [encodeChars, if_true, List.mem_append, List.mem_cons, List.not_mem_nil, or_false, or_self] at h
      rcases h with (h | h) | h
      · exact .inr ⟨_, by omega, h⟩
      · exact .inr ⟨_, by omega, h⟩
      · exact .inl h
  | case3 x y =>
      have hx := x.toNat_lt
      have hy := y.toNat_lt
      simp only [encodeChars, if_true, List.mem_append, List.mem_cons, List.not_mem_nil, or_false] at h
      rcases h with (h | h | h) | h
      · exact .inr ⟨_, by omega, h⟩
      · exact .inr ⟨_, by omega, h⟩
      · exact .inr ⟨_, by omega, h⟩
      · exact .inl h
  | case4 x y z rest ih =>
      have hx := x.toNat_lt
      have hy := y.toNat_lt
      have hz := z.toNat_lt
      simp only [encodeChars, List.mem_cons] at h
      rcases h with h | h | h | h | h
      · exact .inr ⟨_, by omega, h⟩
      · exact .inr ⟨_, by omega, h⟩
      · exact .inr ⟨_, by omega, h⟩
      · exact .inr ⟨_, by omega, h⟩
      · exact ih h

end TableGate.Base64
