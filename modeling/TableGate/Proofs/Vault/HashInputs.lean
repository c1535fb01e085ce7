import Mathlib.Data.List.Basic
import TableGate.Proofs.Json.Text
import TableGate.Vault.Codec

/-! # What a hash is computed from

No zero byte stands in the text of a value. The last zero byte of what is hashed is therefore the one between the
secret and the text, and what is hashed says which secret and which value it was made from. -/

namespace TableGate

namespace Bytes

theorem zero_notMem_utf8EncodeChar {c : Char} (h : 0 < c.toNat) : (0 : UInt8) ∉ String.utf8EncodeChar c := by
  have hpos : 0 < c.val.toNat := h
  unfold String.utf8EncodeChar
  dsimp only
  -- one case for each number of bytes
  repeat' split
  all_goals
    simp only [List.mem_cons, List.not_mem_nil, or_false, ← UInt8.toNat_inj, UInt8.toNat_zero, UInt8.toNat_ofNat']
    omega

theorem ofText_ofList (cs : List Char) : ofText (String.ofList cs) = cs.flatMap String.utf8EncodeChar := by
  rw [ofText, String.toUTF8, ← String.utf8Encode_toList, String.toList_ofList, List.utf8Encode, List.data_toByteArray]

/-- A text without control characters has no zero byte. -/
theorem zero_notMem_ofText {cs : List Char} (h : Value.Plain cs) : 0 ∉ ofText (String.ofList cs) := by
  rw [ofText_ofList]
  intro hmem
  obtain ⟨c, hc, hzero⟩ := List.mem_flatMap.mp hmem
  exact zero_notMem_utf8EncodeChar (Nat.lt_of_lt_of_le (by decide) (h c hc)) hzero

/-- A row of bytes is parted at its last zero in one way. -/
theorem append_zero_append_inj {as bs xs ys : Bytes} (hxs : 0 ∉ xs) (hys : 0 ∉ ys)
    (h : as ++ 0 :: xs = bs ++ 0 :: ys) : as = bs ∧ xs = ys := by
  rcases List.append_eq_append_iff.mp h with ⟨between, rfl, htail⟩ | ⟨between, rfl, htail⟩
  · cases between with
    | nil => exact ⟨(List.append_nil as).symm, (List.cons.inj htail).2⟩
    | cons b between =>
        rw [(List.cons.inj htail).2] at hxs
        exact absurd (by simp) hxs
  · cases between with
    | nil => exact ⟨List.append_nil bs, (List.cons.inj htail).2.symm⟩
    | cons b between =>
        rw [(List.cons.inj htail).2] at hys
        exact absurd (by simp) hys

end Bytes

namespace Hex

theorem value?_digit : ∀ n < 16, value? (digit n) = some n := by
  decide

theorem decodeChars?_encodeChars (bs : Bytes) : decodeChars? (encodeChars bs) = some bs := by
  induction bs with
  | nil => rfl
  | cons b bs ih =>
      have hb := b.toNat_lt
      have hbyte : UInt8.ofNat (16 * (b.toNat / 16) + b.toNat % 16) = b := by
        rw [Nat.div_add_mod, UInt8.ofNat_toNat]
      rw [encodeChars, decodeChars?, value?_digit _ (by omega), value?_digit _ (by omega), ih]
      simp only [bind, Option.bind, pure, hbyte]

theorem encode_injective {bs cs : Bytes} (h : encode bs = encode cs) : bs = cs := by
  have hchars := congrArg decodeChars? (String.ofList_injective h)
  rw [decodeChars?_encodeChars, decodeChars?_encodeChars] at hchars
  exact Option.some.inj hchars

end Hex

/-- Two different messages have the same digest. -/
def CipherSuite.Collides (suite : CipherSuite) (a b : Bytes) : Prop :=
  a ≠ b ∧ suite.digest a = suite.digest b

namespace Vault

theorem hashInput_eq_iff {pepper other : Bytes} {x y : Value} :
    hashInput pepper x = hashInput other y ↔ pepper = other ∧ x = y := by
  refine ⟨fun h => ?_, fun ⟨hpepper, hvalue⟩ => by rw [hpepper, hvalue]⟩
  have hx : 0 ∉ Bytes.ofText x.render := Bytes.zero_notMem_ofText x.plain_chars
  have hy : 0 ∉ Bytes.ofText y.render := Bytes.zero_notMem_ofText y.plain_chars
  obtain ⟨hpepper, htext⟩ := Bytes.append_zero_append_inj hx hy h
  exact ⟨hpepper, Value.render_injective (Bytes.ofText_inj htext)⟩

/-- What is hashed differs where the secret or the value does, so that two hashes are the same only for the same
secret and the same value, or where the hash function collides. -/
theorem hashes_apart (v : Vault) (pepper : Bytes) (x y : Value) :
    (hashInput v.pepper x = hashInput pepper y ↔ v.pepper = pepper ∧ x = y) ∧
      (v.hashValue x = { v with pepper := pepper }.hashValue y ↔
        (v.pepper = pepper ∧ x = y) ∨ v.suite.Collides (hashInput v.pepper x) (hashInput pepper y)) := by
  refine ⟨hashInput_eq_iff, fun h => ?_, fun h => ?_⟩
  · by_cases hinput : hashInput v.pepper x = hashInput pepper y
    · exact .inl (hashInput_eq_iff.mp hinput)
    · exact .inr ⟨hinput, Hex.encode_injective h⟩
  · rcases h with ⟨rfl, rfl⟩ | ⟨-, hdigest⟩
    · rfl
    · exact congrArg Hex.encode hdigest

end Vault

end TableGate
