import Mathlib.Data.Nat.Notation
import TableGate.Text.Ascii

/-! # Letters of ASCII in either case, and digits -/

namespace TableGate.Text

/-- Upper case adds no character that stands before the letters. -/
theorem eq_of_toUpper_eq {c d : Char} (hd : d.toNat < 65) (h : c.toUpper = d) : c = d := by
  unfold Char.toUpper at h
  split at h
  · rename_i hc
    have hlow : 97 ≤ c.val.toNat := UInt32.le_iff_toNat_le.mp hc.1
    have hhigh : c.val.toNat ≤ 122 := UInt32.le_iff_toNat_le.mp hc.2
    have hshift : ('A'.val - 'a'.val).toNat = 2 ^ 32 - 32 := by decide
    rw [← h] at hd
    simp only [Char.toNat] at hd
    rw [UInt32.toNat_add, hshift] at hd
    omega
  · exact h

theorem mem_of_mem_upper {s : String} {c : Char} (hc : c.toNat < 65) (h : c ∈ (upper s).toList) :
    c ∈ s.toList := by
  simp only [upper, String.toList_ofList, List.mem_map] at h
  obtain ⟨b, hb, hbc⟩ := h
  exact eq_of_toUpper_eq hc hbc ▸ hb

/-- Only ASCII letters have an upper case of their own. -/
theorem toUpper_of_le {c : Char} (h : 128 ≤ c.toNat) : c.toUpper = c := by
  unfold Char.toUpper
  rw [dif_neg]
  rintro ⟨-, hhigh⟩
  have hbound : c.toNat ≤ 122 := UInt32.le_iff_toNat_le.mp hhigh
  omega

theorem toLower_of_isDigit {c : Char} (h : c.isDigit = true) : c.toLower = c := by
  unfold Char.toLower
  rw [dif_neg]
  rintro ⟨hlow, -⟩
  simp only [Char.isDigit, Bool.and_eq_true, decide_eq_true_eq] at h
  exact absurd (UInt32.le_trans hlow h.2) (by decide)

theorem toLower_of_le {c : Char} (h : 128 ≤ c.toNat) : c.toLower = c := by
  unfold Char.toLower
  rw [dif_neg]
  rintro ⟨-, hhigh⟩
  have hbound : c.toNat ≤ 90 := UInt32.le_iff_toNat_le.mp hhigh
  omega

theorem toUpper_toLower (c : Char) : c.toLower.toUpper = c.toUpper := by
  rcases Nat.lt_or_ge c.toNat 128 with hc | hc
  · have hall : ∀ n < 128, (Char.ofNat n).toLower.toUpper = (Char.ofNat n).toUpper := by decide
    rw [← Char.ofNat_toNat c]
    exact hall c.toNat hc
  · rw [toLower_of_le hc]

theorem toUpper_of_isDigit {c : Char} (h : c.isDigit = true) : c.toUpper = c := by
  rcases Nat.lt_or_ge c.toNat 128 with hc | hc
  · have hall : ∀ n < 128, (Char.ofNat n).isDigit = true → (Char.ofNat n).toUpper = Char.ofNat n := by
      decide
    simpa using hall c.toNat hc (by simpa using h)
  · exact toUpper_of_le hc

theorem isWordChar_of_isDigit {c : Char} (h : c.isDigit = true) : isWordChar c = true := by
  simp [isWordChar, Char.isAlphanum, h]

theorem isWordChar_toUpper {c : Char} (h : isWordChar c = true) : isWordChar c.toUpper = true := by
  rcases Nat.lt_or_ge c.toNat 128 with hc | hc
  · have hall : ∀ n < 128, isWordChar (Char.ofNat n) = true → isWordChar (Char.ofNat n).toUpper = true := by
      decide
    simpa using hall c.toNat hc (by simpa using h)
  · rwa [toUpper_of_le hc]

end TableGate.Text
