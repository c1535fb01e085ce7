import Mathlib.Data.Nat.Notation
import TableGate.Bytes.Hex
import TableGate.Text.Quoted

/-! # Texts written character by character

Where the code of a character can be read off the front of a text, and no code begins with the closing character, what
was written is read back. The code of quoted text is one of these. -/

namespace TableGate.Text

/-- A text is written character by character and closed, and the reader finds the next character of it. -/
structure Code (write : Char → List Char) (close : Char) (read : List Char → Option (Char × List Char)) : Prop where
  read_write : ∀ c rest, read (write c ++ rest) = some (c, rest)
  read_close : ∀ rest, read (close :: rest) = none

variable {write : Char → List Char} {close : Char} {read : List Char → Option (Char × List Char)}

/-- The text and what follows it are read back. -/
theorem Code.flatMap_append_inj (h : Code write close read) {xs ys s t : List Char}
    (heq : xs.flatMap write ++ close :: s = ys.flatMap write ++ close :: t) : xs = ys ∧ s = t := by
  induction xs generalizing ys with
  | nil =>
      cases ys with
      | nil => exact ⟨rfl, (List.cons.inj heq).2⟩
      | cons y ys =>
          have hread := h.read_close s
          rw [List.flatMap_nil, List.nil_append, List.flatMap_cons, List.append_assoc] at heq
          rw [heq, h.read_write] at hread
          cases hread
  | cons x xs ih =>
      have hread := h.read_write x (xs.flatMap write ++ close :: s)
      rw [List.flatMap_cons, List.append_assoc] at heq
      rw [heq] at hread
      cases ys with
      | nil =>
          rw [List.flatMap_nil, List.nil_append, h.read_close] at hread
          cases hread
      | cons y ys =>
          rw [List.flatMap_cons, List.append_assoc, h.read_write] at hread
          obtain ⟨hhead, htail⟩ := Prod.mk.inj (Option.some.inj hread)
          obtain ⟨hrest, hs⟩ := ih htail.symm
          exact ⟨by rw [hhead, hrest], hs⟩

/-! ## Quoted text -/

/-- The number with a hexadecimal digit behind it. -/
def appendHexDigit (n : ℕ) (c : Char) : ℕ :=
  16 * n + (Hex.value? c).getD 0

/-- Reads the next character of a quoted text. -/
def readQuotedChar : List Char → Option (Char × List Char)
  | '\\' :: '"' :: cs => some ('"', cs)
  | '\\' :: '\\' :: cs => some ('\\', cs)
  | '\\' :: 'n' :: cs => some ('\n', cs)
  | '\\' :: 'r' :: cs => some ('\r', cs)
  | '\\' :: 't' :: cs => some ('\t', cs)
  | '\\' :: '0' :: cs => some ('\x00', cs)
  | '\\' :: 'u' :: '\x7b' :: cs =>
    some (Char.ofNat ((cs.takeWhile (· != '\x7d')).foldl appendHexDigit 0), (cs.dropWhile (· != '\x7d')).drop 1)
  | '"' :: _ => none
  | c :: cs => some (c, cs)
  | [] => none

theorem hexDigit_spec : ∀ d < 16, Hex.value? (Char.ofNat (if d < 10 then 48 + d else 87 + d)) = some d ∧
    Char.ofNat (if d < 10 then 48 + d else 87 + d) ≠ '\x7d' := by
  decide

theorem foldl_hexDigits (n : ℕ) : (hexDigits n).foldl appendHexDigit 0 = n := by
  induction n using hexDigits.induct with
  | case1 n hn =>
      rw [hexDigits, if_pos hn]
      simp [appendHexDigit, (hexDigit_spec n hn).1]
  | case2 n hn ih =>
      have hmod : n % 16 < 16 := Nat.mod_lt n (by omega)
      rw [hexDigits, if_neg hn, List.foldl_append, ih]
      simp only [List.foldl_cons, List.foldl_nil, appendHexDigit, (hexDigit_spec _ hmod).1, Option.getD_some]
      omega

theorem ne_brace_of_mem_hexDigits {n : ℕ} {c : Char} (h : c ∈ hexDigits n) : c ≠ '\x7d' := by
  induction n using hexDigits.induct with
  | case1 n hn =>
      rw [hexDigits, if_pos hn] at h
      rw [List.mem_singleton.mp h]
      exact (hexDigit_spec n hn).2
  | case2 n hn ih =>
      rw [hexDigits, if_neg hn] at h
      rcases List.mem_append.mp h with h | h
      · exact ih h
      · rw [List.mem_singleton.mp h]
        exact (hexDigit_spec _ (Nat.mod_lt n (by omega))).2

theorem readQuotedChar_unprintable (c : Char) (rest : List Char) :
    readQuotedChar (['\\', 'u', '\x7b'] ++ hexDigits c.toNat ++ ['\x7d'] ++ rest) = some (c, rest) := by
  have hne : ∀ d ∈ hexDigits c.toNat, (d != '\x7d') = true := fun d hd => bne_iff_ne.mpr (ne_brace_of_mem_hexDigits hd)
  simp only [List.append_assoc, List.cons_append, List.nil_append, readQuotedChar,
    List.takeWhile_append_of_pos hne, List.dropWhile_append_of_pos hne]
  simp [foldl_hexDigits]

theorem readQuotedChar_plain {c : Char} (hquote : c ≠ '"') (hslash : c ≠ '\\') (rest : List Char) :
    readQuotedChar (c :: rest) = some (c, rest) := by
  unfold readQuotedChar
  split <;> simp_all

theorem code_quotedChar : Code quotedChar '"' readQuotedChar where
  read_write c rest := by
    unfold quotedChar
    split
    · rfl
    · rfl
    · rfl
    · rfl
    · rfl
    · rfl
    · rename_i hquote hslash _ _ _ _
      split
      · exact readQuotedChar_unprintable c rest
      · exact readQuotedChar_plain hquote hslash rest
  read_close _ := rfl

/-- A quoted text says which text it quotes. -/
theorem quoted_injective {s t : String} (h : quoted s = quoted t) : s = t := by
  have hchars := (List.cons.inj (String.ofList_injective h)).2
  exact String.toList_inj.mp (code_quotedChar.flatMap_append_inj hchars).1

end TableGate.Text
