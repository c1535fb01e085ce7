import TableGate.Json.Reader
import TableGate.Json.Text
import TableGate.Proofs.Number.DecimalText
import TableGate.Proofs.Text.Quoted

/-! # The text of a value says which value it is

Two values with the same compact text are the same: what stands in front of a text tells its kind, strings are read
back, the texts of numbers stand for them, and brackets close what they open. -/

namespace TableGate

namespace Json

open Text

/-! ## Strings -/

/-- Reads the next character of a string. -/
def readEscaped : List Char → Option (Char × List Char)
  | [] => none
  | c :: cs => if c = '"' then none else if c = '\\' then readEscape cs else some (c, cs)

theorem hexValue?_hexDigit : ∀ n < 16, hexValue? (hexDigit n) = some n := by
  decide

theorem readEscape_control {c : Char} (h : c.toNat < 32) (rest : List Char) :
    readEscape ('u' :: '0' :: '0' :: hexDigit (c.toNat / 16) :: hexDigit (c.toNat % 16) :: rest) = some (c, rest) := by
  have hzero : hexValue? '0' = some 0 := rfl
  have hunit : readUnit ('0' :: '0' :: hexDigit (c.toNat / 16) :: hexDigit (c.toNat % 16) :: rest) =
      some (c.toNat, rest) := by
    simp only [readUnit, hzero, hexValue?_hexDigit _ (by omega : c.toNat / 16 < 16),
      hexValue?_hexDigit _ (by omega : c.toNat % 16 < 16), bind, Option.bind, pure, Option.some.injEq, Prod.mk.injEq,
      and_true]
    omega
  have hplane : (c.toNat < 0xD800 || 0xDFFF < c.toNat) = true := by
    simp only [Bool.or_eq_true, decide_eq_true_eq]
    omega
  simp only [readEscape, readCodePoint, hunit, bind, Option.bind]
  rw [if_pos hplane]
  simp [pure]

theorem code_escapedChar : Code escapedChar '"' readEscaped where
  read_write c rest := by
    unfold escapedChar
    repeat' split
    on_goal 8 =>
      rename_i hcontrol
      exact readEscape_control hcontrol rest
    all_goals simp [readEscaped, readEscape, *]
  read_close _ := rfl

/-- A string and what follows it are read back. -/
theorem quoted_append_inj {a b : String} {s t : List Char} (h : quoted a ++ s = quoted b ++ t) : a = b ∧ s = t := by
  simp only [quoted, List.cons_append, List.append_assoc, List.nil_append, List.cons.injEq, true_and] at h
  obtain ⟨hchars, hrest⟩ := code_escapedChar.flatMap_append_inj h
  exact ⟨String.toList_inj.mp hchars, hrest⟩

/-! ## Integers -/

theorem isNumeric_of_mem_intChars {n : ℤ} {c : Char} (h : c ∈ intChars n) : c.isDigit = true ∨ c = '-' := by
  unfold intChars at h
  split at h
  · rcases List.mem_cons.mp h with rfl | h
    · exact .inr rfl
    · exact .inl (isDigit_of_mem_digits h)
  · exact .inl (isDigit_of_mem_digits h)

theorem intChars_ne_nil (n : ℤ) : intChars n ≠ [] := by
  unfold intChars
  split
  · simp
  · exact digits_ne_nil _

theorem digits_injective {m n : ℕ} (h : digits m = digits n) : m = n := by
  rw [← appendDigits_digits m, h, appendDigits_digits]

theorem digits_ne_minus (n : ℕ) (rest : List Char) : digits n ≠ '-' :: rest := by
  intro h
  have hminus : '-' ∈ digits n := by simp [h]
  cases isDigit_of_mem_digits hminus

theorem intChars_injective {m n : ℤ} (h : intChars m = intChars n) : m = n := by
  unfold intChars at h
  split at h <;> split at h
  · have habs := digits_injective (List.cons.inj h).2
    omega
  · exact absurd h.symm (digits_ne_minus _ _)
  · exact absurd h (digits_ne_minus _ _)
  · have habs := digits_injective h
    omega

end Json

namespace Value

open Json Text

/-! ## The first character -/

/-- What stands in front of the text of a value, where every numeric character counts as a zero. -/
def front : Value → Char
  | .null => 'n'
  | .bool true => 't'
  | .bool false => 'f'
  | .int _ | .real _ => '0'
  | .text _ => '"'
  | .array _ => '['
  | .object _ => '\x7b'

def frontOf (c : Char) : Char :=
  if isNumeric c then '0' else c

theorem frontOf_numeric {cs : List Char} (hne : cs ≠ []) (h : ∀ c ∈ cs, isNumeric c = true) :
    ∃ c rest, cs = c :: rest ∧ frontOf c = '0' := by
  obtain ⟨c, rest, rfl⟩ := List.exists_cons_of_ne_nil hne
  exact ⟨c, rest, rfl, if_pos (h c List.mem_cons_self)⟩

theorem isNumeric_intChars (n : ℤ) : ∀ c ∈ intChars n, isNumeric c = true := by
  intro c hc
  rcases isNumeric_of_mem_intChars hc with h | rfl
  · exact isNumeric_of_isDigit h
  · rfl

theorem front_chars (v : Value) : ∃ c rest, v.chars = c :: rest ∧ frontOf c = v.front := by
  cases v with
  | null => exact ⟨'n', _, rfl, rfl⟩
  | bool b => cases b with
    | true => exact ⟨'t', _, rfl, rfl⟩
    | false => exact ⟨'f', _, rfl, rfl⟩
  | int n => exact frontOf_numeric (intChars_ne_nil n) (isNumeric_intChars n)
  | real x => exact frontOf_numeric x.chars_ne_nil x.isNumeric_chars
  | text s => exact ⟨'"', _, rfl, rfl⟩
  | array items => exact ⟨'[', _, rfl, rfl⟩
  | object entries => exact ⟨'\x7b', _, rfl, rfl⟩

/-- The values are of one kind, and the same if the kind says which. -/
inductive Alike : Value → Value → Prop
  | null : Alike .null .null
  | bool (b : Bool) : Alike (.bool b) (.bool b)
  | ints (m n : ℤ) : Alike (.int m) (.int n)
  | intReal (n : ℤ) (x : Binary64) : Alike (.int n) (.real x)
  | realInt (x : Binary64) (n : ℤ) : Alike (.real x) (.int n)
  | reals (x y : Binary64) : Alike (.real x) (.real y)
  | texts (a b : String) : Alike (.text a) (.text b)
  | arrays (vs ws : List Value) : Alike (.array vs) (.array ws)
  | objects (xs ys : List (String × Value)) : Alike (.object xs) (.object ys)

theorem alike_of_front {v w : Value} (h : v.front = w.front) : Alike v w := by
  rcases v with _ | (_ | _) | _ | _ | _ | _ | _ <;> rcases w with _ | (_ | _) | _ | _ | _ | _ | _ <;>
    first
      | constructor
      | simp [front] at h

/-- Values whose texts may begin the same are alike. -/
theorem alike_of_append {v w : Value} {s t : List Char} (h : v.chars ++ s = w.chars ++ t) : Alike v w := by
  obtain ⟨c, rest, hv, hc⟩ := v.front_chars
  obtain ⟨d, rest', hw, hd⟩ := w.front_chars
  rw [hv, hw, List.cons_append, List.cons_append, List.cons.injEq] at h
  refine alike_of_front ?_
  rw [← hc, ← hd, h.1]

theorem front_mem (v : Value) : v.front ∈ ['n', 't', 'f', '0', '"', '[', '\x7b'] := by
  cases v with
  | bool b => cases b <;> simp [front]
  | _ => simp [front]

/-- No value is written with a closing bracket or a separator in front. -/
theorem chars_append_ne {v : Value} {c : Char} (hc : c ∈ [']', '\x7d', ',']) {s t : List Char} :
    v.chars ++ s ≠ c :: t := by
  intro h
  obtain ⟨d, rest, hv, hd⟩ := v.front_chars
  rw [hv, List.cons_append, List.cons.injEq] at h
  have hmem := v.front_mem
  have hnone : ∀ c ∈ [']', '\x7d', ','], frontOf c ∉ ['n', 't', 'f', '0', '"', '[', '\x7b'] := by
    simp [frontOf, isNumeric]
  rw [← hd, h.1] at hmem
  exact hnone c hc hmem

/-! ## Numbers -/

/-- The text does not go on with a character of numbers. -/
def Ended (s : List Char) : Prop :=
  ∀ c rest, s = c :: rest → isNumeric c = false

theorem takeWhile_append_ended {cs s : List Char} (hcs : ∀ c ∈ cs, isNumeric c = true) (hs : Ended s) :
    (cs ++ s).takeWhile isNumeric = cs := by
  rw [List.takeWhile_append_of_pos hcs]
  cases s with
  | nil => simp
  | cons c rest => rw [List.takeWhile_cons_of_neg (by simp [hs c rest rfl]), List.append_nil]

/-- The texts of two numbers are separated from what follows them. -/
theorem numeric_append_inj {cs ds s t : List Char} (hcs : ∀ c ∈ cs, isNumeric c = true)
    (hds : ∀ c ∈ ds, isNumeric c = true) (hs : Ended s) (ht : Ended t) (h : cs ++ s = ds ++ t) : cs = ds ∧ s = t := by
  have hfront : cs = ds := by rw [← takeWhile_append_ended hcs hs, h, takeWhile_append_ended hds ht]
  exact ⟨hfront, List.append_cancel_left (hfront ▸ h)⟩

theorem intChars_ne_chars (n : ℤ) (x : Binary64) : intChars n ≠ x.chars := by
  intro h
  have hplain : ∀ c ∈ x.chars, c.isDigit = true ∨ c = '-' := h ▸ fun c => isNumeric_of_mem_intChars
  rcases x.marked_chars with hmem | hmem
  · exact absurd (hplain _ hmem) (by decide)
  · exact absurd (hplain _ hmem) (by decide)

/-! ## Values -/

theorem ended_cons {c : Char} (hc : isNumeric c = false) (s : List Char) : Ended (c :: s) := by
  intro d rest h
  rwa [← (List.cons.inj h).1]

theorem ended_moreItemChars (vs : List Value) (s : List Char) : Ended (moreItemChars vs ++ s) := by
  cases vs with
  | nil => exact ended_cons rfl s
  | cons v vs => exact ended_cons rfl _

theorem ended_moreEntryChars (entries : List (String × Value)) (s : List Char) :
    Ended (moreEntryChars entries ++ s) := by
  cases entries with
  | nil => exact ended_cons rfl s
  | cons entry rest => exact ended_cons rfl _

mutual

/-- A value and what follows it are read back, unless the text goes on with a character of numbers. -/
theorem chars_append_inj : ∀ (v w : Value) {s t : List Char}, Ended s → Ended t →
    v.chars ++ s = w.chars ++ t → v = w ∧ s = t
  | .null, _, _, _, _, _, h => by
      cases alike_of_append h
      exact ⟨rfl, List.append_cancel_left h⟩
  | .bool _, _, _, _, _, _, h => by
      cases alike_of_append h
      exact ⟨rfl, List.append_cancel_left h⟩
  | .int m, _, _, _, hs, ht, h => by
      cases alike_of_append h with
      | ints m n =>
          obtain ⟨hchars, hrest⟩ := numeric_append_inj (isNumeric_intChars m) (isNumeric_intChars n) hs ht h
          exact ⟨congrArg int (intChars_injective hchars), hrest⟩
      | intReal m x =>
          obtain ⟨hchars, -⟩ := numeric_append_inj (isNumeric_intChars m) x.isNumeric_chars hs ht h
          exact absurd hchars (intChars_ne_chars m x)
  | .real x, _, _, _, hs, ht, h => by
      cases alike_of_append h with
      | realInt x n =>
          obtain ⟨hchars, -⟩ := numeric_append_inj x.isNumeric_chars (isNumeric_intChars n) hs ht h
          exact absurd hchars.symm (intChars_ne_chars n x)
      | reals x y =>
          obtain ⟨hchars, hrest⟩ := numeric_append_inj x.isNumeric_chars y.isNumeric_chars hs ht h
          exact ⟨congrArg real (Binary64.chars_injective hchars), hrest⟩
  | .text _, _, _, _, _, _, h => by
      cases alike_of_append h
      obtain ⟨rfl, hrest⟩ := quoted_append_inj h
      exact ⟨rfl, hrest⟩
  | .array vs, _, _, _, _, _, h => by
      cases alike_of_append h with
      | arrays _ ws =>
          obtain ⟨rfl, hrest⟩ := itemChars_append_inj vs ws (List.cons.inj h).2
          exact ⟨rfl, hrest⟩
  | .object xs, _, _, _, _, _, h => by
      cases alike_of_append h with
      | objects _ ys =>
          obtain ⟨rfl, hrest⟩ := entryChars_append_inj xs ys (List.cons.inj h).2
          exact ⟨rfl, hrest⟩

theorem itemChars_append_inj : ∀ (vs ws : List Value) {s t : List Char},
    itemChars vs ++ s = itemChars ws ++ t → vs = ws ∧ s = t
  | [], [], _, _, h => ⟨rfl, (List.cons.inj h).2⟩
  | [], w :: ws, _, _, h => by
      rw [itemChars, itemChars, List.append_assoc] at h
      exact absurd h.symm (chars_append_ne (by simp))
  | v :: vs, [], _, _, h => by
      rw [itemChars, itemChars, List.append_assoc] at h
      exact absurd h (chars_append_ne (by simp))
  | v :: vs, w :: ws, s, t, h => by
      rw [itemChars, itemChars, List.append_assoc, List.append_assoc] at h
      obtain ⟨rfl, hrest⟩ := chars_append_inj v w (ended_moreItemChars vs s) (ended_moreItemChars ws t) h
      obtain ⟨rfl, rfl⟩ := moreItemChars_append_inj vs ws hrest
      exact ⟨rfl, rfl⟩

theorem moreItemChars_append_inj : ∀ (vs ws : List Value) {s t : List Char},
    moreItemChars vs ++ s = moreItemChars ws ++ t → vs = ws ∧ s = t
  | [], [], _, _, h => ⟨rfl, (List.cons.inj h).2⟩
  | [], _ :: _, _, _, h => absurd (List.cons.inj h).1 (by decide)
  | _ :: _, [], _, _, h => absurd (List.cons.inj h).1 (by decide)
  | v :: vs, w :: ws, s, t, h => by
      simp only [moreItemChars, List.cons_append, List.append_assoc, List.cons.injEq, true_and] at h
      obtain ⟨rfl, hrest⟩ := chars_append_inj v w (ended_moreItemChars vs s) (ended_moreItemChars ws t) h
      obtain ⟨rfl, rfl⟩ := moreItemChars_append_inj vs ws hrest
      exact ⟨rfl, rfl⟩

theorem entryChars_append_inj : ∀ (xs ys : List (String × Value)) {s t : List Char},
    entryChars xs ++ s = entryChars ys ++ t → xs = ys ∧ s = t
  | [], [], _, _, h => ⟨rfl, (List.cons.inj h).2⟩
  | [], _ :: _, _, _, h => absurd (List.cons.inj h).1 (by decide)
  | _ :: _, [], _, _, h => absurd (List.cons.inj h).1 (by decide)
  | (a, v) :: xs, (b, w) :: ys, s, t, h => by
      simp only [entryChars, List.cons_append, List.append_assoc] at h
      obtain ⟨rfl, hvalue⟩ := quoted_append_inj h
      obtain ⟨rfl, hrest⟩ := chars_append_inj v w (ended_moreEntryChars xs s) (ended_moreEntryChars ys t)
        (List.cons.inj hvalue).2
      obtain ⟨rfl, rfl⟩ := moreEntryChars_append_inj xs ys hrest
      exact ⟨rfl, rfl⟩

theorem moreEntryChars_append_inj : ∀ (xs ys : List (String × Value)) {s t : List Char},
    moreEntryChars xs ++ s = moreEntryChars ys ++ t → xs = ys ∧ s = t
  | [], [], _, _, h => ⟨rfl, (List.cons.inj h).2⟩
  | [], _ :: _, _, _, h => absurd (List.cons.inj h).1 (by decide)
  | _ :: _, [], _, _, h => absurd (List.cons.inj h).1 (by decide)
  | (a, v) :: xs, (b, w) :: ys, s, t, h => by
      simp only [moreEntryChars, List.cons_append, List.append_assoc, List.cons.injEq, true_and] at h
      obtain ⟨rfl, hvalue⟩ := quoted_append_inj h
      obtain ⟨rfl, hrest⟩ := chars_append_inj v w (ended_moreEntryChars xs s) (ended_moreEntryChars ys t)
        (List.cons.inj hvalue).2
      obtain ⟨rfl, rfl⟩ := moreEntryChars_append_inj xs ys hrest
      exact ⟨rfl, rfl⟩

end

/-- Values with the same text are the same. -/
theorem render_injective {v w : Value} (h : v.render = w.render) : v = w := by
  have hended : Ended [] := fun _ _ h => by cases h
  refine (chars_append_inj v w hended hended ?_).1
  rw [List.append_nil, List.append_nil]
  exact String.ofList_injective h

/-! ## No control character stands in a text -/

/-- The characters are none of the control characters. -/
def Plain (cs : List Char) : Prop :=
  ∀ c ∈ cs, 32 ≤ c.toNat

instance (cs : List Char) : Decidable (Plain cs) :=
  List.decidableBAll _ cs

theorem plain_append {cs ds : List Char} : Plain (cs ++ ds) ↔ Plain cs ∧ Plain ds :=
  List.forall_mem_append

theorem plain_cons {c : Char} {cs : List Char} : Plain (c :: cs) ↔ 32 ≤ c.toNat ∧ Plain cs :=
  List.forall_mem_cons

theorem plain_of_isNumeric {cs : List Char} (h : ∀ c ∈ cs, isNumeric c = true) : Plain cs := by
  intro c hc
  have hnumeric := h c hc
  simp only [isNumeric, Bool.or_eq_true, beq_iff_eq] at hnumeric
  rcases hnumeric with (((hdigit | rfl) | rfl) | rfl) | rfl
  · exact (by decide : 32 ≤ 48).trans (Char.isDigit_iff_toNat.mp hdigit).1
  all_goals decide

theorem plain_escapedChar (c : Char) : Plain (escapedChar c) := by
  have hdigit : ∀ n < 16, 32 ≤ (hexDigit n).toNat := by decide
  unfold escapedChar
  repeat' split
  on_goal 8 =>
    simp only [plain_cons]
    exact ⟨by decide, by decide, by decide, by decide, hdigit _ (by omega), hdigit _ (by omega), by decide⟩
  on_goal 8 =>
    rename_i hcontrol
    exact plain_cons.mpr ⟨Nat.not_lt.mp hcontrol, by decide⟩
  all_goals decide

theorem plain_quoted (s : String) : Plain (Json.quoted s) := by
  have hchars : Plain (s.toList.flatMap escapedChar) := by
    intro c hc
    obtain ⟨d, -, hd⟩ := List.mem_flatMap.mp hc
    exact plain_escapedChar d c hd
  exact plain_append.mpr ⟨plain_cons.mpr ⟨by decide, hchars⟩, by simp [Plain]⟩

mutual

theorem plain_chars : ∀ v : Value, Plain v.chars
  | .null => by decide
  | .bool true => by decide
  | .bool false => by decide
  | .int n => plain_of_isNumeric (isNumeric_intChars n)
  | .real x => plain_of_isNumeric x.isNumeric_chars
  | .text s => plain_quoted s
  | .array items => plain_cons.mpr ⟨by decide, plain_itemChars items⟩
  | .object entries => plain_cons.mpr ⟨by decide, plain_entryChars entries⟩

theorem plain_itemChars : ∀ vs : List Value, Plain (itemChars vs)
  | [] => by decide
  | v :: vs => plain_append.mpr ⟨plain_chars v, plain_moreItemChars vs⟩

theorem plain_moreItemChars : ∀ vs : List Value, Plain (moreItemChars vs)
  | [] => by decide
  | v :: vs => plain_append.mpr ⟨plain_cons.mpr ⟨by decide, plain_chars v⟩, plain_moreItemChars vs⟩

theorem plain_entryChars : ∀ entries : List (String × Value), Plain (entryChars entries)
  | [] => by decide
  | (name, v) :: rest => by
      have hvalue : Plain (':' :: v.chars) := plain_cons.mpr ⟨by decide, plain_chars v⟩
      exact plain_append.mpr ⟨plain_append.mpr ⟨plain_quoted name, hvalue⟩, plain_moreEntryChars rest⟩

theorem plain_moreEntryChars : ∀ entries : List (String × Value), Plain (moreEntryChars entries)
  | [] => by decide
  | (name, v) :: rest => by
      have hvalue : Plain (':' :: v.chars) := plain_cons.mpr ⟨by decide, plain_chars v⟩
      have hname : Plain (',' :: Json.quoted name) := plain_cons.mpr ⟨by decide, plain_quoted name⟩
      exact plain_append.mpr ⟨plain_append.mpr ⟨hname, hvalue⟩, plain_moreEntryChars rest⟩

end

end Value

end TableGate
