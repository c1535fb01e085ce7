import TableGate.Proofs.Failure
import TableGate.Proofs.Text.Decimal
import TableGate.Sql.Template

/-! # Marks of parameters

The marks are found in the text of a statement by a scan that knows nothing of templates. A template
whose fixed text holds no mark, and in which no digit follows a parameter, is printed with the marks of
its parameters alone, numbered from left to right. -/

namespace TableGate

namespace Dialect

/-- The character that opens the mark of a parameter. -/
def markChar : Dialect → Char
  | .postgres => '$'
  | .mysql => '?'
  | .sqlite => '?'

/-- The mark that opens before the given characters: only PostgreSQL takes the digits that follow. -/
def markBefore (d : Dialect) (cs : List Char) : String :=
  match d with
  | .postgres => String.ofList ('$' :: cs.takeWhile Char.isDigit)
  | .mysql => "?"
  | .sqlite => "?"

/-- The marks of parameters in a text, from left to right. -/
def marks (d : Dialect) : List Char → List String
  | [] => []
  | c :: cs => if c = d.markChar then d.markBefore cs :: marks d cs else marks d cs

theorem marks_append_of_notMem (d : Dialect) {front : List Char} (h : d.markChar ∉ front)
    (cs : List Char) : d.marks (front ++ cs) = d.marks cs := by
  induction front with
  | nil => rfl
  | cons c front ih =>
      have hc : c ≠ d.markChar := fun heq => h (by simp [heq])
      simp only [List.cons_append, marks, if_neg hc]
      exact ih fun hmem => h (by simp [hmem])

end Dialect

/-- The characters do not open with a digit. -/
def NoDigitFirst (cs : List Char) : Prop :=
  ∀ c ∈ cs.head?, c.isDigit = false

theorem takeWhile_digits_append (n : ℕ) {cs : List Char} (h : NoDigitFirst cs) :
    (Text.digits n ++ cs).takeWhile Char.isDigit = Text.digits n := by
  rw [List.takeWhile_append_of_pos fun c hc => Text.isDigit_of_mem_digits hc]
  cases cs with
  | nil => simp
  | cons c cs => simp [h c (by simp)]

namespace Dialect

/-- The mark of a position is found where it stands, unless a digit follows it. -/
theorem marks_placeholder_append (d : Dialect) (n : ℕ) {cs : List Char} (h : NoDigitFirst cs) :
    d.marks ((d.placeholder n).toList ++ cs) = d.placeholder n :: d.marks cs := by
  cases d with
  | postgres =>
      have hdigits : Dialect.postgres.markChar ∉ Text.digits n := fun hmem =>
        absurd (Text.isDigit_of_mem_digits hmem) (by decide)
      have hchars : (Dialect.postgres.placeholder n).toList = '$' :: Text.digits n := by
        simp [placeholder, Text.ofNat]
      have hmark : '$' = Dialect.postgres.markChar := rfl
      rw [hchars, List.cons_append, marks, if_pos hmark, marks_append_of_notMem _ hdigits,
        markBefore, takeWhile_digits_append n h, ← hchars, String.ofList_toList]
  | mysql => simp [placeholder, marks, markChar, markBefore]
  | sqlite => simp [placeholder, marks, markChar, markBefore]

end Dialect

end TableGate
