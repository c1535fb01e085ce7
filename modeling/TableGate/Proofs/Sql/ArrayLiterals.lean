import Mathlib.Data.List.Basic
import TableGate.Text.Ascii

/-! # Lists in braces as Postgres reads them

The text of a list of texts has its elements between braces and a comma between any two of them. Blanks around
an element do not count. An element in double quotes may hold any character, and so does an element behind a
backslash. What has neither and is the word NULL, in any case, is no text. All other words are read as they
stand. -/

namespace TableGate.ArrayLiteral

/-- The blanks that are skipped around elements. -/
def isSpace (c : Char) : Bool :=
  c = ' ' || c = '\t' || c = '\n' || c = '\x0b' || c = '\x0c' || c = '\r'

/-- The word NULL, in any case. -/
def IsNull (cs : List Char) : Prop :=
  cs.map Char.toLower = ['n', 'u', 'l', 'l']

instance (cs : List Char) : Decidable (IsNull cs) :=
  inferInstanceAs (Decidable (_ = _))

/-- What an element without quotes and backslashes stands for. -/
def bareElement (cs : List Char) : Option String :=
  if IsNull cs then none else some (String.ofList cs)

/-- Where a reader stands in a list. What was read of an element is in reverse. -/
inductive Scan where
  /-- In front of an element. -/
  | front
  /-- In an element without quotes, and behind blanks that belong to it only if something follows them. A bare
  element has no backslash so far. -/
  | unquoted (bare : Bool) (read blanks : List Char)
  | quoted (read : List Char)
  /-- Behind a backslash. -/
  | escaped (inQuotes : Bool) (read : List Char)
  /-- Behind the quotes of an element. -/
  | closed (read : List Char)

namespace Scan

/-- Whether a comma or a brace belongs to the element. -/
def isInside : Scan → Bool
  | .quoted _ | .escaped _ _ => true
  | .front | .unquoted _ _ _ | .closed _ => false

/-- Where a character of an element leads, if it may stand there. -/
def next? : Scan → Char → Option Scan
  | .front, c =>
    if isSpace c then some .front
    else if c = '"' then some (.quoted [])
    else if c = '\\' then some (.escaped false [])
    else if c = '\x7b' then none
    else some (.unquoted true [c] [])
  | .unquoted bare read blanks, c =>
    if isSpace c then some (.unquoted bare read (c :: blanks))
    else if c = '\\' then some (.escaped false (blanks ++ read))
    else if c = '"' ∨ c = '\x7b' then none
    else some (.unquoted bare (c :: (blanks ++ read)) [])
  | .quoted read, c =>
    if c = '"' then some (.closed read)
    else if c = '\\' then some (.escaped true read)
    else some (.quoted (c :: read))
  | .escaped true read, c => some (.quoted (c :: read))
  | .escaped false read, c => some (.unquoted false (c :: read) [])
  | .closed read, c => if isSpace c then some (.closed read) else none

/-- The element that ends here, if one may. -/
def element? : Scan → Option (Option String)
  | .unquoted bare read _ =>
    some (if bare then bareElement read.reverse else some (String.ofList read.reverse))
  | .closed read => some (some (String.ofList read.reverse))
  | .front | .quoted _ | .escaped _ _ => none

/-- The elements up to the brace that ends the list. Only blanks may follow it. -/
def elements? : Scan → List Char → Option (List (Option String))
  | _, [] => none
  | s, c :: cs =>
    if !s.isInside && c = ',' then do
      let first ← s.element?
      let rest ← elements? .front cs
      return first :: rest
    else if !s.isInside && c = '\x7d' then
      if cs.all isSpace then s.element?.map fun last => [last] else none
    else do
      elements? (← s.next? c) cs

end Scan

/-- The elements of a list in braces, of which none is a list itself. -/
def elements? (cs : List Char) : Option (List (Option String)) :=
  match cs.dropWhile isSpace with
  | '\x7b' :: inner =>
    match inner.dropWhile isSpace with
    | '\x7d' :: rest => if rest.all isSpace then some [] else none
    | _ => Scan.elements? .front inner
  | _ => none

/-! ## Words in braces -/

/-- The character means nothing to the reader. -/
def Plain (c : Char) : Prop :=
  isSpace c = false ∧ c ∉ ['"', '\\', '\x7b', '\x7d', ',']

theorem plain_of_isWordChar {c : Char} (h : Text.isWordChar c = true) : Plain c := by
  have hne (x : Char) (hx : Text.isWordChar x = false) : c ≠ x := by
    rintro rfl
    simp [hx] at h
  simp only [Plain, isSpace, Bool.or_eq_false_iff, decide_eq_false_iff_not, List.mem_cons, List.not_mem_nil,
    or_false, not_or]
  exact ⟨⟨⟨⟨⟨⟨hne _ (by decide), hne _ (by decide)⟩, hne _ (by decide)⟩, hne _ (by decide)⟩,
    hne _ (by decide)⟩, hne _ (by decide)⟩, hne _ (by decide), hne _ (by decide), hne _ (by decide),
    hne _ (by decide), hne _ (by decide)⟩

namespace Scan

variable {c : Char} {w : List Char}

theorem elements?_plain (h : Plain c) (s : Scan) (cs : List Char) :
    elements? s (c :: cs) = (s.next? c).bind (elements? · cs) := by
  obtain ⟨-, hc⟩ := h
  simp only [List.mem_cons, List.not_mem_nil, or_false, not_or] at hc
  simp [elements?, hc]

theorem next?_front (h : Plain c) : Scan.front.next? c = some (.unquoted true [c] []) := by
  obtain ⟨hspace, hc⟩ := h
  simp only [List.mem_cons, List.not_mem_nil, or_false, not_or] at hc
  simp [next?, hspace, hc]

theorem next?_unquoted (h : Plain c) (bare : Bool) (read : List Char) :
    (Scan.unquoted bare read []).next? c = some (.unquoted bare (c :: read) []) := by
  obtain ⟨hspace, hc⟩ := h
  simp only [List.mem_cons, List.not_mem_nil, or_false, not_or] at hc
  simp [next?, hspace, hc]

theorem elements?_unquoted (h : ∀ c ∈ w, Plain c) (read cs : List Char) :
    elements? (.unquoted true read []) (w ++ cs) = elements? (.unquoted true (w.reverse ++ read) []) cs := by
  induction w generalizing read with
  | nil => rfl
  | cons c w ih =>
      obtain ⟨hc, hw⟩ := List.forall_mem_cons.mp h
      rw [List.cons_append, elements?_plain hc, next?_unquoted hc, Option.bind_some, ih hw, List.reverse_cons,
        List.append_assoc, List.singleton_append]

theorem elements?_front (hne : w ≠ []) (h : ∀ c ∈ w, Plain c) (cs : List Char) :
    elements? .front (w ++ cs) = elements? (.unquoted true w.reverse []) cs := by
  obtain ⟨c, w, rfl⟩ := List.exists_cons_of_ne_nil hne
  obtain ⟨hc, hw⟩ := List.forall_mem_cons.mp h
  rw [List.cons_append, elements?_plain hc, next?_front hc, Option.bind_some, elements?_unquoted hw,
    List.reverse_cons]

/-- Words up to the brace that ends the list are read one after the other. -/
theorem elements?_words {words : List (List Char)} (hne : words ≠ [])
    (h : ∀ w ∈ words, w ≠ [] ∧ ∀ c ∈ w, Plain c) :
    elements? .front ([','].intercalate words ++ ['\x7d']) = some (words.map bareElement) := by
  induction words with
  | nil => exact absurd rfl hne
  | cons w words ih =>
      obtain ⟨⟨hw, hplain⟩, hwords⟩ := List.forall_mem_cons.mp h
      cases words with
      | nil =>
          rw [List.intercalate_singleton, elements?_front hw hplain]
          simp [elements?, isInside, element?]
      | cons v words =>
          rw [List.intercalate_cons_cons, List.append_assoc, List.append_assoc, elements?_front hw hplain,
            List.singleton_append, elements?]
          simp [isInside, element?, ih (List.cons_ne_nil _ _) hwords]

end Scan

/-- A list of words in braces is read as these words. -/
theorem elements?_braces {words : List (List Char)} (hne : words ≠ [])
    (h : ∀ w ∈ words, w ≠ [] ∧ ∀ c ∈ w, Plain c) :
    elements? ('\x7b' :: ([','].intercalate words ++ ['\x7d'])) = some (words.map bareElement) := by
  obtain ⟨w, rest, rfl⟩ := List.exists_cons_of_ne_nil hne
  obtain ⟨c, cs, rfl⟩ := List.exists_cons_of_ne_nil (h w List.mem_cons_self).1
  have hc : Plain c := (h _ List.mem_cons_self).2 c List.mem_cons_self
  have hopen : isSpace '\x7b' = false := by decide
  obtain ⟨more, hinner⟩ : ∃ more, [','].intercalate ((c :: cs) :: rest) ++ ['\x7d'] = c :: more := by
    cases rest with
    | nil => exact ⟨_, by rw [List.intercalate_singleton, List.cons_append]⟩
    | cons v rest => exact ⟨_, by rw [List.intercalate_cons_cons, List.cons_append, List.cons_append, List.cons_append]⟩
  have hread := Scan.elements?_words hne h
  rw [hinner] at hread ⊢
  have hbrace : c ≠ '\x7d' := by
    rintro rfl
    exact hc.2 (by decide)
  rw [elements?, List.dropWhile_cons_of_neg (by simp [hopen])]
  simp only
  rw [List.dropWhile_cons_of_neg (by simp [hc.1])]
  split
  · rename_i heq
    cases heq
    exact absurd rfl hbrace
  · exact hread

/-- What stands in quotes or behind a backslash is not the word NULL. -/
example : elements? "\x7ba, Null,\"null\" ,\\null, \"b\\\",c\"\x7d".toList =
    some [some "a", none, some "null", some "null", some "b\",c"] := by
  decide +kernel

end TableGate.ArrayLiteral
