import TableGate.Text.Blank

/-!
# Cutting text

Text cut at single characters or at a separator: into all its pieces, or in two at the first or the
last place.
-/

namespace TableGate.Text

/-- The pieces between the characters marked by `p`. A text without such a character is one piece. -/
def pieces (p : Char → Bool) : List Char → List (List Char)
  | [] => [[]]
  | c :: cs =>
    if p c then
      [] :: pieces p cs
    else
      match pieces p cs with
      | [] => [[c]]
      | first :: rest => (c :: first) :: rest

/-- The maximal runs of characters that are not blank. -/
def wordsOf (cs : List Char) : List (List Char) :=
  (pieces isBlank cs).filter fun word => !word.isEmpty

def words (s : String) : List String :=
  (wordsOf s.toList).map String.ofList

/-- What stands before and after the first character marked by `p`. -/
def cut? (p : Char → Bool) : List Char → Option (List Char × List Char)
  | [] => none
  | c :: cs => if p c then some ([], cs) else (cut? p cs).map fun (before, after) => (c :: before, after)

/-- What stands before and after the last character marked by `p`. -/
def cutLast? (p : Char → Bool) (cs : List Char) : Option (List Char × List Char) :=
  (cut? p cs.reverse).map fun (after, before) => (before.reverse, after.reverse)

/-- What remains of the characters after the given opening. -/
def after? : List Char → List Char → Option (List Char)
  | [], cs => some cs
  | _ :: _, [] => none
  | o :: os, c :: cs => if o = c then after? os cs else none

/-- What stands before and after the first occurrence of a separator. -/
def cutAt? (separator : List Char) : List Char → Option (List Char × List Char)
  | [] => if separator.isEmpty then some ([], []) else none
  | c :: cs =>
    match after? separator (c :: cs) with
    | some rest => some ([], rest)
    | none => (cutAt? separator cs).map fun (before, after) => (c :: before, after)

/-- Whether the characters of `part` stand somewhere in `cs`, one after the other. -/
def occursIn (part cs : List Char) : Bool :=
  (cutAt? part cs).isSome

/-- The text with every occurrence of `part`, found from left to right, replaced. The count of
characters still to be skipped belongs to the occurrence just replaced. -/
def replaceFrom (part replacement : List Char) : Nat → List Char → List Char
  | _, [] => []
  | skip + 1, _ :: cs => replaceFrom part replacement skip cs
  | 0, c :: cs =>
    if (after? part (c :: cs)).isSome then
      replacement ++ replaceFrom part replacement (part.length - 1) cs
    else
      c :: replaceFrom part replacement 0 cs

/-- The text with every occurrence of the non-empty `part` replaced, from left to right. -/
def replace (part replacement cs : List Char) : List Char :=
  replaceFrom part replacement 0 cs

end TableGate.Text
