import TableGate.Json.Value
import TableGate.Number.Literal

/-!
# Reading JSON text

A reader of JSON text. It accepts a value nested at most 127 deep with blanks around it, and nothing
else.
-/

namespace TableGate.Json

/-- The blanks that may stand between the parts of a text. -/
def isGap (c : Char) : Bool :=
  c == ' ' || c == '\n' || c == '\t' || c == '\r'

def skipGap (cs : List Char) : List Char :=
  cs.dropWhile isGap

def hexValue? (c : Char) : Option Nat :=
  if '0' ≤ c && c ≤ '9' then some (c.toNat - 48)
  else if 'a' ≤ c && c ≤ 'f' then some (c.toNat - 87)
  else if 'A' ≤ c && c ≤ 'F' then some (c.toNat - 55)
  else none

def readUnit : List Char → Option (Nat × List Char)
  | a :: b :: c :: d :: cs => do
    let a ← hexValue? a
    let b ← hexValue? b
    let c ← hexValue? c
    let d ← hexValue? d
    return (((a * 16 + b) * 16 + c) * 16 + d, cs)
  | _ => none

/-- Reads what follows a backslash and the letter `u`: one unit, or the two units of a character
beyond the basic plane. -/
def readCodePoint (cs : List Char) : Option (Char × List Char) := do
  let (high, cs) ← readUnit cs
  if high < 0xD800 || 0xDFFF < high then
    return (Char.ofNat high, cs)
  else if 0xDBFF < high then
    none
  else
    match cs with
    | '\\' :: 'u' :: cs =>
      let (low, cs) ← readUnit cs
      if 0xDC00 ≤ low && low ≤ 0xDFFF then
        return (Char.ofNat (0x10000 + (high - 0xD800) * 1024 + (low - 0xDC00)), cs)
      else
        none
    | _ => none

def readEscape : List Char → Option (Char × List Char)
  | '"' :: cs => some ('"', cs)
  | '\\' :: cs => some ('\\', cs)
  | '/' :: cs => some ('/', cs)
  | 'b' :: cs => some ('\x08', cs)
  | 'f' :: cs => some ('\x0c', cs)
  | 'n' :: cs => some ('\n', cs)
  | 'r' :: cs => some ('\r', cs)
  | 't' :: cs => some ('\t', cs)
  | 'u' :: cs => readCodePoint cs
  | _ => none

/-- Reads the characters of a string behind its opening quotation mark, at most the given number of
them. -/
def readChars : Nat → List Char → Option (List Char × List Char)
  | 0, _ => none
  | _, [] => none
  | bound + 1, c :: cs =>
    if c = '"' then some ([], cs)
    else if c = '\\' then do
      let (c, cs) ← readEscape cs
      let (rest, cs) ← readChars bound cs
      return (c :: rest, cs)
    else if c.toNat < 32 then none
    else do
      let (rest, cs) ← readChars bound cs
      return (c :: rest, cs)

def readString (bound : Nat) (cs : List Char) : Option (String × List Char) :=
  (readChars bound cs).map fun (s, cs) => (String.ofList s, cs)

def readFraction : List Char → Option (Option (List Char) × List Char)
  | '.' :: cs =>
    let ds := cs.takeWhile Char.isDigit
    if ds.isEmpty then none else some (some ds, cs.dropWhile Char.isDigit)
  | cs => some (none, cs)

def readExponent : List Char → Option ((Option (Bool × List Char)) × List Char)
  | [] => some (none, [])
  | c :: cs =>
    if c = 'e' || c = 'E' then
      let (down, cs) := match cs with
        | '+' :: cs => (false, cs)
        | '-' :: cs => (true, cs)
        | cs => (false, cs)
      let ds := cs.takeWhile Char.isDigit
      if ds.isEmpty then none else some (some (down, ds), cs.dropWhile Char.isDigit)
    else
      some (none, c :: cs)

/-- Reads the text of a number. A zero is followed by no further digit of the whole part. -/
def readLiteral (cs : List Char) : Option (NumberLiteral × List Char) := do
  let (negative, cs) := match cs with
    | '-' :: cs => (true, cs)
    | cs => (false, cs)
  let whole := cs.takeWhile Char.isDigit
  let cs := cs.dropWhile Char.isDigit
  if whole.isEmpty || (whole.head? == some '0' && 1 < whole.length) then none
  else
    let (fraction, cs) ← readFraction cs
    let (exponent, cs) ← readExponent cs
    return (⟨negative, whole, fraction, exponent⟩, cs)

def readNumber (cs : List Char) : Option (Value × List Char) := do
  let (literal, cs) ← readLiteral cs
  match literal.value? with
  | some (.inl n) => return (.int n, cs)
  | some (.inr x) => return (.real x, cs)
  | none => none

/-- Reads the items of an array behind its opening bracket, at most the given number of them. -/
def readItems (readOne : List Char → Option (Value × List Char)) : Nat → List Char → Option (List Value × List Char)
  | 0, _ => none
  | bound + 1, cs => do
    let (v, cs) ← readOne (skipGap cs)
    match skipGap cs with
    | ']' :: cs => return ([v], cs)
    | ',' :: cs =>
      let (vs, cs) ← readItems readOne bound cs
      return (v :: vs, cs)
    | _ => none

/-- Reads the entries of an object behind its opening brace, at most the given number of them. How a value
is read may depend on its name. -/
def readEntries (readName : List Char → Option (String × List Char))
    (readUnder : String → List Char → Option (Value × List Char)) :
    Nat → List Char → Option ((List (String × Value)) × List Char)
  | 0, _ => none
  | bound + 1, cs => do
    match skipGap cs with
    | '"' :: cs =>
      let (name, cs) ← readName cs
      match skipGap cs with
      | ':' :: cs =>
        let (v, cs) ← readUnder name (skipGap cs)
        match skipGap cs with
        | '\x7d' :: cs => return ([(name, v)], cs)
        | ',' :: cs =>
          let (rest, cs) ← readEntries readName readUnder bound cs
          return ((name, v) :: rest, cs)
        | _ => none
      | _ => none
    | _ => none

def readArray (bound : Nat) (readOne : List Char → Option (Value × List Char)) (cs : List Char) :
    Option (Value × List Char) :=
  match skipGap cs with
  | ']' :: cs => some (.array [], cs)
  | cs => (readItems readOne bound cs).map fun (vs, cs) => (.array vs, cs)

def readObject (bound : Nat) (readUnder : String → List Char → Option (Value × List Char))
    (cs : List Char) : Option (Value × List Char) :=
  match skipGap cs with
  | '\x7d' :: cs => some (.object [], cs)
  | cs => (readEntries (readString bound) readUnder bound cs).map fun (es, cs) => (.object es, cs)

/-- Reads a value in whose text at most the given number of brackets and braces are open at once. The
entries of an object keep their order and their repetitions. The bound is a number of characters that the
text does not exceed. -/
def readValue (bound : Nat) : Nat → List Char → Option (Value × List Char)
  | _, 'n' :: 'u' :: 'l' :: 'l' :: cs => some (.null, cs)
  | _, 't' :: 'r' :: 'u' :: 'e' :: cs => some (.bool true, cs)
  | _, 'f' :: 'a' :: 'l' :: 's' :: 'e' :: cs => some (.bool false, cs)
  | _, '"' :: cs => (readString bound cs).map fun (s, cs) => (.text s, cs)
  | nesting + 1, '[' :: cs => readArray bound (readValue bound nesting) cs
  | nesting + 1, '\x7b' :: cs => readObject bound (fun _ => readValue bound nesting) cs
  | _, cs => readNumber cs

def maxNesting : Nat := 127

/-- What is read from a whole text, which holds nothing else but blanks around it. The reader is told how
many characters there are, and how many brackets and braces may be open. -/
def readWhole (read : Nat → Nat → List Char → Option (Value × List Char)) (s : String) : Option Value :=
  let cs := s.toList
  match read cs.length maxNesting (skipGap cs) with
  | some (v, rest) => if (skipGap rest).isEmpty then some v else none
  | none => none

/-- The value of a text, with the entries of its objects as they are written. Objects that stand for embedded
texts are still among them; a text is read for use by `Json.parse?`, which settles the value. -/
def document? (s : String) : Option Value :=
  readWhole readValue s

end TableGate.Json
