import TableGate.Json.Reader

/-!
# Passing over values

Of a record, only the values of its fields are read. What stands under other names is passed over: it has
to be well-formed, but a number may be of any size, an escaped unit may be half of a character, and there
is no bound on the nesting.
-/

namespace TableGate.Json

/-- The characters that may follow a backslash, the letter `u` aside. -/
def isEscapeLetter (c : Char) : Bool :=
  "\"\\/bfnrt".toList.contains c

/-- Passes over a string behind its opening quotation mark. -/
def skimString : List Char → Option (List Char)
  | '"' :: cs => some cs
  | '\\' :: 'u' :: a :: b :: c :: d :: cs =>
    if [a, b, c, d].all fun c => (hexValue? c).isSome then skimString cs else none
  | '\\' :: c :: cs => if isEscapeLetter c then skimString cs else none
  | c :: cs => if c.toNat < 32 || c = '\\' then none else skimString cs
  | [] => none

/-- What is open around a place in a text: an array or an object. -/
inductive Bracket where
  | array
  | object
  deriving DecidableEq, Repr

/-- What may come next in a text. -/
inductive Expected where
  /-- A value. -/
  | value
  /-- The first item of an array, or its end. -/
  | firstItem
  /-- The first name in an object, or its end. -/
  | firstName
  /-- A further name in an object. -/
  | name
  /-- A comma, or the end of what is open. -/
  | next
  deriving DecidableEq, Repr

/-- Passes over the beginning of a value: all of it, or its opening bracket. -/
def skimHead (opened : List Bracket) : List Char → Option (Expected × List Bracket × List Char)
  | 'n' :: 'u' :: 'l' :: 'l' :: cs => some (.next, opened, cs)
  | 't' :: 'r' :: 'u' :: 'e' :: cs => some (.next, opened, cs)
  | 'f' :: 'a' :: 'l' :: 's' :: 'e' :: cs => some (.next, opened, cs)
  | '"' :: cs => (skimString cs).map fun cs => (.next, opened, cs)
  | '[' :: cs => some (.firstItem, .array :: opened, cs)
  | '\x7b' :: cs => some (.firstName, .object :: opened, cs)
  | cs => (readLiteral cs).map fun (_, cs) => (.next, opened, cs)

/-- Passes over a name in an object and the colon behind it. -/
def skimName (opened : List Bracket) : List Char → Option (Expected × List Bracket × List Char)
  | '"' :: cs => do
    match skipGap (← skimString cs) with
    | ':' :: cs => some (.value, opened, cs)
    | _ => none
  | _ => none

/-- One step through a text, at a place where something is open or a value is expected. -/
def skimStep (expected : Expected) (opened : List Bracket) (cs : List Char) :
    Option (Expected × List Bracket × List Char) :=
  match expected, opened, cs with
  | .value, _, cs => skimHead opened cs
  | .firstItem, .array :: opened, ']' :: cs => some (.next, opened, cs)
  | .firstItem, _, cs => skimHead opened cs
  | .firstName, .object :: opened, '\x7d' :: cs => some (.next, opened, cs)
  | .firstName, _, cs => skimName opened cs
  | .name, _, cs => skimName opened cs
  | .next, .array :: opened, ']' :: cs => some (.next, opened, cs)
  | .next, .object :: opened, '\x7d' :: cs => some (.next, opened, cs)
  | .next, .array :: _, ',' :: cs => some (.value, opened, cs)
  | .next, .object :: _, ',' :: cs => some (.name, opened, cs)
  | .next, _, _ => none

/-- Passes over the rest of a value in at most the given number of steps. -/
def skimWithin : Nat → Expected → List Bracket → List Char → Option (List Char)
  | _, .next, [], cs => some cs
  | 0, _, _, _ => none
  | bound + 1, expected, opened, cs =>
    match skimStep expected opened (skipGap cs) with
    | some (expected, opened, cs) => skimWithin bound expected opened cs
    | none => none

/-- Passes over a value of at most the given number of characters. Every step takes at least one. -/
def skimValue (bound : Nat) (cs : List Char) : Option (List Char) :=
  skimWithin bound .value [] cs

/-- Reads a record with the given field names. Null stands for every value that is passed over. -/
def readRecord (names : List String) (bound : Nat) : Nat → List Char → Option (Value × List Char)
  | nesting + 1, '\x7b' :: cs =>
    readObject bound (fun name cs =>
      if names.contains name then readValue bound nesting cs
      else (skimValue bound cs).map fun cs => (.null, cs)) cs
  | nesting, cs => readValue bound nesting cs

/-- Reads a list of records with the given field names. -/
def readRecords (names : List String) (bound : Nat) : Nat → List Char → Option (Value × List Char)
  | nesting + 1, '[' :: cs => readArray bound (readRecord names bound nesting) cs
  | nesting, cs => readValue bound nesting cs

/-- The value of a text that lists records with the given field names, with the entries of its objects as
they are written. -/
def records? (names : List String) (s : String) : Option Value :=
  readWhole (readRecords names) s

end TableGate.Json
