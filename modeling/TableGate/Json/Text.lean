import TableGate.Json.Value

/-!
# JSON text

The compact text of a value: no blank between its parts, and in strings only the quotation mark, the
backslash and the control characters are escaped.
-/

namespace TableGate

namespace Json

def hexDigit (n : Nat) : Char :=
  if n < 10 then Char.ofNat (48 + n) else Char.ofNat (87 + n)

/-- How a character is written inside a string. -/
def escapedChar (c : Char) : List Char :=
  if c = '"' then ['\\', '"']
  else if c = '\\' then ['\\', '\\']
  else if c = '\n' then ['\\', 'n']
  else if c = '\r' then ['\\', 'r']
  else if c = '\t' then ['\\', 't']
  else if c = '\x08' then ['\\', 'b']
  else if c = '\x0c' then ['\\', 'f']
  else if c.toNat < 32 then ['\\', 'u', '0', '0', hexDigit (c.toNat / 16), hexDigit (c.toNat % 16)]
  else [c]

def quoted (s : String) : List Char :=
  '"' :: s.toList.flatMap escapedChar ++ ['"']

def intChars (n : Int) : List Char :=
  if n < 0 then '-' :: Text.digits n.natAbs else Text.digits n.natAbs

end Json

namespace Value

open Json

mutual
/-- The compact text of a value, character by character. -/
def chars : Value → List Char
  | .null => ['n', 'u', 'l', 'l']
  | .bool true => ['t', 'r', 'u', 'e']
  | .bool false => ['f', 'a', 'l', 's', 'e']
  | .int n => intChars n
  | .real x => x.chars
  | .text s => quoted s
  | .array items => '[' :: itemChars items
  | .object entries => '\x7b' :: entryChars entries
/-- The items of an array from the first on, and its closing bracket. -/
def itemChars : List Value → List Char
  | [] => [']']
  | v :: vs => v.chars ++ moreItemChars vs
/-- The items that follow another one, and the closing bracket. -/
def moreItemChars : List Value → List Char
  | [] => [']']
  | v :: vs => ',' :: v.chars ++ moreItemChars vs
/-- The entries of an object from the first on, and its closing brace. -/
def entryChars : List (String × Value) → List Char
  | [] => ['\x7d']
  | (name, v) :: rest => quoted name ++ ':' :: v.chars ++ moreEntryChars rest
/-- The entries that follow another one, and the closing brace. -/
def moreEntryChars : List (String × Value) → List Char
  | [] => ['\x7d']
  | (name, v) :: rest => ',' :: quoted name ++ ':' :: v.chars ++ moreEntryChars rest
end

def render (v : Value) : String :=
  String.ofList v.chars

end Value

end TableGate
