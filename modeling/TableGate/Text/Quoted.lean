import TableGate.Text.Unprintable

/-!
# Quoted text

A text as it is shown in descriptions of settings: between double quotes, with escapes for the
characters that cannot stand in it.
-/

namespace TableGate.Text

/-- The hexadecimal digits of a number, without leading zeros. -/
def hexDigits (n : Nat) : List Char :=
  let digit (d : Nat) := Char.ofNat (if d < 10 then 48 + d else 87 + d)
  if n < 16 then [digit n] else hexDigits (n / 16) ++ [digit (n % 16)]
termination_by n

/-- A character as it stands in a quoted text. -/
def quotedChar (c : Char) : List Char :=
  match c with
  | '"' => ['\\', '"']
  | '\\' => ['\\', '\\']
  | '\n' => ['\\', 'n']
  | '\r' => ['\\', 'r']
  | '\t' => ['\\', 't']
  | '\x00' => ['\\', '0']
  | c => if isUnprintable c then ['\\', 'u', '\x7b'] ++ hexDigits c.toNat ++ ['\x7d'] else [c]

def quoted (s : String) : String :=
  String.ofList ('"' :: (s.toList.flatMap quotedChar ++ ['"']))

end TableGate.Text
