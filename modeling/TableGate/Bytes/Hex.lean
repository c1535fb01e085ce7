import TableGate.Bytes.Basic

/-!
# Hexadecimal text

Bytes as pairs of hexadecimal digits, written in lower case and read in either case.
-/

namespace TableGate.Hex

def digit (n : Nat) : Char :=
  if n < 10 then Char.ofNat (48 + n) else Char.ofNat (87 + n)

def value? (c : Char) : Option Nat :=
  if '0' ≤ c && c ≤ '9' then some (c.toNat - 48)
  else if 'a' ≤ c && c ≤ 'f' then some (c.toNat - 87)
  else if 'A' ≤ c && c ≤ 'F' then some (c.toNat - 55)
  else none

def encodeChars : Bytes → List Char
  | [] => []
  | b :: bs => digit (b.toNat / 16) :: digit (b.toNat % 16) :: encodeChars bs

/-- The bytes of digits, which come in pairs. -/
def decodeChars? : List Char → Option Bytes
  | [] => some []
  | [_] => none
  | high :: low :: rest => do
    let h ← value? high
    let l ← value? low
    return UInt8.ofNat (16 * h + l) :: (← decodeChars? rest)

def encode (bs : Bytes) : String :=
  String.ofList (encodeChars bs)

def decode? (s : String) : Option Bytes :=
  decodeChars? s.toList

end TableGate.Hex
