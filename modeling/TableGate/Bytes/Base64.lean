import TableGate.Bytes.Basic

/-!
# Base64 text

Bytes in base 64: the standard alphabet with padding, of which exactly the written form is read, and the
alphabet for URLs without padding, which is only written.
-/

namespace TableGate.Base64

/-- The two alphabets, which differ in their last two characters. -/
inductive Alphabet where
  | standard
  | url
  deriving DecidableEq

def char (a : Alphabet) (n : Nat) : Char :=
  if n < 26 then Char.ofNat (65 + n)
  else if n < 52 then Char.ofNat (71 + n)
  else if n < 62 then Char.ofNat (n - 4)
  else if n = 62 then (if a = .standard then '+' else '-')
  else if a = .standard then '/' else '_'

/-- The number of a character of the standard alphabet. -/
def value? (c : Char) : Option Nat :=
  if 'A' ≤ c && c ≤ 'Z' then some (c.toNat - 65)
  else if 'a' ≤ c && c ≤ 'z' then some (c.toNat - 71)
  else if '0' ≤ c && c ≤ '9' then some (c.toNat + 4)
  else if c = '+' then some 62
  else if c = '/' then some 63
  else none

/-- The characters of bytes. The last group is padded if `padded` is set. -/
def encodeChars (a : Alphabet) (padded : Bool) : Bytes → List Char
  | [] => []
  | [x] =>
    let n := x.toNat * 16
    [char a (n / 64), char a (n % 64)] ++ (if padded then ['=', '='] else [])
  | [x, y] =>
    let n := (x.toNat * 256 + y.toNat) * 4
    [char a (n / 4096), char a (n / 64 % 64), char a (n % 64)] ++ (if padded then ['='] else [])
  | x :: y :: z :: rest =>
    let n := (x.toNat * 256 + y.toNat) * 256 + z.toNat
    char a (n / 262144) :: char a (n / 4096 % 64) :: char a (n / 64 % 64) :: char a (n % 64) ::
      encodeChars a padded rest

/-- The bytes of characters of the standard alphabet with padding. Bits that no byte uses have to be
zero. -/
def decodeChars? : List Char → Option Bytes
  | [] => some []
  | [a, b, '=', '='] => do
    let n := (← value? a) * 64 + (← value? b)
    if n % 16 = 0 then return [UInt8.ofNat (n / 16)] else none
  | [a, b, c, '='] => do
    let n := ((← value? a) * 64 + (← value? b)) * 64 + (← value? c)
    if n % 4 = 0 then return [UInt8.ofNat (n / 1024), UInt8.ofNat (n / 4 % 256)] else none
  | a :: b :: c :: d :: rest => do
    let n := (((← value? a) * 64 + (← value? b)) * 64 + (← value? c)) * 64 + (← value? d)
    return UInt8.ofNat (n / 65536) :: UInt8.ofNat (n / 256 % 256) :: UInt8.ofNat (n % 256) ::
      (← decodeChars? rest)
  | _ => none

def encode (bs : Bytes) : String :=
  String.ofList (encodeChars .standard true bs)

def decode? (s : String) : Option Bytes :=
  decodeChars? s.toList

/-- The text of bytes in the alphabet for URLs, without padding. -/
def encodeUrl (bs : Bytes) : String :=
  String.ofList (encodeChars .url false bs)

end TableGate.Base64
