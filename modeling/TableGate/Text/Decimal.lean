/-!
# Decimal integers

The decimal text of a natural number or an integer, and the reading of such text.
-/

namespace TableGate.Text

def digitChar (n : Nat) : Char :=
  Char.ofNat (48 + n)

/-- The decimal digits of a number, without leading zeros. -/
def digits (n : Nat) : List Char :=
  if n < 10 then [digitChar n] else digits (n / 10) ++ [digitChar (n % 10)]
termination_by n

def ofNat (n : Nat) : String :=
  String.ofList (digits n)

/-- The decimal text of an integer; only a negative one has a sign. -/
def ofInt (n : Int) : String :=
  if n < 0 then "-" ++ ofNat n.natAbs else ofNat n.natAbs

def digitValue (c : Char) : Nat :=
  c.toNat - 48

/-- The number that `acc` becomes when the digits are written behind it. -/
def appendDigits (acc : Nat) (ds : List Char) : Nat :=
  ds.foldl (fun n d => 10 * n + digitValue d) acc

/-- The number written by a non-empty row of decimal digits. Leading zeros are allowed. -/
def digitsToNat? (ds : List Char) : Option Nat :=
  if ds.isEmpty || !ds.all Char.isDigit then none else some (appendDigits 0 ds)

/-- Reads an optional plus sign and decimal digits, up to a greatest number. -/
def toNat? (greatest : Nat) (cs : List Char) : Option Nat :=
  let ds := match cs with
    | '+' :: rest => rest
    | _ => cs
  match digitsToNat? ds with
  | some n => if n ≤ greatest then some n else none
  | none => none

/-- Reads an optional sign and decimal digits into the range of a signed 64-bit integer. -/
def toInt64? (cs : List Char) : Option Int :=
  match cs with
  | '-' :: ds =>
    match digitsToNat? ds with
    | some n => if n ≤ Nat.pow 2 63 then some (-(n : Int)) else none
    | none => none
  | _ => (toNat? (Nat.pow 2 63 - 1) cs).map Int.ofNat

def maxUInt32 : Nat := UInt32.size - 1

def maxUInt64 : Nat := UInt64.size - 1

end TableGate.Text
