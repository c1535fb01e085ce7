import TableGate.Number.Binary64

/-!
# Number literals

The value of a JSON number literal. A literal without fraction and exponent that fits 64 bits is an
integer; any other is a floating point number, computed from the leading digits that fit 64 bits and a
power of ten.
-/

namespace TableGate

/-- The parts of a number literal. -/
structure NumberLiteral where
  negative : Bool
  whole : List Char
  fraction : Option (List Char)
  exponent : Option (Bool × List Char)

namespace NumberLiteral

/-- Appends digits as long as the number fits an unsigned 64-bit integer, and gives the digits left. -/
def gather (n : Nat) : List Char → Nat × List Char
  | [] => (n, [])
  | d :: ds =>
    let next := 10 * n + Text.digitValue d
    if next ≤ Text.maxUInt64 then gather next ds else (n, d :: ds)

def tenTo (n : Nat) : Float :=
  Float.ofScientific 1 false n

/-- The number divided by a power of ten, in steps of at most `10 ^ 308`. -/
def divideBy (f : Float) (n : Nat) : Float :=
  if n ≤ 308 then f / tenTo n
  else if f == 0 then f
  else divideBy (f / tenTo 308) (n - 308)
termination_by n

/-- `significand * 10 ^ exponent`, unless it is too large. -/
def scaled? (significand : Nat) (exponent : Int) : Option Float :=
  let f := (UInt64.ofNat significand).toFloat
  if exponent < 0 then
    some (divideBy f exponent.natAbs)
  else if exponent ≤ 308 then
    let product := f * tenTo exponent.toNat
    if product.isInf then none else some product
  else if f == 0 then some f else none

def signed (negative : Bool) (f : Float) : Binary64 :=
  .ofFloat (if negative then -f else f)

/-- The greatest exponent that is looked at digit by digit. -/
def maxExponent : Nat := Nat.pow 2 31 - 1

/-- The floating point number of a literal, unless it is too large. -/
def real? (l : NumberLiteral) : Option Binary64 :=
  let (n, skipped) := gather 0 l.whole
  let fraction := l.fraction.getD []
  let (significand, unread) := gather n fraction
  let shift : Int := skipped.length - (fraction.length - unread.length : Nat)
  match l.exponent with
  | none => (scaled? significand shift).map (signed l.negative)
  | some (down, ds) =>
    let e := Text.appendDigits 0 ds
    if maxExponent < e then
      if significand ≠ 0 && !down then none else some (signed l.negative 0)
    else
      (scaled? significand (if down then shift - e else shift + e)).map (signed l.negative)

/-- The integer or floating point number of a literal, unless it is too large. Minus zero is a
floating point number. -/
def value? (l : NumberLiteral) : Option (Int ⊕ Binary64) :=
  match l.fraction, l.exponent, gather 0 l.whole with
  | none, none, (n, []) =>
    if !l.negative then some (.inl n)
    else if n ≠ 0 && n ≤ Nat.pow 2 63 then some (.inl (-(n : Int)))
    else l.real?.map .inr
  | _, _, _ => l.real?.map .inr

end NumberLiteral

end TableGate
