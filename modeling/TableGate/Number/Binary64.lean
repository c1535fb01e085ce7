import TableGate.Text.Decimal

/-!
# Binary floating point numbers

A finite number of the 64-bit binary format, kept as its bits, and its decimal text: the fewest
digits that read back as the same number, and of those the nearest.
-/

namespace TableGate

/-- A number of the 64-bit binary floating point format. -/
structure Binary64 where
  bits : UInt64
  deriving DecidableEq, Repr

namespace Binary64

/-- The number as a value the machine computes with. -/
def toFloat (x : Binary64) : Float := Float.ofBits x.bits

/-- The bits of a machine number. -/
def ofFloat (x : Float) : Binary64 := ⟨x.toBits⟩

def isNegative (x : Binary64) : Bool := x.bits.toNat / Nat.pow 2 63 == 1

def exponentField (x : Binary64) : Nat := x.bits.toNat / Nat.pow 2 52 % Nat.pow 2 11

def fractionField (x : Binary64) : Nat := x.bits.toNat % Nat.pow 2 52

/-- The integer `m` of the magnitude `m * 2 ^ q`. -/
def significand (x : Binary64) : Nat :=
  if x.exponentField = 0 then x.fractionField else x.fractionField + Nat.pow 2 52

/-- The exponent `q` of the magnitude `m * 2 ^ q`. -/
def exponent (x : Binary64) : Int :=
  (if x.exponentField = 0 then 1 else (x.exponentField : Int)) - 1075

end Binary64

/-- Digits `d₁ d₂ …` and an exponent `e`, for the number `d₁.d₂… * 10 ^ e`. -/
structure Scientific where
  digits : List Char
  exponent : Int

namespace Shortest

/-- A positive magnitude `center / unit` together with the ends of the interval of numbers that
round to it, over the same denominator. The ends belong to it when `closed`. -/
structure Interval where
  low : Nat
  center : Nat
  high : Nat
  unit : Nat
  closed : Bool

/-- The interval of `m * 2 ^ q`. Below a power of two the next smaller number is at half the distance. -/
def intervalOf (m : Nat) (q : Int) (lowestBinade : Bool) : Interval :=
  let below := if m = Nat.pow 2 52 && !lowestBinade then 1 else 2
  let up := Nat.pow 2 (q - 2).toNat
  { low := (4 * m - below) * up
    center := 4 * m * up
    high := (4 * m + 2) * up
    unit := Nat.pow 2 (2 - q).toNat
    closed := m % 2 = 0 }

/-- The interval in units of `10 ^ k`. -/
def Interval.inUnitsOf (i : Interval) (k : Int) : Interval :=
  let up := Nat.pow 10 (-k).toNat
  { i with
    low := i.low * up
    center := i.center * up
    high := i.high * up
    unit := i.unit * Nat.pow 10 k.toNat }

/-- Whether the integer `n` lies in the interval. -/
def Interval.holds (i : Interval) (n : Nat) : Bool :=
  if i.closed then i.low ≤ n * i.unit && n * i.unit ≤ i.high
  else i.low < n * i.unit && n * i.unit < i.high

/-- The decimal exponent of the magnitude: the greatest `e` with `10 ^ e` not above it. No magnitude
of the format is below `10 ^ (-330)`. -/
def Interval.decimalExponent (i : Interval) : Int :=
  ((Text.digits (i.center * Nat.pow 10 330 / i.unit)).length : Int) - 331

/-- The integer next to the magnitude that lies in the interval; the nearer if both do, and of two
equally near the even one. -/
def Interval.nearest? (i : Interval) : Option Nat :=
  let below := i.center / i.unit
  let above := below + 1
  let remainder := 2 * (i.center % i.unit)
  match i.holds below, i.holds above with
  | true, false => some below
  | false, true => some above
  | false, false => none
  | true, true =>
    if remainder < i.unit then some below
    else if i.unit < remainder then some above
    else if below % 2 = 0 then some below else some above

/-- The integer found on the coarsest of the next grids of `n` digits, with the grid's exponent. -/
def search (i : Interval) (e : Int) : Nat → Nat → Option (Nat × Int)
  | 0, _ => none
  | tries + 1, n =>
    let k := e - n
    match (i.inUnitsOf k).nearest? with
    | some found => some (found, k)
    | none => search i e tries (n + 1)

/-- The digits without the zeros at the end. -/
def withoutTrailingZeros (ds : List Char) : List Char :=
  (ds.reverse.dropWhile (· == '0')).reverse

/-- The shortest decimal that rounds to the magnitude `m * 2 ^ q`, where `m` is positive. Seventeen
digits always suffice. -/
def ofMagnitude (m : Nat) (q : Int) (lowestBinade : Bool) : Scientific :=
  let i := intervalOf m q lowestBinade
  let e := i.decimalExponent
  match search i e 17 0 with
  | some (n, k) =>
    let ds := Text.digits n
    { digits := withoutTrailingZeros ds, exponent := k + ds.length - 1 }
  | none => { digits := Text.digits m, exponent := e }

end Shortest

namespace Scientific

def zeros (n : Nat) : List Char := List.replicate n '0'

/-- The text with the point at its place, with at least one digit after it. -/
def positional (s : Scientific) : List Char :=
  if s.exponent < 0 then
    '0' :: '.' :: (zeros (-s.exponent - 1).toNat ++ s.digits)
  else
    let whole := s.exponent.toNat + 1
    let fraction := s.digits.drop whole
    s.digits.take whole ++ zeros (whole - s.digits.length) ++
      '.' :: (if fraction.isEmpty then ['0'] else fraction)

/-- The text with a signed exponent behind the letter `e`. -/
def exponential (s : Scientific) : List Char :=
  let tail := s.digits.drop 1
  s.digits.take 1 ++ (if tail.isEmpty then [] else '.' :: tail) ++
    'e' :: (if s.exponent < 0 then '-' else '+') :: Text.digits s.exponent.natAbs

/-- Positional from `0.00001` up to, but not including, `10 ^ 16`; with an exponent otherwise. -/
def text (s : Scientific) : List Char :=
  if -5 ≤ s.exponent && s.exponent < 16 then s.positional else s.exponential

end Scientific

namespace Binary64

/-- The decimal text of a finite number. Zero keeps its sign. -/
def chars (x : Binary64) : List Char :=
  let magnitude :=
    if x.significand = 0 then ['0', '.', '0']
    else (Shortest.ofMagnitude x.significand x.exponent (x.exponentField ≤ 1)).text
  if x.isNegative then '-' :: magnitude else magnitude

end Binary64

end TableGate
