import Barrage.Number.BinaryFormat

/-!
The shortest decimal that reads back as a given binary number. Among decimals with the fewest
digits the nearest is taken, and of two equally near the larger.
-/

set_option autoImplicit false

namespace Barrage

/-- Digits `d₁ d₂ … dₙ` that stand for `0.d₁d₂…dₙ * 10 ^ point`. -/
structure DecimalDigits where
  digits : List Char
  point : Int
  deriving DecidableEq, Repr

namespace Shortest

/-- The reals that round to a number, in units of a quarter of its last bit. -/
structure Interval where
  low : Nat
  value : Nat
  high : Nat
  closed : Bool
  exponent : Int

/-- The interval of `significand * 2 ^ exponent`. Below a power of two the gap is half as wide,
unless the exponent is already the least. -/
def interval (fmt : BinaryFormat) (significand : Nat) (exponent : Int) : Interval :=
  let narrow := significand = Nat.pow 2 (fmt.precision - 1) && fmt.leastExponent < exponent
  { low := 4 * significand - (if narrow then 1 else 2)
    value := 4 * significand
    high := 4 * significand + 2
    closed := significand % 2 = 0
    exponent := exponent - 2 }

def sides (n : Nat) (e : Int) (k : Nat) (p : Int) : Nat × Nat :=
  let left := if 0 ≤ e then n * Nat.pow 2 e.toNat else n
  let right := if 0 ≤ e then k else k * Nat.pow 2 (-e).toNat
  if 0 ≤ p then (left, right * Nat.pow 10 p.toNat) else (left * Nat.pow 10 (-p).toNat, right)

def Interval.has (i : Interval) (k : Nat) (p : Int) : Bool :=
  let (low, x) := sides i.low i.exponent k p
  let (high, y) := sides i.high i.exponent k p
  if i.closed then low ≤ x && y ≤ high else low < x && y < high

/-- The multiple of `10 ^ p` in the interval that is nearest to its value, if there is one. Only the
neighbours of the value on that grid can be. -/
def Interval.onGrid? (i : Interval) (p : Int) : Option Nat :=
  let (value, unit) := sides i.value i.exponent 1 p
  let below := value / unit
  let above := below + 1
  match below != 0 && i.has below p, i.has above p with
  | true, true => if 2 * (value % unit) < unit then some below else some above
  | true, false => some below
  | false, true => some above
  | false, false => none

/-- The first of a run of ever finer grids that has a multiple in the interval. -/
def Interval.search (i : Interval) (p : Int) : Nat → Nat × Int
  | 0 => (0, p)
  | n + 1 => match i.onGrid? p with
    | some k => (k, p)
    | none => i.search (p - 1) n

/-- The exponent of a power of ten above the interval: ten lies between `2 ^ 3` and `2 ^ 4`. -/
def Interval.start (i : Interval) : Int :=
  let bits := Nat.log2 i.high + i.exponent
  (if 0 ≤ bits then bits / 3 else bits / 4) + 1

def Interval.grids (i : Interval) : Nat := (i.start - min i.exponent 0).toNat + 1

def stripZeros (digits : List Char) : List Char := (digits.reverse.dropWhile (· = '0')).reverse

end Shortest

def BinaryFormat.shortest (fmt : BinaryFormat) (significand : Nat) (exponent : Int) :
    DecimalDigits :=
  let i := Shortest.interval fmt significand exponent
  let (k, p) := i.search i.start i.grids
  let digits := Nat.toDigits 10 k
  { digits := Shortest.stripZeros digits, point := p + digits.length }

namespace DecimalDigits

def zeros (n : Nat) : List Char := List.replicate n '0'

/-- Positional notation: a point only where there is a fraction, and a zero before it if nothing
else is. -/
def positional (d : DecimalDigits) : List Char :=
  let n := d.digits.length
  if d.point ≤ 0 then '0' :: '.' :: zeros (-d.point).toNat ++ d.digits
  else if d.point ≥ n then d.digits ++ zeros (d.point.toNat - n)
  else d.digits.take d.point.toNat ++ '.' :: d.digits.drop d.point.toNat

end DecimalDigits

namespace BinaryFormat

/-- A number's text: positional, with as few digits as read back, and never an exponent. -/
def text (fmt : BinaryFormat) (bits : Nat) : String :=
  let sign := if fmt.isNegative bits then "-" else ""
  match fmt.decode bits with
  | .nan => "NaN"
  | .infinite => sign ++ "inf"
  | .finite 0 _ => sign ++ "0"
  | .finite m e => sign ++ String.ofList (fmt.shortest m e).positional

end BinaryFormat

end Barrage
