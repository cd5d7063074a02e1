import Barrage.Number.Decimal

/-!
Binary floating-point formats: which numbers they hold, and the number of a format that is nearest
to an exact ratio. Of two nearest numbers the one with the even significand is taken.
-/

set_option autoImplicit false

namespace Barrage

/-- An interchange format with a sign bit, an exponent field and a significand whose first bit is
implied. -/
structure BinaryFormat where
  precision : Nat
  exponentBits : Nat
  deriving DecidableEq, Repr

inductive Magnitude where
  | nan
  | infinite
  | finite (significand : Nat) (exponent : Int)
  deriving DecidableEq, Repr

namespace BinaryFormat

def single : BinaryFormat := ⟨24, 8⟩

def double : BinaryFormat := ⟨53, 11⟩

variable (fmt : BinaryFormat)

def leastExponent : Int :=
  3 - (Nat.pow 2 (fmt.exponentBits - 1) : Int) - fmt.precision

/-- The encoding of infinity, which is above those of all finite numbers. -/
def infinity : Nat := (Nat.pow 2 fmt.exponentBits - 1) * Nat.pow 2 (fmt.precision - 1)

def signBit : Nat := Nat.pow 2 (fmt.precision - 1 + fmt.exponentBits)

def decode (bits : Nat) : Magnitude :=
  let bits := bits % fmt.signBit
  if fmt.infinity < bits then .nan
  else if bits = fmt.infinity then .infinite
  else
    let field := bits / Nat.pow 2 (fmt.precision - 1)
    let low := bits % Nat.pow 2 (fmt.precision - 1)
    if field = 0 then .finite low fmt.leastExponent
    else .finite (low + Nat.pow 2 (fmt.precision - 1)) (fmt.leastExponent + field - 1)

def isNegative (bits : Nat) : Bool := fmt.signBit ≤ bits

def scaleDown (num den : Nat) (e : Int) : Nat × Nat :=
  if 0 ≤ e then (num, den * Nat.pow 2 e.toNat) else (num * Nat.pow 2 (-e).toNat, den)

/-- A quotient rounded to the nearest integer, a half to the even one. -/
def divNearest (num den : Nat) : Nat :=
  let q := num / den
  let r := num % den
  if 2 * r > den ∨ (2 * r = den ∧ q % 2 = 1) then q + 1 else q

/-- The exponent at which a positive ratio has a significand of full precision, or the least. -/
def exponentFor (num den : Nat) : Int :=
  let e := (Nat.log2 num : Int) - Nat.log2 den - fmt.precision
  let (n, d) := scaleDown num den e
  max (if n / d ≥ Nat.pow 2 fmt.precision then e + 1 else e) fmt.leastExponent

/-- The encoding of the number nearest to a ratio; too large a ratio gives infinity. A significand
that rounds up to the next power of two carries into the exponent field. -/
def ofRatio (num den : Nat) : Nat :=
  if num = 0 then 0
  else
    let e := fmt.exponentFor num den
    let (n, d) := scaleDown num den e
    min fmt.infinity
      ((e - fmt.leastExponent).toNat * Nat.pow 2 (fmt.precision - 1) + divNearest n d)

def ofScaled (significand : Nat) (exponent : Int) : Nat :=
  if 0 ≤ exponent then fmt.ofRatio (significand * Nat.pow 2 exponent.toNat) 1
  else fmt.ofRatio significand (Nat.pow 2 (-exponent).toNat)

/-- The encoding of a decimal number, rounded once. Numbers far outside the range are decided by
the place of their first digit, since `10 ^ n` is at least `2 ^ n`. -/
def ofDecimal (d : Decimal) : Nat :=
  let place := d.exponent + Decimal.width d.digits
  let magnitude :=
    if d.digits = 0 then 0
    else if place > (Nat.pow 2 fmt.exponentBits : Int) then fmt.infinity
    else if place < fmt.leastExponent - fmt.precision then 0
    else if 0 ≤ d.exponent then fmt.ofRatio (d.digits * Nat.pow 10 d.exponent.toNat) 1
    else fmt.ofRatio d.digits (Nat.pow 10 (-d.exponent).toNat)
  if d.negative then fmt.signBit + magnitude else magnitude

/-- The encoding in another format of the number with an encoding in this one. -/
def convert (target : BinaryFormat) (bits : Nat) : Nat :=
  let magnitude := match fmt.decode bits with
    | .nan => target.infinity + 1
    | .infinite => target.infinity
    | .finite m e => target.ofScaled m e
  if fmt.isNegative bits then target.signBit + magnitude else magnitude

/-- The remainder of a division that rounds toward zero, with the sign of the dividend. It is exact.
There is none for an infinite dividend or for a divisor of zero. -/
def remainder (a b : Nat) : Nat :=
  let magnitude := match fmt.decode a, fmt.decode b with
    | .finite _ _, .infinite => a % fmt.signBit
    | .finite m e, .finite n f =>
      if n = 0 then fmt.infinity + 1
      else
        let g := min e f
        fmt.ofScaled ((m * Nat.pow 2 (e - g).toNat) % (n * Nat.pow 2 (f - g).toNat)) g
    | _, _ => fmt.infinity + 1
  if fmt.isNegative a then fmt.signBit + magnitude else magnitude

/-- The greatest integer not above a number, kept within `limit` on both sides; infinities go to the
ends, and what is not a number counts as zero. -/
def floorWithin (limit : Nat) (bits : Nat) : Int :=
  let negative := fmt.isNegative bits
  let floor : Int := match fmt.decode bits with
    | .nan => 0
    | .infinite => if negative then -limit else limit
    | .finite m e =>
      let value : Int := if negative then -m else m
      if 0 ≤ e then value * (Nat.pow 2 e.toNat : Nat) else value.fdiv (Nat.pow 2 (-e).toNat : Nat)
  max (-limit : Int) (min floor (limit - 1))

end BinaryFormat

end Barrage
