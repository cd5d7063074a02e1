import Barrage.Number.Scalar

/-!
Single-precision numbers: the arithmetic that patterns run in. Every operation is rounded to the
format at once; the remainder is exact.
-/

set_option autoImplicit false

namespace Barrage.Single

def ofBits (bits : Nat) : Float32 := Float32.ofBits (UInt32.ofNat bits)

def bits (x : Float32) : Nat := x.toBits.toNat

def ofDecimal (d : Decimal) : Float32 := ofBits (BinaryFormat.single.ofDecimal d)

def ofDouble (doubleBits : Nat) : Float32 := ofBits (BinaryFormat.double.convert .single doubleBits)

def toDouble (x : Float32) : Nat := BinaryFormat.single.convert .double (bits x)

def isNaN (x : Float32) : Bool := BinaryFormat.single.decode (bits x) = .nan

instance : Scalar Float32 where
  add := Float32.add
  sub := Float32.sub
  mul := Float32.mul
  div := Float32.div
  mod a b := ofBits (BinaryFormat.single.remainder (bits a) (bits b))
  neg := Float32.neg
  zero := ofBits 0
  one := ofBits 0x3f800000
  pi := ofBits 0x40490fdb
  ofDecimal := ofDecimal
  le a b := a ≤ b
  lt a b := a < b
  sin := Float32.sin
  cos := Float32.cos
  atan2 := Float32.atan2
  floor x := BinaryFormat.single.floorWithin 0x8000000000000000 (bits x)
  text x := BinaryFormat.single.text (bits x)

/-- The words for infinity and for what is not a number, in any case. -/
def readWord? (cs : List Char) : Option Float32 :=
  match Text.lowerAscii (String.ofList cs) with
  | "inf" | "infinity" => some (ofBits BinaryFormat.single.infinity)
  | "nan" => some (ofBits 0x7fc00000)
  | _ => none

/-- Reads a number: decimal with an optional sign, or a word for a special value. -/
def read? (cs : List Char) : Option Float32 :=
  match Decimal.read? cs with
  | some d => some (ofDecimal d)
  | none => match cs with
    | '-' :: rest => (readWord? rest).map (- ·)
    | '+' :: rest => readWord? rest
    | _ => readWord? cs

end Barrage.Single
