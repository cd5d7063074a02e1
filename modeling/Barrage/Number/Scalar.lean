import Barrage.Number.Shortest

/-!
The arithmetic that patterns are computed in. Nothing is assumed of the operations: the programs
written over them keep the order of every operation, so they mean the same over single-precision
numbers, over the rationals, and over operations that are left open.
-/

set_option autoImplicit false

namespace Barrage

/-- Numbers with the operations that patterns use. No laws are required. -/
class Scalar (F : Type) extends Add F, Sub F, Mul F, Div F, Mod F, Neg F where
  zero : F
  one : F
  /-- A half turn in radians. -/
  pi : F
  ofDecimal : Decimal → F
  le : F → F → Bool
  lt : F → F → Bool
  sin : F → F
  cos : F → F
  /-- The angle of the point with the given height and breadth. -/
  atan2 : F → F → F
  /-- The greatest integer not above a number, kept within 64 bits. -/
  floor : F → Int
  text : F → String

namespace Scalar

variable {F : Type} [Scalar F]

/-- A full turn in radians. -/
def tau : F := pi + pi

def radians (degrees : F) : F := degrees * (pi / ofDecimal (.ofNat 180))

def wrapInto (a period : F) : F :=
  let r := a % period
  if lt r zero then r + period else r

def atLeastOne (x : F) : F := if le one x then x else one

end Scalar

end Barrage
