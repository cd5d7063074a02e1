import Barrage.Motion.Easing
import Mathlib.Algebra.Order.Floor.Ring
import Mathlib.Algebra.Order.Floor.Semiring
import Mathlib.Data.Rat.Floor
import Mathlib.Tactic.Linarith
import Mathlib.Tactic.NormNum

/-!
Exact arithmetic: the operations of patterns on rational numbers, without any rounding. How long a
half turn is and what the functions of angles come to is left open; what is proved of exact
arithmetic holds for every choice.
-/

set_option autoImplicit false

namespace Barrage.Exact

/-- What exact arithmetic leaves open. -/
class Geometry where
  /-- A half turn in radians. -/
  pi : ℚ
  pi_pos : 0 < pi
  sin : ℚ → ℚ
  cos : ℚ → ℚ
  atan2 : ℚ → ℚ → ℚ

def ofDecimal (d : Decimal) : ℚ :=
  (if d.negative then -1 else 1) * d.digits * (10 : ℚ) ^ d.exponent

def truncate (x : ℚ) : ℤ := if 0 ≤ x then ⌊x⌋ else ⌈x⌉

/-- The remainder of a division that rounds toward zero, with the sign of the dividend. -/
def remainder (a b : ℚ) : ℚ := a - b * truncate (a / b)

def floorWithin (x : ℚ) : ℤ := max (-2 ^ 63) (min ⌊x⌋ (2 ^ 63 - 1))

scoped instance [g : Geometry] : Scalar ℚ where
  mod := remainder
  zero := 0
  one := 1
  pi := g.pi
  ofDecimal := ofDecimal
  le a b := a ≤ b
  lt a b := a < b
  sin := g.sin
  cos := g.cos
  atan2 := g.atan2
  floor := floorWithin
  text := toString

namespace Sample

/-- A playing field that nothing turns on. -/
scoped instance : Geometry where
  pi := 3
  pi_pos := by decide +kernel
  sin _ := 0
  cos _ := 1
  atan2 _ _ := 0

end Sample

variable [Geometry]

@[simp] theorem zero_eq : (Scalar.zero : ℚ) = 0 := rfl

@[simp] theorem one_eq : (Scalar.one : ℚ) = 1 := rfl

@[simp] theorem le_iff (a b : ℚ) : Scalar.le a b = true ↔ a ≤ b := decide_eq_true_iff

@[simp] theorem lt_iff (a b : ℚ) : Scalar.lt a b = true ↔ a < b := decide_eq_true_iff

theorem leastDuration_eq : (Easing.leastDuration : ℚ) = 1 / 100 := by
  change (1 : ℚ) * (1 : ℕ) * (10 : ℚ) ^ (-2 : ℤ) = 1 / 100
  norm_num

theorem effectiveDuration_eq (d : ℚ) :
    Easing.effectiveDuration d = if |d| < 1 / 100 then 1 else d := by
  unfold Easing.effectiveDuration
  simp only [Bool.and_eq_true, lt_iff, leastDuration_eq, abs_lt, and_comm, one_eq]

theorem effectiveDuration_pos {d : ℚ} (pos : 0 < d) : 0 < Easing.effectiveDuration d := by
  rw [effectiveDuration_eq]
  split
  · exact one_pos
  · exact pos

end Barrage.Exact
