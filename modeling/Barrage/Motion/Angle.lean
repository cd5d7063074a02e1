import Barrage.Number.Scalar

/-!
Vectors and angles of the playing field. Angles are radians; zero points up and angles grow
clockwise, and the second coordinate grows downwards.
-/

set_option autoImplicit false

namespace Barrage

structure Vec (F : Type) where
  x : F
  y : F
  deriving DecidableEq, Repr

namespace Vec

variable {F : Type} [Scalar F]

def zero : Vec F := ⟨Scalar.zero, Scalar.zero⟩

instance : Add (Vec F) := ⟨fun a b => ⟨a.x + b.x, a.y + b.y⟩⟩

instance : Sub (Vec F) := ⟨fun a b => ⟨a.x - b.x, a.y - b.y⟩⟩

end Vec

namespace Angle

variable {F : Type} [Scalar F]

/-- The same angle above minus a half turn and up to a half turn. -/
def wrap (a : F) : F :=
  let wrapped := Scalar.wrapInto (a + Scalar.pi) Scalar.tau - Scalar.pi
  if Scalar.le wrapped (-Scalar.pi) then wrapped + Scalar.tau else wrapped

/-- The same angle from zero on and below a full turn. A remainder that is rounded up to a full turn
is zero. -/
def normalize (a : F) : F :=
  let r := Scalar.wrapInto a Scalar.tau
  if Scalar.le Scalar.tau r then Scalar.zero else r

def aim (start goal : Vec F) : F := Scalar.atan2 (goal.x - start.x) (-(goal.y - start.y))

end Angle

end Barrage
