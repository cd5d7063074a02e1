import Barrage.Motion.Angle
import Barrage.Pattern.Kind

/-!
Changes that are spread over several ticks: of direction, of speed and of acceleration. A change
knows how much it adds in a tick and how long it goes on. A change of direction towards a fixed
direction looks at what is left of the way in every tick.
-/

set_option autoImplicit false

namespace Barrage

variable {F : Type} [Scalar F]

namespace Easing

/-- Shorter durations count as one tick. -/
def leastDuration : F := Scalar.ofDecimal ⟨false, 1, -2⟩

def effectiveDuration (d : F) : F :=
  if Scalar.lt d leastDuration && Scalar.lt (-leastDuration) d then Scalar.one else d

def perTick (policy : Policy) (value current duration : F) : F :=
  match policy with
  | .sequence => value
  | .relative => value / duration
  | _ => (value - current) / duration

structure Goal (F : Type) where
  policy : Policy
  value : F
  deriving DecidableEq, Repr

/-- What is added in a tick to reach a goal; without a goal nothing is. -/
def deltaTo (goal? : Option (Goal F)) (current duration : F) : F :=
  match goal? with
  | some g => perTick g.policy g.value current duration
  | none => Scalar.zero

end Easing

open Easing

structure Turn (F : Type) where
  policy : Policy
  /-- In radians. -/
  goal : F
  delta : F
  duration : F
  elapsed : F
  deriving DecidableEq, Repr

namespace Turn

/-- A turn towards a goal in degrees, over a duration. Without a goal the direction stays. -/
def make (goal? : Option (Goal F)) (duration current aim : F) : Turn F :=
  let duration := effectiveDuration duration
  match goal? with
  | none => ⟨.sequence, Scalar.zero, Scalar.zero, duration, Scalar.zero⟩
  | some g =>
    let goal := Scalar.radians g.value
    let delta := match g.policy with
      | .sequence => Angle.wrap goal
      | .relative => Angle.wrap goal / duration
      | .absolute => Scalar.zero
      | .aim | .none => Angle.wrap (goal + aim - current) / duration
    ⟨g.policy, goal, delta, duration, Scalar.zero⟩

def nextDelta (t : Turn F) (current : F) : F :=
  match t.policy with
  | .absolute =>
    Angle.wrap (t.goal - current) / Scalar.atLeastOne (t.duration - t.elapsed)
  | _ => t.delta

/-- The new direction, whether the turn is over, and the turn after a tick. -/
def step (t : Turn F) (current timeScale : F) : F × Bool × Turn F :=
  let direction := Angle.normalize (current + t.nextDelta current)
  let t := { t with elapsed := t.elapsed + timeScale }
  (direction, Scalar.le t.duration t.elapsed, t)

end Turn

structure Glide (α F : Type) where
  delta : α
  remaining : F
  deriving DecidableEq, Repr

namespace Glide

/-- The new value, whether the change is over, and the change after a tick. -/
def step {α : Type} [Add α] (g : Glide α F) (current : α) (timeScale : F) :
    α × Bool × Glide α F :=
  let g := { g with remaining := g.remaining - timeScale }
  (current + g.delta, Scalar.le g.remaining Scalar.zero, g)

def ofSpeed (goal? : Option (Goal F)) (duration current : F) : Glide F F :=
  let duration := effectiveDuration duration
  ⟨deltaTo goal? current duration, duration⟩

def ofAcceleration (horizontal? vertical? : Option (Goal F)) (duration : F) (current : Vec F) :
    Glide (Vec F) F :=
  let duration := effectiveDuration duration
  ⟨⟨deltaTo horizontal? current.x duration, deltaTo vertical? current.y duration⟩, duration⟩

end Glide

end Barrage
