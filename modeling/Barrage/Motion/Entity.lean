import Barrage.Motion.Angle

/-!
Entities: what a host moves over the playing field.
-/

set_option autoImplicit false

namespace Barrage

abbrev EmitterId := Nat

structure Entity (F : Type) where
  id : Nat
  position : Vec F
  direction : F
  speed : F
  acceleration : Vec F
  timeScale : F
  scale : F
  emitter? : Option EmitterId
  spawnedAs? : Option String
  deriving DecidableEq, Repr

namespace Entity

def unnamed : String := "-"

variable {F : Type} [Scalar F]

def resting (id : Nat) (position : Vec F) (emitter? : Option EmitterId) : Entity F where
  id
  position
  direction := Scalar.zero
  speed := Scalar.zero
  acceleration := .zero
  timeScale := Scalar.one
  scale := Scalar.one
  emitter?
  spawnedAs? := none

def named (e : Entity F) (name? : Option String) : Entity F :=
  { e with spawnedAs? := some (name?.getD unnamed) }

def moved (e : Entity F) : Entity F :=
  let dx := e.acceleration.x + Scalar.sin e.direction * e.speed * e.timeScale
  let dy := e.acceleration.y - Scalar.cos e.direction * e.speed * e.timeScale
  { e with position := ⟨e.position.x + dx * e.scale, e.position.y + dy * e.scale⟩ }

end Entity

end Barrage
