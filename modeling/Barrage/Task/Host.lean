import Barrage.Expression.Context
import Barrage.Motion.Entity
import Barrage.Pattern.Basic
import Barrage.Task.Cell

/-!
Hosts and bullets. The host owns the world: it makes and removes entities, takes over new bullets,
and knows the target, the difficulty and random numbers. A bullet is an entity with the tasks that
steer it.
-/

set_option autoImplicit false

namespace Barrage

structure Emission (F : Type) where
  emitter : EmitterId
  position : Vec F
  deriving DecidableEq, Repr

structure Bullet (F : Type) where
  entity : Entity F
  pattern : Pattern
  node : NodeId
  plan : Plan F
  cell : Cell F plan
  /-- The arguments that were in scope where the bullet was fired, if it was. -/
  scope? : Option (Frames F)
  emitter : EmitterId

def Bullet.scope {F : Type} (b : Bullet F) : Frames F := b.scope?.getD []

/-- What a host does to a world. -/
structure Host (F σ : Type) where
  create : Emission F → σ → Option (Entity F) × σ
  spawn : Bullet F → σ → σ
  remove : Entity F → σ → σ
  target : Entity F → σ → Vec F
  rank : σ → F
  random : σ → F × σ

structure Stage (σ : Type) where
  world : σ
  journal : Journal

abbrev Staged (σ : Type) := StateM (Stage σ)

namespace Stage

variable {σ : Type}

def act (f : σ → σ) : Staged σ Unit := modify fun s => { s with world := f s.world }

def ask {α : Type} (f : σ → α × σ) : Staged σ α :=
  modifyGet fun s => let (a, world) := f s.world; (a, { s with world })

def log (f : Journal → Journal) : Staged σ Unit := modify fun s => { s with journal := f s.journal }

end Stage

variable {F σ : Type} [Scalar F]

def Host.reading (h : Host F σ) (frames : Frames F) : Reading F (Stage σ) where
  param? := frames.param?
  rank s := h.rank s.world
  random s := let (x, world) := h.random s.world; (x, { s with world })
  unbound index s := { s with journal := s.journal.unbound index }

def Host.evaluate (h : Host F σ) (frames : Frames F) (e : Expression) : Staged σ F :=
  modifyGet (e.evaluate (h.reading frames))

structure Actor (F σ : Type) extends Stage σ where
  entity : Entity F

abbrev Acting (F σ : Type) := StateM (Actor F σ)

namespace Actor

def staged {α : Type} (x : Staged σ α) : Acting F σ α :=
  modifyGet fun a => let (r, s) := x.run a.toStage; (r, { a with toStage := s })

def entityNow : Acting F σ (Entity F) := do return (← get).entity

def change (f : Entity F → Entity F) : Acting F σ Unit :=
  modify fun a => { a with entity := f a.entity }

def aim (h : Host F σ) : Acting F σ F := do
  let a ← get
  pure (Angle.aim a.entity.position (h.target a.entity a.world))

def evaluate (h : Host F σ) (frames : Frames F) (e : Expression) : Acting F σ F :=
  staged (h.evaluate frames e)

end Actor

end Barrage
