import Barrage.Task.Start

/-!
Shots. Direction and speed are computed when the fire is done: the first shot, and every shot of a
fire without values for later ones, takes them from the first value; each later shot adds to those
of the shot before. A shot counts even if no bullet comes of it.
-/

set_option autoImplicit false

namespace Barrage

variable {F σ : Type} [Scalar F]

open Actor

structure Env (F σ : Type) where
  host : Host F σ
  pattern : Pattern
  emitter : EmitterId

/-- The bullet of a fire: its node and the arguments in scope for it. -/
structure Ammunition (F : Type) where
  node : NodeId
  frames : Frames F
  deriving DecidableEq, Repr

/-- The bullet of a fire with some tasks below it, of which the last one counts. -/
def Ammunition.ofPlans? (frames : Frames F) (holders : List (Plan F)) : Option (Ammunition F) :=
  holders.getLast?.map fun p => ⟨p.node, p.args :: frames⟩

namespace Shots

/-- The value for the next shot: of a later shot if there is one and this is one, else the first. -/
def nextValue? (shots : Shots F) (rule : ShotRule) : Option (ShotValue × Bool) :=
  match rule.later? with
  | some v => if shots.count > 0 then some (v, true) else rule.first?.map fun v => (v, false)
  | none => rule.first?.map fun v => (v, false)

end Shots

namespace Env

variable (env : Env F σ)

/-- A value of a shot, with the arguments of the fire or of the bullet in scope. -/
def shotValue (frames : Frames F) (bullet? : Option (Ammunition F)) (v : ShotValue) :
    Acting F σ F :=
  let scope := match bullet? with
    | some b => if v.ofBullet then b.frames else frames
    | none => frames
  Actor.evaluate env.host scope v.expression

def shotDirection (frames : Frames F) (bullet? : Option (Ammunition F)) (rule : ShotRule)
    (shots : Shots F) : Acting F σ F := do
  match shots.nextValue? rule with
  | none => do
    let aim ← Actor.aim env.host
    pure (Angle.wrap aim)
  | some (v, later) => do
    let x ← env.shotValue frames bullet? v
    let angle := Scalar.radians x
    if later then pure (Angle.wrap (shots.direction + angle))
    else
      match v.policy with
      | .absolute => pure (Angle.wrap angle)
      | .relative => do
        let e ← entityNow
        pure (Angle.wrap (angle + e.direction))
      | _ => do
        let aim ← Actor.aim env.host
        pure (Angle.wrap (angle + aim))

def shotSpeed (frames : Frames F) (bullet? : Option (Ammunition F)) (rule : ShotRule)
    (shots : Shots F) : Acting F σ F := do
  match shots.nextValue? rule with
  | none => do
    let e ← entityNow
    pure e.speed
  | some (v, later) => do
    let x ← env.shotValue frames bullet? v
    if later then pure (shots.speed + x)
    else
      match v.policy with
      | .relative => do
        let e ← entityNow
        pure (x + e.speed)
      | _ => pure x

def nodeDetail (i : NodeId) : String × String := ("node", "#" ++ toString i)

/-- Binds an entity that was made for a shot, and hands the bullet to the host. -/
def launch (bullet : Ammunition F) (entity : Entity F) (speed : F) : Staged σ Unit := do
  let outcome ← Bullet.bind env.host entity env.pattern bullet.node (some bullet.frames.pruned)
    env.emitter
  match outcome with
  | .error e => Stage.log fun j => j.error e.code e.message [nodeDetail bullet.node]
  | .ok made =>
    Stage.log fun j => j.debug "Bullet fired" fun _ =>
      [nodeDetail bullet.node, ("speed", Scalar.text speed)]
    Stage.act (env.host.spawn made)

/-- Asks the host for an entity at a place and gives it off. A refused entity is skipped, and one
that does not belong to the emitter goes back. -/
def spawn (fire : NodeId) (bullet? : Option (Ammunition F)) (position : Vec F)
    (direction speed : F) : Staged σ Unit := do
  match bullet? with
  | none =>
    Stage.log fun j => j.error .unresolvedAtRun "Fire has no bullet description" [nodeDetail fire]
  | some bullet =>
    let entity? ← Stage.ask (env.host.create ⟨env.emitter, position⟩)
    match entity? with
    | none =>
      Stage.log fun j => j.warn .spawnFailed "Host refused to create an entity; shot skipped"
        [nodeDetail fire]
    | some entity =>
      if entity.emitter? = some env.emitter then
        let direction := Angle.normalize direction
        env.launch bullet { entity with position, direction, speed } speed
      else
        Stage.log fun j => j.warn .detachedEntity
          "Created entity is not attached to the firing emitter; shot skipped"
          [("emitter", toString env.emitter)]
        Stage.act (env.host.remove entity)

def shoot (node : NodeId) (frames : Frames F) (holders : List (Plan F))
    (direction speed : ShotRule) (shots : Shots F) : Acting F σ (Shots F) := do
  let bullet? := Ammunition.ofPlans? frames holders
  let newDirection ← env.shotDirection frames bullet? direction shots
  let newSpeed ← env.shotSpeed frames bullet? speed shots
  let e ← entityNow
  staged (env.spawn node bullet? e.position newDirection newSpeed)
  pure ⟨shots.count + 1, newDirection, newSpeed⟩

end Env

end Barrage
