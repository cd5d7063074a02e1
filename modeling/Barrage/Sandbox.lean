import Barrage.Emitter

/-!
Sandboxes: a world in which entities are bound and stepped one at a time. What the host answers can
be chosen, and everything that it was asked to do can be looked at.
-/

set_option autoImplicit false

namespace Barrage

structure EntityChanges (F : Type) where
  position? : Option (Vec F) := none
  acceleration? : Option (Vec F) := none
  direction? : Option F := none
  speed? : Option F := none
  timeScale? : Option F := none
  scale? : Option F := none

def EntityChanges.apply {F : Type} (c : EntityChanges F) (e : Entity F) : Entity F :=
  { e with
    position := c.position?.getD e.position
    acceleration := c.acceleration?.getD e.acceleration
    direction := c.direction?.getD e.direction
    speed := c.speed?.getD e.speed
    timeScale := c.timeScale?.getD e.timeScale
    scale := c.scale?.getD e.scale }

structure World (F : Type) where
  lastId : Nat := 0
  target : Vec F
  rank : F
  cap? : Option Nat := none
  /-- Whether entities that are made on request belong to no emitter. -/
  detached : Bool := false
  template : EntityChanges F := {}
  random : RandomSource F := .ofList []
  bullets : Array (Bullet F) := #[]
  created : Nat := 0
  refused : Nat := 0
  removed : Array Nat := #[]

structure WorldChanges (F : Type) where
  target? : Option (Vec F) := none
  rank? : Option F := none
  cap? : Option Nat := none
  detached? : Option Bool := none
  template? : Option (EntityChanges F) := none
  random? : Option (RandomSource F) := none

def WorldChanges.apply {F : Type} (c : WorldChanges F) (w : World F) : World F :=
  { w with
    target := c.target?.getD w.target
    rank := c.rank?.getD w.rank
    cap? := c.cap?.or w.cap?
    detached := c.detached?.getD w.detached
    template := c.template?.getD w.template
    random := c.random?.getD w.random }

namespace World

variable {F : Type} [Scalar F]

def emitterId : EmitterId := 1

/-- The world where nothing is chosen: the target is above the origin. -/
def standard : World F :=
  { target := ⟨Scalar.zero, Scalar.ofDecimal (.ofInt (-100))⟩, rank := Scalar.zero }

def make (position : Vec F) (emitter? : Option EmitterId) (w : World F) :
    Entity F × World F :=
  let id := w.lastId + 1
  (w.template.apply (.resting id position emitter?), { w with lastId := id })

def create (e : Emission F) (w : World F) : Option (Entity F) × World F :=
  if w.cap? = some 0 then (none, { w with refused := w.refused + 1 })
  else
    let emitter? := if w.detached then none else some e.emitter
    let (entity, w) := w.make e.position emitter?
    (some entity, { w with created := w.created + 1, cap? := w.cap?.map (· - 1) })

def remove (e : Entity F) (w : World F) : World F :=
  if w.removed.contains e.id then w else { w with removed := w.removed.push e.id }

def host : Host F (World F) where
  create := create
  spawn b w := { w with bullets := w.bullets.push b }
  remove := remove
  target _ w := w.target
  rank w := w.rank
  random w := let (x, random) := w.random.next; (x, { w with random })

end World

/-- A world with a pattern, the bullets that were bound to it one by one, and its emitter. -/
structure Sandbox (F : Type) extends Stage (World F) where
  pattern : Pattern
  roots : List (Bullet F) := []
  emitter? : Option (Emitter F) := none

abbrev Sandboxed (F : Type) := StateM (Sandbox F)

namespace Sandbox

variable {F : Type} [Scalar F]

def staged {α : Type} (x : Staged (World F) α) : Sandboxed F α :=
  modifyGet fun b => let (r, s) := x.run b.toStage; (r, { b with toStage := s })

/-- All bullets: those that were bound one by one, the emitter's, and those that were fired. -/
def bullets (b : Sandbox F) : List (Bullet F) :=
  b.roots ++ (b.emitter?.bind (·.root?)).toList ++ b.world.bullets.toList

def bullet? (b : Sandbox F) (id : Nat) : Option (Bullet F) :=
  b.bullets.find? fun x => x.entity.id = id

def swap (new old : Bullet F) : Bullet F := if old.entity.id = new.entity.id then new else old

def replace (new : Bullet F) : Sandboxed F Unit :=
  modify fun b => { b with
    roots := b.roots.map (swap new)
    emitter? := b.emitter?.map fun e => { e with root? := e.root?.map (swap new) }
    world.bullets := b.world.bullets.map (swap new) }

def configure (c : WorldChanges F) : Sandboxed F Unit := staged (Stage.act c.apply)

def makeEntity (c : EntityChanges F) : Sandboxed F (Entity F) := do
  let entity ← staged (Stage.ask (World.make .zero (some World.emitterId)))
  pure (c.apply entity)

/-- Makes an entity and binds it to a node; the number of the entity. -/
def bind (node : NodeId) (c : EntityChanges F) : Sandboxed F (Except RunError Nat) := do
  let entity ← makeEntity c
  let b ← get
  let outcome ← staged (Bullet.bind World.host entity b.pattern node none World.emitterId)
  match outcome with
  | .error e => pure (.error e)
  | .ok bullet =>
    modify fun b => { b with roots := b.roots ++ [bullet] }
    pure (.ok entity.id)

/-- Makes an entity and an emitter for it; whether the emitter is active. An emitter that cannot be
made leaves the one before in place. -/
def emitter (c : EntityChanges F) : Sandboxed F (Except RunError Bool) := do
  let entity ← makeEntity c
  let b ← get
  let outcome ← staged (Emitter.make World.host World.emitterId entity b.pattern)
  match outcome with
  | .error e => pure (.error e)
  | .ok e =>
    modify fun b => { b with emitter? := some e }
    pure (.ok e.isActive)

def emit (position : Vec F) : Sandboxed F (Option (Option Status)) := do
  let b ← get
  match b.emitter? with
  | none => pure none
  | some e =>
    let (status?, e) ← staged (e.update World.host position)
    modify fun b => { b with emitter? := some e }
    pure (some status?)

def detach : Sandboxed F (Option (Entity F)) :=
  modifyGet fun b =>
    match b.emitter? with
    | none => (none, b)
    | some e => let (entity?, e) := e.detach; (entity?, { b with emitter? := some e })

/-- Does something with a bullet a number of times, and lists the outcomes. -/
def times (f : Bullet F → Staged (World F) (Status × Bullet F)) :
    Nat → Bullet F → Staged (World F) (List Status × Bullet F)
  | 0, b => pure ([], b)
  | n + 1, b => do
    let (status, b) ← f b
    let (rest, b) ← times f n b
    pure (status :: rest, b)

/-- Does something a number of times with the bullet of an entity, if there is one. -/
def withBullet (id n : Nat) (f : Bullet F → Staged (World F) (Status × Bullet F)) :
    Sandboxed F (Option (List Status)) := do
  let b ← get
  match b.bullet? id with
  | none => pure none
  | some bullet =>
    let (statuses, bullet) ← staged (times f n bullet)
    replace bullet
    pure (some statuses)

def step (id n : Nat) : Sandboxed F (Option (List Status)) :=
  withBullet id n (Bullet.step World.host)

def update (id n : Nat) : Sandboxed F (Option (List Status)) :=
  withBullet id n (Bullet.update World.host)

def moveOne (b : Bullet F) : Staged (World F) (Bullet F) := do
  let s ← get
  if s.world.removed.contains b.entity.id then pure b
  else
    let (_, b) ← b.update World.host
    pure b

/-- Moves every fired bullet once and drops those that were removed. -/
def tickOnce : Staged (World F) Unit := do
  let bullets ← Stage.ask fun w => (w.bullets.toList, { w with bullets := #[] })
  let moved ← bullets.mapM moveOne
  Stage.act fun w => { w with
    bullets := (moved.toArray ++ w.bullets).filter fun b => !w.removed.contains b.entity.id }

/-- A number of ticks of the fired bullets; how many there are then. -/
def tick : Nat → Sandboxed F Nat
  | 0 => do return (← get).world.bullets.size
  | n + 1 => do
    staged tickOnce
    tick n

def set (id : Nat) (c : EntityChanges F) : Sandboxed F (Option Unit) := do
  let b ← get
  match b.bullet? id with
  | none => pure none
  | some bullet =>
    replace { bullet with entity := c.apply bullet.entity }
    pure (some ())

def take (id : Nat) : Sandboxed F (Option (Bullet F)) :=
  modifyGet fun b =>
    (b.roots.find? fun x => x.entity.id = id,
      { b with roots := b.roots.filter fun x => x.entity.id ≠ id })

end Sandbox

end Barrage
