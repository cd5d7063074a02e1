import Barrage.Emitter
import Barrage.Json
import Barrage.Settings.Basic

/-!
Simulations: a pattern runs for a number of ticks from one emitter, in a world of its own. Bullets
are moved after the emitter, in the order in which they were fired; what is removed in a tick is
gone at its end. A report counts what happened.
-/

set_option autoImplicit false

namespace Barrage

abbrev NameCounts := List (String × Nat)

def NameCounts.add (name : String) : NameCounts → NameCounts
  | [] => [(name, 1)]
  | (k, n) :: rest =>
    if name < k then (name, 1) :: (k, n) :: rest
    else if name = k then (k, n + 1) :: rest
    else (k, n) :: NameCounts.add name rest

structure Report where
  ticks : Nat := 0
  spawned : Nat := 0
  removed : Nat := 0
  refused : Nat := 0
  alive : Nat := 0
  peakAlive : Nat := 0
  emitterActive : Bool := false
  spawnedByPattern : NameCounts := []
  deriving DecidableEq, Repr

namespace Report

def text (r : Report) : String :=
  s!"Ticks: {r.ticks}\nSpawned: {r.spawned}\nRemoved: {r.removed}\nRefused: {r.refused}\n"
    ++ s!"Alive: {r.alive}\nPeak alive: {r.peakAlive}\nEmitter active: {r.emitterActive}"
    ++ String.join (r.spawnedByPattern.map fun (name, n) => s!"\n  spawned {name} x{n}")

def json (r : Report) : Json :=
  .object [
    ("ticks", .number r.ticks),
    ("spawned", .number r.spawned),
    ("removed", .number r.removed),
    ("refused", .number r.refused),
    ("alive", .number r.alive),
    ("peak_alive", .number r.peakAlive),
    ("emitter_active", .bool r.emitterActive),
    ("spawned_by_pattern", .object (r.spawnedByPattern.map fun (name, n) => (name, .number n)))]

end Report

structure Arena (F : Type) where
  lastId : Nat := 0
  target : Vec F
  rank : F
  maxEntities : Nat
  random : RandomSource F
  bullets : Array (Bullet F) := #[]
  /-- How many bullets are being moved and not among the others. -/
  moving : Nat := 0
  /-- The emitter's entity, while its removal would matter. -/
  root? : Option Nat := none
  removed : List Nat := []
  report : Report := {}

namespace Arena

variable {F : Type} [Scalar F]

def emitterId : EmitterId := 1

def ofSettings (s : SimulationSettings F) (random : RandomSource F) : Arena F where
  target := ⟨s.target.1, s.target.2⟩
  rank := s.rank
  maxEntities := s.maxEntities
  random

/-- The bullets that are alive, those that are being moved included. -/
def alive (a : Arena F) : Nat := a.moving + a.bullets.size

def allocate (position : Vec F) (emitter : EmitterId) (a : Arena F) : Entity F × Arena F :=
  let id := a.lastId + 1
  (.resting id position (some emitter), { a with lastId := id })

def create (e : Emission F) (a : Arena F) : Option (Entity F) × Arena F :=
  if a.alive ≥ a.maxEntities then
    (none, { a with report.refused := a.report.refused + 1 })
  else
    let (entity, a) := a.allocate e.position e.emitter
    (some entity, a)

def spawn (b : Bullet F) (a : Arena F) : Arena F :=
  let name := b.entity.spawnedAs?.getD Entity.unnamed
  { a with
    bullets := a.bullets.push b
    report.spawned := a.report.spawned + 1
    report.spawnedByPattern := a.report.spawnedByPattern.add name }

def remove (e : Entity F) (a : Arena F) : Arena F :=
  if a.removed.contains e.id then a
  else { a with removed := e.id :: a.removed, report.removed := a.report.removed + 1 }

def host : Host F (Arena F) where
  create := create
  spawn := spawn
  remove := remove
  target _ a := a.target
  rank a := a.rank
  random a := let (x, random) := a.random.next; (x, { a with random })

def moveOne (b : Bullet F) : Staged (Arena F) (Bullet F) := do
  let s ← get
  if s.world.removed.contains b.entity.id then pure b
  else
    let (_, b) ← b.update host
    pure b

def takeOut (a : Arena F) : List (Bullet F) × Arena F :=
  (a.bullets.toList, { a with bullets := #[], moving := a.bullets.size })

/-- Puts the bullets that were moved back before those that were fired meanwhile. What was removed
is gone then; only the removal of the emitter's entity stays noted. -/
def putBack (moved : List (Bullet F)) (a : Arena F) : Arena F :=
  { a with
    moving := 0
    bullets := (moved.toArray ++ a.bullets).filter fun b => !a.removed.contains b.entity.id
    removed := a.removed.filter fun id => some id = a.root? }

def tick : Staged (Arena F) Unit := do
  let bullets ← Stage.ask takeOut
  let moved ← bullets.mapM moveOne
  Stage.act (putBack moved)

/-- Whether the emitter's entity was removed since it was last asked. -/
def takeRootRemoval (a : Arena F) : Bool × Arena F :=
  match a.root? with
  | none => (false, a)
  | some root =>
    if a.removed.contains root then
      (true, { a with removed := a.removed.filter (· ≠ root), root? := none })
    else (false, a)

def notePeak (a : Arena F) : Arena F :=
  { a with report.peakAlive := max a.report.peakAlive a.alive }

def dropRemoved (e : Emitter F) : Staged (Arena F) (Emitter F) := do
  let gone ← Stage.ask takeRootRemoval
  pure (if gone then e.detach.2 else e)

def turn (origin : Vec F) (e : Emitter F) : Staged (Arena F) (Emitter F) := do
  let e ← dropRemoved e
  let (_, e) ← Emitter.update host origin e
  tick
  Stage.act notePeak
  pure e

def turns (origin : Vec F) : Nat → Emitter F → Staged (Arena F) (Emitter F)
  | 0, e => pure e
  | n + 1, e => do
    let e ← turn origin e
    turns origin n e

def finish (ticks : Nat) (e : Emitter F) (a : Arena F) : Report :=
  { a.report with ticks, alive := a.alive, emitterActive := e.isActive }

def makeRoot (origin : Vec F) (a : Arena F) : Entity F × Arena F :=
  let (root, a) := a.allocate origin emitterId
  (root, { a with root? := some root.id })

def run (s : SimulationSettings F) (p : Pattern) : Staged (Arena F) (Except RunError Report) := do
  let origin : Vec F := ⟨s.origin.1, s.origin.2⟩
  let root ← Stage.ask (makeRoot origin)
  let outcome ← Emitter.make host emitterId root p
  match outcome with
  | .error e => pure (.error e)
  | .ok e =>
    let e ← turns origin s.ticks e
    let e ← dropRemoved e
    let a ← get
    let r := a.world.finish s.ticks e
    Stage.log fun j => j.success .simulationComplete "Simulation complete"
      [("ticks", toString r.ticks), ("spawned", toString r.spawned), ("alive", toString r.alive)]
    pure (.ok r)

end Arena

def simulate {F : Type} [Scalar F] (s : SimulationSettings F) (random : RandomSource F)
    (p : Pattern) : Logged (Except RunError Report) :=
  modifyGet fun journal =>
    let (outcome, a) := (Arena.run s p).run { world := .ofSettings s random, journal }
    (outcome, a.journal)

end Barrage
