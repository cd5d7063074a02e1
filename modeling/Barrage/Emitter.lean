import Barrage.Bullet

/-!
Emitters: where a pattern enters the world. An emitter binds its entity to the first entry point of
the pattern; for every further one it asks the host for an entity at the same place.
-/

set_option autoImplicit false

namespace Barrage

structure Emitter (F : Type) where
  id : EmitterId
  pattern : Pattern
  /-- The bullet of the emitter's own entity, while it is bound. -/
  root? : Option (Bullet F)

namespace Emitter

variable {F σ : Type} [Scalar F] (h : Host F σ)

/-- Binds an entity of its own to a further entry point. What fails is logged and skipped. -/
def addEntry (id : EmitterId) (p : Pattern) (position : Vec F) (entry : NodeId) :
    Staged σ Unit := do
  let entity? ← Stage.ask (h.create ⟨id, position⟩)
  match entity? with
  | none =>
    Stage.log fun j => j.warn .spawnFailed "Host refused an entity for an additional entry point"
      [Env.nodeDetail entry]
  | some entity =>
    let outcome ← Bullet.bind h { entity with position } p entry none id
    match outcome with
    | .ok b => Stage.act (h.spawn b)
    | .error e =>
      Stage.log fun j => j.error e.code ("Entry point could not be bound: " ++ e.message)
        [Env.nodeDetail entry]

/-- An emitter for an entity. Without entry points the entity is removed and nothing is bound; only
a failure at the first entry point is one of the emitter. -/
def make (id : EmitterId) (entity : Entity F) (p : Pattern) :
    Staged σ (Except RunError (Emitter F)) := do
  match p.entryPoints with
  | [] =>
    Stage.log fun j => j.error .noEntryPoint
      "Pattern has no top-level action; removing emitter entity" [("emitter", toString id)]
    Stage.act (h.remove entity)
    pure (.ok { id, pattern := p, root? := none })
  | first :: further =>
    let outcome ← Bullet.bind h entity p first none id
    match outcome with
    | .error e => pure (.error e)
    | .ok root =>
      further.forM (addEntry h id p entity.position)
      Stage.log fun j => j.success .entityBound "Emitter bound to pattern"
        [("emitter", toString id), ("entry_points", toString (further.length + 1))]
      pure (.ok { id, pattern := p, root? := some root })

/-- Moves the emitter's entity to a place and does one tick of it, if it is bound. -/
def update (position : Vec F) (e : Emitter F) : Staged σ (Option Status × Emitter F) := do
  match e.root? with
  | none => pure (none, e)
  | some root =>
    let (status, root) ← Bullet.update h { root with entity.position := position }
    pure (some status, { e with root? := some root })

def isActive (e : Emitter F) : Bool := e.root?.isSome

def detach (e : Emitter F) : Option (Entity F) × Emitter F :=
  (e.root?.map (·.entity), { e with root? := none })

end Emitter

end Barrage
