import Barrage.Task.Run

/-!
Bullets in the world: one tick of their tasks, and one tick of their tasks and their way.
-/

set_option autoImplicit false

namespace Barrage.Bullet

variable {F σ : Type} [Scalar F]

def env (h : Host F σ) (b : Bullet F) : Env F σ :=
  { host := h, pattern := b.pattern, emitter := b.emitter }

def step (h : Host F σ) (b : Bullet F) : Staged σ (Status × Bullet F) :=
  modifyGet fun s =>
    let ((status, cell), a) := ((b.env h).run b.scope b.plan b.cell).run
      { toStage := s, entity := b.entity }
    ((status, { b with cell, entity := a.entity }), a.toStage)

def update (h : Host F σ) (b : Bullet F) : Staged σ (Status × Bullet F) := do
  let (status, b) ← b.step h
  pure (status, { b with entity := b.entity.moved })

def aim (h : Host F σ) (b : Bullet F) (world : σ) : F :=
  Angle.aim b.entity.position (h.target b.entity world)

def isFinished (b : Bullet F) : Bool := b.cell.finished

def taskCount (b : Bullet F) : Nat := b.plan.size

def tasks (b : Bullet F) : List (TaskRow F) := TaskRow.ofCell 0 none b.scope b.plan b.cell

/-- The first task whose node has a label, of a kind if one is given. -/
def findTask? (b : Bullet F) (label : String) (kind? : Option Kind) : Option (TaskRow F) :=
  b.tasks.find? fun row =>
    match b.pattern.tree.node? row.node with
    | some n => n.hasLabel label && (kind?.map fun k => decide (n.kind = k)).getD true
    | none => false

def param? (b : Bullet F) (task index : Nat) : Option F :=
  (b.tasks[task]?).bind fun row => row.frames.param? index

end Barrage.Bullet
