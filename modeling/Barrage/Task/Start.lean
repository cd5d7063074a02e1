import Barrage.Task.Build

/-!
Starting tasks. A task is prepared after all tasks below it: durations and goals are computed from
the entity as it is then. Starting again keeps what fires remember of their shots, except below a
repeat, which is reset: there fires count their shots afresh.
-/

set_option autoImplicit false

namespace Barrage

variable {F σ : Type} [Scalar F] (h : Host F σ)

open Actor

def evaluateIf (frames : Frames F) : Option Expression → Acting F σ (Option F)
  | none => pure none
  | some e => do
    let x ← Actor.evaluate h frames e
    pure (some x)

def goalIf (frames : Frames F) : Option Wanted → Acting F σ (Option (Easing.Goal F))
  | none => pure none
  | some w => do
    let x ← Actor.evaluate h frames w.expression
    pure (some ⟨w.policy, x⟩)

def duration (frames : Frames F) (term? : Option Expression) : Acting F σ F := do
  let x? ← evaluateIf h frames term?
  pure (x?.getD Scalar.zero)

def Work.prepare (frames : Frames F) : (w : Work) → Acting F σ (w.Progress F)
  | .sequence | .again | .vanish => pure ()
  | .action _ => pure (0 : Nat)
  | .wait e => Actor.evaluate h frames e
  | .fire .. => pure (⟨0, Scalar.zero, Scalar.zero⟩ : Shots F)
  | .turn direction? term? => do
    let d ← duration h frames term?
    let goal? ← goalIf h frames direction?
    let e ← entityNow
    let aim ← aim h
    pure (Turn.make goal? d e.direction aim)
  | .glide speed? term? => do
    let d ← duration h frames term?
    let goal? ← goalIf h frames speed?
    let e ← entityNow
    pure (Glide.ofSpeed goal? d e.speed)
  | .accelerate horizontal? vertical? term? => do
    let d ← duration h frames term?
    let x? ← goalIf h frames horizontal?
    let y? ← goalIf h frames vertical?
    let e ← entityNow
    pure (Glide.ofAcceleration x? y? d e.acceleration)

/-- How far a task is when it is reset. A fire counts afresh, and its last shot stays noted until it
fires once more. -/
def Work.prepareReset (frames : Frames F) :
    (w : Work) → w.Progress F → Acting F σ (w.Progress F)
  | .fire .., shots => pure ({ shots with count := 0 } : Shots F)
  | w, _ => w.prepare h frames

/-- How far a task is when it is started again; fires go on counting. -/
def Work.prepareAgain (frames : Frames F) :
    (w : Work) → w.Progress F → Acting F σ (w.Progress F)
  | .fire .., shots => pure shots
  | w, _ => w.prepare h frames

mutual

def Plan.start (outer : Frames F) : (p : Plan F) → Acting F σ (Cell F p)
  | .mk _ args work children => do
    let below ← Plan.startAll (args :: outer) children
    let progress ← work.prepare h (args :: outer)
    pure (.mk false progress below)

def Plan.startAll (outer : Frames F) : (ps : List (Plan F)) → Acting F σ (Cells F ps)
  | [] => pure .nil
  | p :: ps => do
    let head ← Plan.start outer p
    let tail ← Plan.startAll outer ps
    pure (.cons head tail)

end

mutual

def Plan.reset (outer : Frames F) : (p : Plan F) → Cell F p → Acting F σ (Cell F p)
  | .mk _ args work children, .mk _ progress below => do
    let below ← Plan.resetAll (args :: outer) children below
    let progress ← work.prepareReset h (args :: outer) progress
    pure (.mk false progress below)

def Plan.resetAll (outer : Frames F) :
    (ps : List (Plan F)) → Cells F ps → Acting F σ (Cells F ps)
  | [], .nil => pure .nil
  | p :: ps, .cons head tail => do
    let head ← Plan.reset outer p head
    let tail ← Plan.resetAll outer ps tail
    pure (.cons head tail)

end

mutual

def Plan.restart (outer : Frames F) : (p : Plan F) → Cell F p → Acting F σ (Cell F p)
  | .mk node args work children, .mk finished progress below =>
    match work, progress with
    | .again, progress =>
      Plan.reset h outer (.mk node args .again children) (.mk finished progress below)
    | work, progress => do
      let below ← Plan.restartAll (args :: outer) children below
      let progress ← work.prepareAgain h (args :: outer) progress
      pure (.mk false progress below)

def Plan.restartAll (outer : Frames F) :
    (ps : List (Plan F)) → Cells F ps → Acting F σ (Cells F ps)
  | [], .nil => pure .nil
  | p :: ps, .cons head tail => do
    let head ← Plan.restart outer p head
    let tail ← Plan.restartAll outer ps tail
    pure (.cons head tail)

end

theorem Plan.restart_eq (outer : Frames F) {node : NodeId} {args : List F} {work : Work}
    {children : List (Plan F)} (other : work ≠ .again) (finished : Bool)
    (progress : work.Progress F) (below : Cells F children) :
    Plan.restart h outer (.mk node args work children) (.mk finished progress below) = (do
      let below ← Plan.restartAll h (args :: outer) children below
      let progress ← work.prepareAgain h (args :: outer) progress
      pure (.mk false progress below)) := by
  rw [Plan.restart]
  exact fun _ again _ => other again

/-- Binds an entity to a node of a pattern and starts its tasks. An entity that cannot be bound is
removed. -/
def Bullet.bind (entity : Entity F) (p : Pattern) (node : NodeId)
    (scope? : Option (Frames F)) (emitter : EmitterId) : Staged σ (Except RunError (Bullet F)) := do
  let scope := scope?.getD []
  let outcome ← Plan.build h p scope node
  match outcome with
  | .error e =>
    Stage.act (h.remove entity)
    pure (.error e)
  | .ok plan =>
    modifyGet fun s =>
      let (cell, a) := (plan.start h scope).run { toStage := s, entity }
      let entity := a.entity.named (p.tree.patternName? node)
      (.ok { entity, pattern := p, node, plan, cell, scope?, emitter }, a.toStage)

end Barrage
