import Barrage.Task.Shot

/-!
One tick of a plan. Tasks below a task are done in order, those that are finished are passed over. A
wait that is not over ends the tick for all tasks behind it. An action does what is below it as
often as it has passes left, starting it again after each pass.
-/

set_option autoImplicit false

namespace Barrage

inductive Status where
  /-- Not finished; tasks behind may go on in this tick. -/
  | running
  | waiting
  | done
  deriving DecidableEq, Repr

variable {F σ : Type} [Scalar F]

open Actor

def Status.isDone (s : Status) : Bool := s = .done

def Status.ofDone (done : Bool) : Status := if done then .done else .running

/-- Does a body up to `left` times more. The first pass that does not finish ends the tick; the
number of passes that are done is counted on. -/
def passesOver {S : Type} (body : S → Acting F σ (Status × S)) (again : S → Acting F σ S) :
    (left passed : Nat) → S → Acting F σ (Status × Nat × S)
  | 0, passed, s => pure (.done, passed, s)
  | left + 1, passed, s => do
    let (status, s) ← body s
    match status with
    | .done => do
      let s ← again s
      passesOver body again left (passed + 1) s
    | status => pure (status, passed, s)

namespace Env

variable (env : Env F σ)

/-- A tick of a wait: the time that is left, and whether it is over. -/
def tickWait (left : F) : Acting F σ (Status × F) := do
  let e ← entityNow
  let left := left - e.timeScale
  pure (if Scalar.le Scalar.zero left then (.waiting, left) else (.done, left))

def tickTurn (t : Turn F) : Acting F σ (Bool × Turn F) := do
  let e ← entityNow
  let (direction, ended, t) := t.step e.direction e.timeScale
  change fun e => { e with direction }
  pure (ended, t)

def tickGlide (g : Glide F F) : Acting F σ (Bool × Glide F F) := do
  let e ← entityNow
  let (speed, ended, g) := g.step e.speed e.timeScale
  change fun e => { e with speed }
  pure (ended, g)

def tickAcceleration (g : Glide (Vec F) F) : Acting F σ (Bool × Glide (Vec F) F) := do
  let e ← entityNow
  let (acceleration, ended, g) := g.step e.acceleration e.timeScale
  change fun e => { e with acceleration }
  pure (ended, g)

def vanish (node : NodeId) : Acting F σ Unit := do
  let e ← entityNow
  staged do
    Stage.log fun j => j.debug "Entity vanished" fun _ => [nodeDetail node]
    Stage.act (env.host.remove e)

mutual

def run (outer : Frames F) : (p : Plan F) → Cell F p → Acting F σ (Status × Cell F p)
  | .mk node args work children, .mk finished progress below =>
    match work, progress with
    | .sequence, progress => do
      let (status, below) ← runAll (args :: outer) children below true
      pure (status, .mk status.isDone progress below)
    | .again, progress => do
      let (status, below) ← runAll (args :: outer) children below true
      pure (status, .mk status.isDone progress below)
    | .action bound, passed => do
      let (status, passed, below) ← passesOver
        (fun below => runAll (args :: outer) children below true)
        (Plan.restartAll env.host (args :: outer) children)
        (bound - Int.ofNat passed).toNat passed below
      pure (status, .mk status.isDone passed below)
    | .wait _, left => do
      let (status, left) ← tickWait left
      pure (status, .mk (finished || status.isDone) left below)
    | .turn .., t => do
      let (ended, t) ← tickTurn t
      pure (.ofDone ended, .mk (finished || ended) t below)
    | .glide .., g => do
      let (ended, g) ← tickGlide g
      pure (.ofDone ended, .mk (finished || ended) g below)
    | .accelerate .., g => do
      let (ended, g) ← tickAcceleration g
      pure (.ofDone ended, .mk (finished || ended) g below)
    | .fire direction speed, shots => do
      let shots ← env.shoot node (args :: outer) children direction speed shots
      pure (.done, .mk true shots below)
    | .vanish, progress => do
      env.vanish node
      pure (.done, .mk true progress below)

/-- Does tasks in order for one tick, until one waits; `clear` tells whether all tasks before are
finished. -/
def runAll (outer : Frames F) : (ps : List (Plan F)) → Cells F ps → (clear : Bool) →
    Acting F σ (Status × Cells F ps)
  | [], .nil, clear => pure (.ofDone clear, .nil)
  | p :: ps, .cons head tail, clear =>
    if head.finished then do
      let (status, tail) ← runAll outer ps tail clear
      pure (status, .cons head tail)
    else do
      let (status, head) ← run outer p head
      match status with
      | .waiting => pure (.waiting, .cons head tail)
      | status => do
        let (status, tail) ← runAll outer ps tail (clear && status.isDone)
        pure (status, .cons head tail)

end

end Env

end Barrage
