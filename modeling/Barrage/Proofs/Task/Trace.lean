import Barrage.Bullet
import Barrage.Proofs.Computation

/-!
What tasks do during ticks, written down in order. The computation that writes the trace is the tick
of the model with the trace beside it: without the trace it is the tick itself. Histories put any
number of ticks together, with any hosts and with any changes that hosts make to the entity.
-/

set_option autoImplicit false

namespace Barrage

/-- The way down to a task: for each task on it the number of the child that is next. -/
abbrev TaskPath := List Nat

inductive TaskEvent (F : Type) where
  /-- A tick of a task begins; tells whether the task was finished already. -/
  | entered (path : TaskPath) (finished : Bool)
  /-- A tick of a task ends; tells whether the task is finished now. -/
  | left (path : TaskPath) (status : Status) (finished : Bool)
  /-- An action has done all tasks below it once more and has started them again. -/
  | pass (path : TaskPath) (passed : Nat) {children : List (Plan F)} (below : Cells F children)

abbrev Trace (F : Type) := List (TaskEvent F)

variable {F σ : Type}

namespace TaskEvent

def path : TaskEvent F → TaskPath
  | entered path _ => path
  | left path .. => path
  | pass path .. => path

/-- The same as seen from the task above, of which the task is a child. -/
def under (i : Nat) : TaskEvent F → TaskEvent F
  | entered path finished => entered (i :: path) finished
  | left path status finished => left (i :: path) status finished
  | pass path passed below => pass (i :: path) passed below

@[simp] theorem path_under (i : Nat) (e : TaskEvent F) : (e.under i).path = i :: e.path := by
  cases e <;> rfl

theorem under_eq_left {i : Nat} {e : TaskEvent F} {path : TaskPath} {status : Status}
    {finished : Bool} :
    e.under i = .left path status finished ↔ ∃ r, e = .left r status finished ∧ path = i :: r := by
  constructor
  · cases e <;> simp +contextual [under, eq_comm]
  · rintro ⟨r, rfl, rfl⟩
    rfl

end TaskEvent

/-! ## Ticks with their traces -/

def Trace.around (before : Bool) (status : Status) (after : Bool) (inside : Trace F) : Trace F :=
  .entered [] before :: (inside ++ [.left [] status after])

open Actor

def untraced {α : Type} : (Status × α × Trace F) × Actor F σ → (Status × α) × Actor F σ
  | ((status, x, _), a) => ((status, x), a)

section Passes

variable {S : Type}

def tracedPasses (body : S → Acting F σ (Status × S × Trace F)) (again : S → Acting F σ S)
    (pass : Nat → S → TaskEvent F) :
    (left passed : Nat) → S → Acting F σ (Status × Nat × S × Trace F)
  | 0, passed, s => pure (.done, passed, s, [])
  | left + 1, passed, s => do
    let (status, s, trace) ← body s
    match status with
    | .done => do
      let s ← again s
      let (status, last, s', rest) ← tracedPasses body again pass left (passed + 1) s
      pure (status, last, s', trace ++ pass (passed + 1) s :: rest)
    | status => pure (status, passed, s, trace)

theorem run_tracedPasses {body : S → Acting F σ (Status × S)}
    {tracedBody : S → Acting F σ (Status × S × Trace F)}
    (same : ∀ s a, untraced ((tracedBody s).run a) = (body s).run a)
    (again : S → Acting F σ S) (pass : Nat → S → TaskEvent F) (left passed : Nat) (s : S)
    (a : Actor F σ) :
    (passesOver body again left passed s).run a =
      (match (tracedPasses tracedBody again pass left passed s).run a with
        | ((status, passed, s, _), a) => ((status, passed, s), a)) := by
  induction left generalizing passed s a with
  | zero => rfl
  | succ left ih =>
    rw [passesOver, tracedPasses, run_bind_eq, run_bind_eq, ← same]
    cases (tracedBody s).run a with
    | mk outcome a =>
      obtain ⟨status, s, trace⟩ := outcome
      cases status with
      | running | waiting => rfl
      | done =>
        simp only [untraced, run_bind_eq, ih]
        rfl

end Passes

variable [Scalar F]

namespace Env

variable (env : Env F σ)

mutual

def traced (outer : Frames F) :
    (p : Plan F) → Cell F p → Acting F σ (Status × Cell F p × Trace F)
  | .mk node args work children, .mk finished progress below =>
    match work, progress with
    | .sequence, progress => do
      let (status, below, trace) ← tracedAll (args :: outer) 0 children below true
      pure (status, .mk status.isDone progress below, .around finished status status.isDone trace)
    | .again, progress => do
      let (status, below, trace) ← tracedAll (args :: outer) 0 children below true
      pure (status, .mk status.isDone progress below, .around finished status status.isDone trace)
    | .action bound, passed => do
      let (status, passed, below, trace) ← tracedPasses
        (fun below => tracedAll (args :: outer) 0 children below true)
        (Plan.restartAll env.host (args :: outer) children)
        (fun passed below => .pass [] passed below)
        (bound - Int.ofNat passed).toNat passed below
      pure (status, .mk status.isDone passed below, .around finished status status.isDone trace)
    -- all other tasks leave the tasks below them alone
    | work, progress => do
      let (status, cell) ← env.run outer (.mk node args work children) (.mk finished progress below)
      pure (status, cell, .around finished status cell.finished [])

/-- Does tasks in order for one tick, until one waits; the first of them is child number `i`. -/
def tracedAll (outer : Frames F) (i : Nat) :
    (ps : List (Plan F)) → Cells F ps → (clear : Bool) →
      Acting F σ (Status × Cells F ps × Trace F)
  | [], .nil, clear => pure (.ofDone clear, .nil, [])
  | p :: ps, .cons head tail, clear =>
    if head.finished then do
      let (status, tail, rest) ← tracedAll outer (i + 1) ps tail clear
      pure (status, .cons head tail, rest)
    else do
      let (status, head, trace) ← traced outer p head
      match status with
      | .waiting => pure (.waiting, .cons head tail, trace.map (TaskEvent.under i))
      | status => do
        let (status, tail, rest) ← tracedAll outer (i + 1) ps tail (clear && status.isDone)
        pure (status, .cons head tail, trace.map (TaskEvent.under i) ++ rest)

end

/-! ## Ticks without their traces -/

mutual

theorem untraced_traced (outer : Frames F) : (p : Plan F) → (cell : Cell F p) → (a : Actor F σ) →
    untraced ((env.traced outer p cell).run a) = (env.run outer p cell).run a
  | .mk node args work children, .mk finished progress below, a => by
    have all := untraced_tracedAll (args :: outer) 0 children
    cases work with
    | sequence | again =>
      simp only [traced, run, run_bind_eq, ← all below true a]
      rfl
    | action bound =>
      have passes := run_tracedPasses (fun s a => all s true a)
        (Plan.restartAll env.host (args :: outer) children)
        (fun passed below => .pass [] passed below) (bound - Int.ofNat progress).toNat progress
        below a
      simp only [traced, run, run_bind_eq]
      erw [passes]
      rfl
    | _ => rfl

theorem untraced_tracedAll (outer : Frames F) (i : Nat) : (ps : List (Plan F)) →
    (below : Cells F ps) → (clear : Bool) → (a : Actor F σ) →
    untraced ((env.tracedAll outer i ps below clear).run a)
      = (env.runAll outer ps below clear).run a
  | [], .nil, clear, a => rfl
  | p :: ps, .cons head tail, clear, a => by
    rw [tracedAll, runAll]
    split
    · simp only [run_bind_eq, ← untraced_tracedAll outer (i + 1) ps tail clear a]
      rfl
    · simp only [run_bind_eq, ← untraced_traced outer p head a]
      cases (env.traced outer p head).run a with
      | mk outcome a =>
        obtain ⟨status, head, trace⟩ := outcome
        cases status with
        | waiting => rfl
        | running | done =>
          simp only [untraced, run_bind_eq, ← untraced_tracedAll outer (i + 1) ps tail _ a]
          rfl

end

end Env

/-! ## Histories -/

namespace Bullet

def stepTrace (h : Host F σ) (b : Bullet F) (s : Stage σ) : Trace F :=
  (((b.env h).traced b.scope b.plan b.cell).run { toStage := s, entity := b.entity }).1.2.2

/-- What can become of a bullet, and what its tasks do meanwhile: it goes through ticks, each in a
world of its own, and hosts change its entity. -/
inductive Goes : Bullet F → Trace F → Bullet F → Prop where
  | refl (b : Bullet F) : Goes b [] b
  | step {b b' : Bullet F} {trace : Trace F} {σ : Type} (before : Goes b trace b')
      (h : Host F σ) (s : Stage σ) : Goes b (trace ++ b'.stepTrace h s) ((b'.step h).run s).1.2
  | write {b b' : Bullet F} {trace : Trace F} (before : Goes b trace b') (entity : Entity F) :
      Goes b trace { b' with entity }

end Bullet

end Barrage
