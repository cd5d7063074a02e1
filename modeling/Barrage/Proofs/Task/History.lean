import Barrage.Proofs.Task.Order
import Barrage.Proofs.Task.Tick

/-!
The histories of bullets, from the moment when an entity is bound. The first task of a bullet does
the tasks below it in order, at first all tasks are fresh, and each tick is a possible tick of the
first task.
-/

set_option autoImplicit false

namespace Barrage

variable {F σ : Type} [Scalar F]

theorem Plan.work_of_build {h : Host F σ} {p : Pattern} {scope : Frames F} {i : NodeId}
    {s s' : Stage σ} {plan : Plan F} (built : (Plan.build h p scope i).run s = (.ok plan, s')) :
    plan.work = .sequence := by
  have ended : Ends (Assembly.root p h scope i) { toStage := s } plan
      ((Assembly.root p h scope i).run.run { toStage := s }).2 :=
    Prod.ext (congrArg Prod.fst built :) rfl
  rw [Assembly.root, Ends.bind_iff] at ended
  obtain ⟨_, _, -, ended⟩ := ended
  rw [Ends.bind_iff] at ended
  obtain ⟨below, _, -, ended⟩ := ended
  obtain ⟨rfl, -⟩ := Ends.pure_iff.1 ended
  rfl

/-! ## Bound bullets -/

namespace Bullet

/-- The bullet comes from binding an entity to a node of a pattern. -/
def Bound (b : Bullet F) : Prop :=
  ∃ (σ : Type) (h : Host F σ) (entity : Entity F) (p : Pattern) (node : NodeId)
    (scope? : Option (Frames F)) (emitter : EmitterId) (s s' : Stage σ),
    (Bullet.bind h entity p node scope? emitter).run s = (.ok b, s')

namespace Bound

variable {b : Bullet F}

/-- The tasks of a bound bullet are a plan that was made for its node and was started. -/
theorem built_and_started (bound : b.Bound) : (∃ (σ : Type) (h : Host F σ) (s s' : Stage σ),
      (Plan.build h b.pattern b.scope b.node).run s = (.ok b.plan, s')) ∧
    ∃ (σ : Type) (h : Host F σ) (a : Actor F σ), b.cell = ((b.plan.start h b.scope).run a).1 := by
  obtain ⟨σ, h, entity, p, node, scope?, emitter, s, s', ended⟩ := bound
  rw [Bullet.bind, run_bind_eq] at ended
  cases built : (Plan.build h p (scope?.getD []) node).run s with
  | mk outcome t =>
    rw [built] at ended
    cases outcome with
    | error e => cases ended
    | ok plan =>
      cases ended
      exact ⟨⟨σ, h, s, t, built⟩, σ, h, _, rfl⟩

/-- The tasks of a bound bullet are a plan that was made for its node, and all of them are fresh. -/
theorem built_and_fresh (bound : b.Bound) : (∃ (σ : Type) (h : Host F σ) (s s' : Stage σ),
    (Plan.build h b.pattern b.scope b.node).run s = (.ok b.plan, s')) ∧ b.cell.Fresh := by
  obtain ⟨built, σ, h, a, started⟩ := bound.built_and_started
  rw [started]
  exact ⟨built, b.plan.start_fresh h b.scope a⟩

theorem work (bound : b.Bound) : b.plan.work = .sequence :=
  let ⟨_, _, _, _, built⟩ := bound.built_and_fresh.1
  Plan.work_of_build built

theorem fresh (bound : b.Bound) : b.cell.Fresh := bound.built_and_fresh.2

end Bound

theorem exists_bound {h : Host F σ} {p : Pattern} {node : NodeId} {s s' : Stage σ} {plan : Plan F}
    (entity : Entity F) (scope? : Option (Frames F)) (emitter : EmitterId)
    (built : (Plan.build h p (scope?.getD []) node).run s = (.ok plan, s')) :
    ∃ b : Bullet F, b.Bound ∧ b.pattern = p ∧ b.plan = plan ∧ b.scope? = scope? := by
  let bullet (r : Cell F plan × Actor F σ) : Bullet F :=
    { entity := r.2.entity.named (p.tree.patternName? node), pattern := p, node, plan,
      cell := r.1, scope?, emitter }
  let r := (plan.start h (scope?.getD [])).run { toStage := s', entity }
  refine ⟨bullet r, ⟨σ, h, entity, p, node, scope?, emitter, s, r.2.toStage, ?_⟩, rfl, rfl, rfl⟩
  rw [Bullet.bind, run_bind_eq, built]
  rfl

/-! ## Ticks of bullets -/

theorem step_ran (h : Host F σ) (b : Bullet F) (s : Stage σ) :
    ∃ status cell entity, ((b.step h).run s).1 = (status, { b with cell, entity }) ∧
      Ran b.cell status cell (b.stepTrace h s) := by
  -- the tick is the traced one without its trace, and that is possible
  let a : Actor F σ := { toStage := s, entity := b.entity }
  have same := (b.env h).untraced_traced b.scope b.plan b.cell a
  have step : ((b.step h).run s).1 =
      let r := ((b.env h).run b.scope b.plan b.cell).run a
      (r.1.1, { b with cell := r.1.2, entity := r.2.entity }) := rfl
  rw [step, ← same]
  exact ⟨_, _, _, rfl, (b.env h).ran_traced b.scope b.plan b.cell a⟩

namespace Goes

variable {b b' : Bullet F} {trace : Trace F}

theorem eq_with (goes : b.Goes trace b') : ∃ cell entity, b' = { b with cell, entity } := by
  induction goes with
  | refl => exact ⟨b.cell, b.entity, rfl⟩
  | step before h s ih =>
    obtain ⟨status, cell, entity, same, -⟩ := step_ran h _ s
    rw [same]
    obtain ⟨cell', entity', rfl⟩ := ih
    exact ⟨cell, entity, rfl⟩
  | write before entity ih =>
    obtain ⟨cell', entity', rfl⟩ := ih
    exact ⟨cell', entity, rfl⟩

theorem plan_eq (goes : b.Goes trace b') : b'.plan = b.plan := by
  obtain ⟨cell, entity, rfl⟩ := goes.eq_with
  rfl

theorem keeps {goal bad : TaskEvent F → Prop} {P : Bullet F → Prop} (goes : b.Goes trace b')
    (tick : ∀ b status cell entity trace, P b → Ran b.cell status cell trace →
      Keeps goal bad trace (P { b with cell, entity }))
    (write : ∀ b entity, P b → P { b with entity }) (start : P b) :
    Keeps goal bad trace (P b') := by
  induction goes with
  | refl => exact .quiet nofun start
  | step before h s ih =>
    obtain ⟨status, cell, entity, same, ran⟩ := step_ran h _ s
    rw [same]
    exact ih.append fun lasts => tick _ status cell entity _ lasts ran
  | write before entity ih => exact ih.mono (write _ entity)

end Goes

end Bullet

/-! ## A small bullet

It does an action with a wait twice, and then it vanishes. Its numbers are whole, and its host has
nothing to answer. -/

namespace Sample

scoped instance : Scalar Int where
  zero := 0
  one := 1
  pi := 3
  ofDecimal d := if d.negative then -d.digits else d.digits
  le a b := a ≤ b
  lt a b := a < b
  sin _ := 0
  cos _ := 1
  atan2 _ _ := 0
  floor x := x
  text := toString

def constant (n : Nat) : Expression := { term? := some (.number (.ofNat n)) }

def tree : Tree :=
  Tree.empty
    |>.push { kind := .action } none
    |>.push { kind := .repeat } (some 0)
    |>.push { kind := .times, expression := constant 2 } (some 1)
    |>.push { kind := .action } (some 1)
    |>.push { kind := .wait, expression := constant 1 } (some 3)
    |>.push { kind := .vanish } (some 0)

def pattern : Pattern := { tree, links := (Links.blank 6).setRepeat 3 1 }

def host : Host Int Unit where
  create _ s := (none, s)
  spawn _ s := s
  remove _ s := s
  target _ _ := ⟨0, 0⟩
  rank _ := 0
  random s := (0, s)

def stage : Stage Unit := ⟨(), {}⟩

def entity : Entity Int := .resting 0 ⟨0, 0⟩ none

def plan : Plan Int :=
  .mk 0 [] .sequence
    [.mk 1 [] .again [.mk 3 [] (.action 2) [.mk 4 [] (.wait (constant 1)) []]],
      .mk 5 [] .vanish []]

def bullet : Bullet Int where
  entity := entity.named (tree.patternName? 0)
  pattern := pattern
  node := 0
  plan := plan
  cell := ((plan.start host []).run { toStage := stage, entity }).1
  scope? := none
  emitter := 0

def fast : Bullet Int := { bullet with entity := { bullet.entity with timeScale := 5 } }

/-- The plan of the pattern in any arithmetic. How often the action is done is all that is
computed. -/
theorem run_build {F σ : Type} [Scalar F] (h : Host F σ) (s : Stage σ) :
    (Plan.build h pattern [] 0).run s =
      let (times, s') := (h.evaluate [[], []] (constant 2)).run s
      (.ok (.mk 0 [] .sequence
        [.mk 1 [] .again
          [.mk 3 [] (.action (Scalar.floor times)) [.mk 4 [] (.wait (constant 1)) []]],
          .mk 5 [] .vanish []]), s') := by
  -- one equation a node, since the recursion over nodes does not compute by itself
  have wait : ∀ outer, Assembly.node pattern h 0 outer 4 = (do
      Assembly.claim
      pure [.mk 4 [] (.wait (constant 1)) []]) := by
    intro outer
    rw [Assembly.node]
    rfl
  have action : ∀ outer, Assembly.node pattern h 0 outer 3 = (do
      let bound ← Assembly.passes pattern h outer 3
      Assembly.claim
      let below ← [4].mapM (Assembly.node pattern h 0 ([] :: outer))
      pure [.mk 3 [] (.action bound) below.flatten]) := by
    intro outer
    rw [Assembly.node]
    rfl
  have times : ∀ outer, Assembly.node pattern h 0 outer 2 = pure [] := by
    intro outer
    rw [Assembly.node]
    rfl
  have around : ∀ outer, Assembly.node pattern h 0 outer 1 = (do
      Assembly.claim
      let below ← [2, 3].mapM (Assembly.node pattern h 0 ([] :: outer))
      pure [.mk 1 [] .again below.flatten]) := by
    intro outer
    rw [Assembly.node]
    rfl
  have vanish : ∀ outer, Assembly.node pattern h 0 outer 5 = (do
      Assembly.claim
      pure [.mk 5 [] .vanish []]) := by
    intro outer
    rw [Assembly.node]
    rfl
  have children : pattern.tree.children 0 = [1, 5] := rfl
  simp only [Plan.build, Assembly.root, children, List.mapM_cons, List.mapM_nil, around, times,
    action, wait, vanish]
  rfl

theorem build_eq : (Plan.build host pattern [] 0).run stage = (.ok plan, stage) :=
  run_build host stage

theorem bound : bullet.Bound := by
  refine ⟨Unit, host, entity, pattern, 0, none, 0, stage, stage, ?_⟩
  rw [Bullet.bind, run_bind_eq]
  simp only [Option.getD, build_eq]
  rfl

theorem goes_fast : bullet.Goes [] fast := .write (.refl bullet) _

end Sample

end Barrage
