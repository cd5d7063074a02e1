import Barrage.Proofs.Task.Child
import Barrage.Proofs.Task.History

/-!
Finished tasks. A finished task is not done again by the task above it, a tick ends well exactly for
a task that is finished then, and a bullet whose first task has ended does nothing any more.
-/

set_option autoImplicit false

namespace Barrage

variable {F σ : Type}

namespace TaskEvent

/-! ## What is done is not finished -/

/-- What holds of all events of tasks that are done by another task. -/
def Regular : TaskEvent F → Prop
  | entered _ finished => finished = false
  | left _ status finished => status = .done ↔ finished = true
  | pass _ _ below => below.Fresh

theorem Regular.under {e : TaskEvent F} (regular : e.Regular) (i : Nat) : (e.under i).Regular := by
  cases e <;> exact regular

end TaskEvent

theorem Status.isDone_iff (status : Status) : status = .done ↔ status.isDone = true := by
  cases status <;> decide

/-- What is done is regular if what is done inside is and the task was not finished. -/
theorem Trace.regular_around {before after : Bool} {status : Status} {inside : Trace F}
    (unfinished : before = false) (ended : status = .done ↔ after = true)
    (regular : ∀ e ∈ inside, e.Regular) :
    ∀ e ∈ Trace.around before status after inside, e.Regular := by
  intro e member
  rcases List.mem_cons.1 member with rfl | member
  · exact unfinished
  · rcases List.mem_append.1 member with member | member
    · exact regular e member
    · obtain rfl := List.mem_singleton.1 member
      exact ended

theorem Trace.regular_under {trace : Trace F} (regular : ∀ e ∈ trace, e.Regular) (i : Nat) :
    ∀ e ∈ trace.map (TaskEvent.under i), e.Regular := by
  intro e member
  obtain ⟨inner, found, rfl⟩ := List.mem_map.1 member
  exact (regular inner found).under i

mutual

theorem Ran.regular {p : Plan F} {cell cell' : Cell F p} {status : Status} {trace : Trace F}
    (ran : Ran cell status cell' trace) (unfinished : cell.finished = false) :
    ∀ e ∈ trace, e.Regular := by
  match ran with
  | .sequence inside | .again inside | .action inside =>
    exact Trace.regular_around unfinished status.isDone_iff inside.regular
  | .simple _ _ =>
    refine Trace.regular_around unfinished ?_ nofun
    rw [Cell.finished_mk] at unfinished
    rw [unfinished, Bool.false_or]
    exact status.isDone_iff
termination_by structural ran

theorem RanAll.regular {i : Nat} {ps : List (Plan F)} {below below' : Cells F ps} {clear : Bool}
    {status : Status} {trace : Trace F} (ran : RanAll i below clear status below' trace) :
    ∀ e ∈ trace, e.Regular := by
  match ran with
  | .nil => nofun
  | .skip _ rest => exact rest.regular
  | .stop unfinished once => exact Trace.regular_under (once.regular unfinished) i
  | .go unfinished once _ rest =>
    intro e member
    rcases List.mem_append.1 member with member | member
    · exact Trace.regular_under (once.regular unfinished) i e member
    · exact rest.regular e member
termination_by structural ran

theorem RanPasses.regular {bound passed passed' : Nat} {ps : List (Plan F)}
    {below below' : Cells F ps} {status : Status} {trace : Trace F}
    (ran : RanPasses bound passed below status passed' below' trace) : ∀ e ∈ trace, e.Regular := by
  match ran with
  | .spent _ => nofun
  | .cut _ once _ => exact once.regular
  | .pass _ once fresh rest =>
    intro e member
    rcases List.mem_append.1 member with member | member
    · exact once.regular e member
    · rcases List.mem_cons.1 member with rfl | member
      · exact fresh
      · exact rest.regular e member
termination_by structural ran

end

/-! ## When everything is finished -/

def Cells.Finished {ps : List (Plan F)} (below : Cells F ps) : Prop :=
  ∀ i t, below.get? i = some t → t.cell.finished = true

theorem Cells.finished_cons {p : Plan F} {ps : List (Plan F)} {head : Cell F p}
    {tail : Cells F ps} :
    (Cells.cons head tail).Finished ↔ head.finished = true ∧ tail.Finished := by
  constructor
  · intro finished
    exact ⟨finished 0 ⟨head⟩ rfl, fun i t found => finished (i + 1) t found⟩
  · rintro ⟨headFinished, others⟩ i t found
    cases i with
    | zero =>
      cases found
      exact headFinished
    | succ i => exact others i t found

theorem Ran.finished {p : Plan F} {cell cell' : Cell F p} {status : Status} {trace : Trace F}
    (ran : Ran cell status cell' trace) (ended : status = .done) : cell'.finished = true := by
  subst ended
  cases ran with
  | simple => exact Bool.or_true _
  | _ => rfl

theorem RanAll.finished {i : Nat} {ps : List (Plan F)} {below below' : Cells F ps} {clear : Bool}
    {status : Status} {trace : Trace F} (ran : RanAll i below clear status below' trace)
    (ended : status = .done) : clear = true ∧ below'.Finished := by
  induction ran with
  | @nil i clear =>
    cases clear with
    | true => exact ⟨rfl, nofun⟩
    | false => cases ended
  | skip finished rest ih =>
    obtain ⟨clear, others⟩ := ih ended
    exact ⟨clear, Cells.finished_cons.2 ⟨finished, others⟩⟩
  | stop => cases ended
  | go unfinished once on rest ih =>
    -- the rest begins clear only if the first task has ended
    obtain ⟨clear, others⟩ := ih ended
    obtain ⟨clear, isDone⟩ := Bool.and_eq_true_iff.1 clear
    exact ⟨clear, Cells.finished_cons.2 ⟨once.finished ((Status.isDone_iff _).2 isDone), others⟩⟩

theorem RanAll.trace_of_finished {i : Nat} {ps : List (Plan F)} {below below' : Cells F ps}
    {clear : Bool} {status : Status} {trace : Trace F}
    (ran : RanAll i below clear status below' trace) (finished : below.Finished) : trace = [] := by
  induction ran with
  | nil => rfl
  | skip _ rest ih => exact ih (Cells.finished_cons.1 finished).2
  | stop unfinished | go unfinished =>
    rw [(Cells.finished_cons.1 finished).1] at unfinished
    cases unfinished

theorem Ran.inside {p : Plan F} {cell cell' : Cell F p} {status : Status} {trace : Trace F}
    (ran : Ran cell status cell' trace) (work : p.work = .sequence) :
    ∃ (below below' : Cells F p.children) (inside : Trace F),
      RanAll 0 below true status below' inside ∧
      trace = .around cell.finished status status.isDone inside ∧
      cell.child? = below.get? ∧ cell'.child? = below'.get? ∧ cell'.finished = status.isDone := by
  cases ran with
  | sequence inside => exact ⟨_, _, _, inside, rfl, rfl, rfl, rfl⟩
  | again => cases work
  | action => cases work
  | simple possible =>
    cases work
    exact possible.elim

/-! ## Bullets that have ended -/

structure Bullet.Settled (b : Bullet F) : Prop where
  work : b.plan.work = .sequence
  finished : b.cell.finished = true
  below : ∀ i t, b.cell.child? i = some t → t.cell.finished = true

theorem Bullet.settled_of_done {b : Bullet F} {cell : Cell F b.plan} {trace : Trace F}
    (work : b.plan.work = .sequence) (ran : Ran b.cell .done cell trace) (entity : Entity F) :
    Settled { b with cell, entity } := by
  obtain ⟨below, below', inside, all, -, -, children, finished⟩ := ran.inside work
  refine ⟨work, finished, ?_⟩
  intro i t found
  change cell.child? i = _ at found
  rw [children] at found
  exact (all.finished rfl).2 i t found

variable [Scalar F]

theorem Env.runAll_of_finished (env : Env F σ) (outer : Frames F) : (ps : List (Plan F)) →
    (below : Cells F ps) → (clear : Bool) → below.Finished →
    env.runAll outer ps below clear = pure (.ofDone clear, below)
  | [], .nil, clear, _ => rfl
  | p :: ps, .cons head tail, clear, finished => by
    obtain ⟨headFinished, others⟩ := Cells.finished_cons.1 finished
    rw [Env.runAll, if_pos headFinished, env.runAll_of_finished outer ps tail clear others]
    rfl

theorem Env.run_of_finished (env : Env F σ) (outer : Frames F) {p : Plan F} (cell : Cell F p)
    (work : p.work = .sequence) (finished : cell.finished = true)
    (below : ∀ i t, cell.child? i = some t → t.cell.finished = true) :
    env.run outer p cell = pure (.done, cell) := by
  cases cell with
  | mk flag progress cells =>
    cases work
    cases finished
    rw [Env.run, env.runAll_of_finished _ _ cells true below]
    rfl

namespace Bullet

variable {b b' : Bullet F} {trace : Trace F}

theorem Settled.step_eq (settled : b.Settled) (h : Host F σ) : b.step h = pure (.done, b) := by
  have nothing := (b.env h).run_of_finished b.scope b.cell settled.work settled.finished
    settled.below
  simp only [step, nothing]
  rfl

theorem Goes.regular (goes : b.Goes trace b') (work : b.plan.work = .sequence) :
    ∀ e ∈ trace, e.Regular ∨ ∃ finished, e = .entered [] finished := by
  induction goes with
  | refl => nofun
  | step before h s ih =>
    obtain ⟨status, cell, entity, -, ran⟩ := step_ran h _ s
    obtain ⟨below, below', inside, all, same, -⟩ := ran.inside (before.plan_eq ▸ work)
    intro e member
    -- the first task may have been finished before; all others are done by a task
    rcases List.mem_append.1 member with member | member
    · exact ih e member
    · rw [same] at member
      rcases List.mem_cons.1 member with rfl | member
      · exact .inr ⟨_, rfl⟩
      · refine .inl (Trace.regular_around rfl status.isDone_iff all.regular e ?_)
        exact List.mem_cons_of_mem _ member
  | write before entity ih => exact ih

theorem Goes.settled (goes : b.Goes trace b') (settled : b.Settled) :
    b'.Settled ∧ b' = { b with entity := b'.entity } ∧ ∀ e ∈ trace, e.path = [] := by
  induction goes with
  | refl => exact ⟨settled, rfl, nofun⟩
  | step before h s ih =>
    obtain ⟨settled, same, quiet⟩ := ih
    obtain ⟨status, cell, entity, -, ran⟩ := step_ran h _ s
    obtain ⟨below, below', inside, all, trace, children, -⟩ := ran.inside settled.work
    have finished : below.Finished := by
      intro i t found
      rw [← children] at found
      exact settled.below i t found
    have nothing : inside = [] := all.trace_of_finished finished
    rw [settled.step_eq h, trace, nothing]
    refine ⟨settled, same, ?_⟩
    intro e member
    rcases List.mem_append.1 member with member | member
    · exact quiet e member
    · rcases List.mem_pair.1 member with rfl | rfl <;> rfl
  | write before entity ih =>
    obtain ⟨settled, same, quiet⟩ := ih
    refine ⟨⟨settled.work, settled.finished, settled.below⟩, ?_, quiet⟩
    rw [same]

/-- In every history of a bullet, no task does a finished task below it; a tick of a task ends well
exactly if the task is finished then; and once a tick of the whole bullet has ended well, later
ticks end well, do nothing in the world and change nothing, whatever hosts do to the entity. -/
theorem finished_tasks_rest {b₀ b : Bullet F} {trace : Trace F} (bound : b₀.Bound)
    (goes : b₀.Goes trace b) :
    (∀ path finished, .entered path finished ∈ trace → path ≠ [] → finished = false) ∧
    (∀ path status finished, .left path status finished ∈ trace →
      (status = .done ↔ finished = true)) ∧
    ∀ {σ : Type} (h : Host F σ) (s : Stage σ) (b₁ : Bullet F) (later : Trace F) (b₂ : Bullet F),
      ((b.step h).run s).1 = (.done, b₁) → b₁.Goes later b₂ →
        b₂ = { b₁ with entity := b₂.entity } ∧ (∀ e ∈ later, e.path = []) ∧
        ∀ {σ' : Type} (h' : Host F σ'), b₂.step h' = pure (.done, b₂) := by
  have regular := goes.regular bound.work
  refine ⟨?_, ?_, ?_⟩
  · intro path finished member proper
    rcases regular _ member with unfinished | ⟨finished', same⟩
    · exact unfinished
    · cases same
      exact absurd rfl proper
  · intro path status finished member
    rcases regular _ member with ended | ⟨finished', same⟩
    · exact ended
    · cases same
  · intro σ h s b₁ later b₂ ended goes'
    obtain ⟨status, cell, entity, same, ran⟩ := step_ran h b s
    rw [ended] at same
    cases same
    have work : b.plan.work = .sequence := goes.plan_eq ▸ bound.work
    obtain ⟨settled, unchanged, quiet⟩ := goes'.settled (settled_of_done work ran entity)
    exact ⟨unchanged, quiet, settled.step_eq⟩

open scoped Sample in
theorem finished_tasks_rest_sample :
    Sample.bullet.Bound ∧ Sample.bullet.Goes [] Sample.fast ∧
    ∃ b, ((Sample.fast.step Sample.host).run Sample.stage).1 = (.done, b) ∧
      ∀ later b', b.Goes later b' →
        ∀ {σ : Type} (h : Host Int σ), b'.step h = pure (.done, b') := by
  have rests := finished_tasks_rest Sample.bound Sample.goes_fast
  refine ⟨Sample.bound, Sample.goes_fast, _, rfl, ?_⟩
  intro later b' goes σ h
  exact (rests.2.2 Sample.host Sample.stage _ later b' rfl goes).2.2 h

end Bullet

end Barrage
