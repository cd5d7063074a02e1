import Barrage.Proofs.Task.History
import Barrage.Proofs.Task.Suspension

/-!
Going on after a wait. Until a pending wait is over, nothing behind it is done; until an action
above a finished task has started it again, the task is not done again. Both hold over any number of
ticks, so what one tick keeps is put together along the history of a bullet.
-/

set_option autoImplicit false

namespace Barrage

variable {F : Type}

/-- The second task is a later sibling of the first one or of a task above it, or is below such a
sibling. -/
def Behind (path later : TaskPath) : Prop :=
  ∃ above i j rest rest', path = above ++ i :: rest ∧ later = above ++ j :: rest' ∧ i < j

theorem not_behind_of_nil {path later : TaskPath} (nil : path = [] ∨ later = []) :
    ¬ Behind path later := by
  rintro ⟨above, i, j, rest, rest', same, same', -⟩
  rcases nil with rfl | rfl
  · cases above <;> cases same
  · cases above <;> cases same'

theorem behind_cons {i j : Nat} {path later : TaskPath} (behind : Behind (i :: path) (j :: later)) :
    i < j ∨ i = j ∧ Behind path later := by
  obtain ⟨above, k, l, rest, rest', same, same', less⟩ := behind
  cases above with
  | nil =>
    cases same
    cases same'
    exact .inl less
  | cons a above =>
    cases same
    cases same'
    exact .inr ⟨rfl, above, k, l, rest, rest', rfl, rfl, less⟩

/-! ## Events that matter -/

namespace TaskEvent

def Ends (path : TaskPath) : TaskEvent F → Prop
  | left path' .done _ => path' = path
  | _ => False

def Enters (who : TaskPath → Prop) : TaskEvent F → Prop
  | entered path _ => who path
  | _ => False

/-- An action above the task has done a pass and has started the task again. -/
def Restarts (path : TaskPath) : TaskEvent F → Prop
  | pass above _ _ => above <+: path ∧ above ≠ path
  | _ => False

instance (path : TaskPath) : DecidablePred (Restarts (F := F) path)
  | pass above _ _ => inferInstanceAs (Decidable (above <+: path ∧ above ≠ path))
  | entered .. | left .. => inferInstanceAs (Decidable False)

theorem Ends.eq {path : TaskPath} {e : TaskEvent F} (ends : e.Ends path) :
    ∃ finished, e = .left path .done finished := by
  cases e with
  | left path' status finished =>
    cases status with
    | done =>
      obtain rfl := ends
      exact ⟨finished, rfl⟩
    | running | waiting => exact ends.elim
  | entered | pass => exact ends.elim

theorem Restarts.eq {path : TaskPath} {e : TaskEvent F} (restarts : e.Restarts path) :
    ∃ above passed children, ∃ below : Cells F children,
      e = .pass above passed below ∧ above <+: path ∧ above ≠ path := by
  cases e with
  | pass above passed below => exact ⟨above, passed, _, below, rfl, restarts⟩
  | entered | left => exact restarts.elim

theorem Ends.under {path : TaskPath} {e : TaskEvent F} (ends : e.Ends path) (i : Nat) :
    (e.under i).Ends (i :: path) := by
  obtain ⟨finished, rfl⟩ := ends.eq
  exact rfl

theorem Restarts.under {path : TaskPath} {e : TaskEvent F} (restarts : e.Restarts path) (i : Nat) :
    (e.under i).Restarts (i :: path) := by
  obtain ⟨above, passed, children, below, rfl, isAbove, differ⟩ := restarts.eq
  exact ⟨List.cons_prefix_cons.2 ⟨rfl, isAbove⟩, fun same => differ (List.cons.inj same).2⟩

theorem Enters.path {who : TaskPath → Prop} {e : TaskEvent F} (enters : e.Enters who) :
    who e.path := by
  cases e with
  | entered => exact enters
  | left | pass => exact enters.elim

theorem Enters.of_under {who : TaskPath → Prop} {i : Nat} {e : TaskEvent F}
    (enters : (e.under i).Enters who) : e.Enters fun path => who (i :: path) := by
  cases e with
  | entered => exact enters
  | left | pass => exact enters.elim

theorem Enters.mono {who others : TaskPath → Prop} {e : TaskEvent F} (enters : e.Enters who)
    (wider : ∀ path, who path → others path) : e.Enters others := by
  cases e with
  | entered => exact wider _ enters
  | left | pass => exact enters.elim

end TaskEvent

/-! ## What a tick keeps -/

/-- Nothing behind a task is done before the task ends, and a state lasts until then. -/
abbrev Awaits (path : TaskPath) (trace : Trace F) (still : Prop) : Prop :=
  Keeps (TaskEvent.Ends path) (TaskEvent.Enters (Behind path)) trace still

/-- A task is not done before it has been started again, and a state lasts until then. -/
abbrev Rests (path : TaskPath) (trace : Trace F) (still : Prop) : Prop :=
  Keeps (TaskEvent.Restarts path) (TaskEvent.Enters (· = path)) trace still

theorem Keeps.around {goal : TaskEvent F → Prop} {who : TaskPath → Prop} {inside : Trace F}
    {still : Prop} {before after : Bool} {status : Status}
    (keeps : Keeps goal (TaskEvent.Enters who) inside still) (harmless : ¬ who []) :
    Keeps goal (TaskEvent.Enters who) (Trace.around before status after inside) still := by
  have begins : Keeps goal (TaskEvent.Enters who) [.entered [] before] True := by
    refine .quiet ?_ trivial
    intro e member enters
    obtain rfl := List.mem_singleton.1 member
    exact harmless enters
  refine begins.append fun _ => keeps.append fun lasts => .quiet ?_ lasts
  intro e member enters
  obtain rfl := List.mem_singleton.1 member
  exact enters

theorem Trace.Only.quiet {which : Nat → Prop} {who : TaskPath → Prop} {trace : Trace F}
    (only : trace.Only which) (harmless : ∀ i path, which i → ¬ who (i :: path)) :
    ∀ e ∈ trace, ¬ e.Enters who := by
  intro e member enters
  obtain ⟨i, path, same, holds⟩ := only e member
  have isWho := enters.path
  rw [same] at isWho
  exact harmless i path holds isWho

theorem TaskState.Pending.unfinished {path : TaskPath} {t : TaskState F}
    (pending : t.Pending path) : t.cell.finished = false := by
  cases path with
  | nil => exact pending
  | cons i path => exact pending.1

theorem not_behind_of_lt {i j : Nat} {path later : TaskPath} (less : j < i) :
    ¬ Behind (i :: path) (j :: later) := by
  intro behind
  rcases behind_cons behind with greater | ⟨rfl, -⟩
  · exact Nat.lt_asymm less greater
  · exact Nat.lt_irrefl i less

theorem Work.GoesOn.not_outcome {w : Work} {progress : w.Progress F} {status : Status}
    (goesOn : w.GoesOn progress) : ¬ w.Outcome status := by
  cases w with
  | sequence | again | action => exact id
  | wait | turn | glide | accelerate | fire | vanish => exact goesOn.elim

/-- In the tick of its siblings, what is behind a pending wait is not done before the wait has
ended. -/
theorem RanAll.awaits {ps : List (Plan F)} {below below' : Cells F ps} {clear : Bool}
    {status : Status} {trace : Trace F} (ran : RanAll 0 below clear status below' trace) {i : Nat}
    {child : TaskState F} (member : below.get? i = some child) {path : TaskPath}
    (pending : child.Pending path)
    (once : ∀ {status : Status} {cell' : Cell F child.plan} {trace : Trace F},
      Ran child.cell status cell' trace → Awaits path trace
        (status = .waiting ∧ TaskState.Pending path ⟨cell'⟩)) :
    Awaits (i :: path) trace
      (status = .waiting ∧ ∃ child', below'.get? i = some child' ∧ child'.Pending path) := by
  cases ran.visit member with
  | skipped finished =>
    rw [pending.unfinished] at finished
    cases finished
  | unreached waiting same earlier =>
    exact .quiet (earlier.quiet fun _ _ less => not_behind_of_lt less)
      ⟨waiting, child, same, pending⟩
  | visited unfinished ran there split earlier later stops =>
    rw [split]
    have ahead : Awaits (i :: path) _ True :=
      .quiet (earlier.quiet fun _ _ less => not_behind_of_lt less) trivial
    refine ahead.append fun _ => ((once ran).map (fun e ends => ends.under i) ?_).append ?_
    · intro e enters
      refine enters.of_under.mono fun later behind => ?_
      exact (behind_cons behind).elim (fun less => absurd less (Nat.lt_irrefl i)) And.right
    -- if the wait has not ended, the tick stops and nothing comes after the child
    · rintro ⟨waiting, pending⟩
      obtain ⟨waiting, rfl⟩ := stops waiting
      exact .quiet nofun ⟨waiting, _, there, pending⟩

theorem RanPasses.awaits {bound passed passed' : Nat} {ps : List (Plan F)}
    {below below' : Cells F ps} {status : Status} {trace : Trace F}
    (ran : RanPasses bound passed below status passed' below' trace) (more : passed < bound)
    {i : Nat} {child : TaskState F} (member : below.get? i = some child) {path : TaskPath}
    (pending : child.Pending path)
    (once : ∀ {status : Status} {cell' : Cell F child.plan} {trace : Trace F},
      Ran child.cell status cell' trace → Awaits path trace
        (status = .waiting ∧ TaskState.Pending path ⟨cell'⟩)) :
    Awaits (i :: path) trace
      (status = .waiting ∧ passed' < bound ∧
        ∃ child', below'.get? i = some child' ∧ child'.Pending path) := by
  cases ran with
  | spent reached => exact absurd more (Nat.not_lt.2 reached)
  | cut _ ran _ =>
    exact (ran.awaits member pending once).mono fun ⟨waiting, pending⟩ => ⟨waiting, more, pending⟩
  | pass _ ran _ rest =>
    -- the body has ended, so the wait in it has
    refine (ran.awaits member pending once).append ?_
    rintro ⟨contrary, -⟩
    cases contrary

/-- In every tick, what is behind a pending wait is not done before the wait has ended. -/
theorem Ran.awaits (path : TaskPath) {p : Plan F} (wait : p.IsWait path) {cell cell' : Cell F p}
    {status : Status} {trace : Trace F} (ran : Ran cell status cell' trace)
    (pending : TaskState.Pending path ⟨cell⟩) :
    Awaits path trace
      (status = .waiting ∧ TaskState.Pending path ⟨cell'⟩) := by
  induction path generalizing p status trace with
  | nil =>
    obtain ⟨q, e, found, work⟩ := wait
    obtain rfl := Option.some.inj found
    have harmless : ¬ Behind [] [] := not_behind_of_nil (.inl rfl)
    cases ran with
    | sequence | again | action => cases work
    | @simple _ _ _ _ _ _ _ status possible progress' =>
      cases work
      cases pending
      cases status with
      | running => exact absurd rfl possible
      | waiting =>
        exact Keeps.around (.quiet nofun ⟨rfl, rfl⟩) harmless
      -- the wait ends in this tick, after which anything may happen
      | done =>
        have begins : Awaits [] [TaskEvent.entered (F := F) [] false] True := by
          refine .quiet ?_ trivial
          intro e member enters
          obtain rfl := List.mem_singleton.1 member
          exact harmless enters
        exact begins.append fun _ => .reached rfl id
  | cons i path ih =>
    obtain ⟨q, found, wait⟩ := Plan.isWait_cons wait
    obtain ⟨-, goesOn, child, member, pending⟩ := pending
    have harmless : ¬ Behind (i :: path) [] := not_behind_of_nil (.inr rfl)
    obtain rfl := TaskState.plan_of_child found member
    have once : ∀ {status : Status} {cell' : Cell F child.plan} {trace : Trace F},
        Ran child.cell status cell' trace → Awaits path trace
          (status = .waiting ∧ TaskState.Pending path ⟨cell'⟩) :=
      fun ran => ih wait ran pending
    cases ran with
    | sequence inside | again inside =>
      refine Keeps.around ((inside.awaits member pending once).mono ?_) harmless
      rintro ⟨rfl, pending⟩
      exact ⟨rfl, rfl, trivial, pending⟩
    | action inside =>
      refine Keeps.around ((inside.awaits goesOn member pending once).mono ?_) harmless
      rintro ⟨rfl, more, pending⟩
      exact ⟨rfl, rfl, more, pending⟩
    | simple possible progress' => exact (goesOn.not_outcome possible).elim

def TaskState.FinishedAt (path : TaskPath) (t : TaskState F) : Prop :=
  ∃ t', t.at? path = some t' ∧ t'.cell.finished = true

theorem TaskState.finishedAt_cons {i : Nat} {path : TaskPath} {t : TaskState F} :
    t.FinishedAt (i :: path) ↔ ∃ child, t.cell.child? i = some child ∧ child.FinishedAt path := by
  constructor
  · rintro ⟨t', found, finished⟩
    obtain ⟨child, member, deeper⟩ := Option.bind_eq_some_iff.1 found
    exact ⟨child, member, t', deeper, finished⟩
  · rintro ⟨child, member, t', deeper, finished⟩
    exact ⟨t', Option.bind_eq_some_iff.2 ⟨child, member, deeper⟩, finished⟩

theorem RanAll.rests {ps : List (Plan F)} {below below' : Cells F ps} {clear : Bool}
    {status : Status} {trace : Trace F} (ran : RanAll 0 below clear status below' trace) {i : Nat}
    {child : TaskState F} (member : below.get? i = some child) {path : TaskPath}
    (finished : child.FinishedAt path)
    (once : ∀ {status : Status} {cell' : Cell F child.plan} {trace : Trace F},
      child.cell.finished = false → Ran child.cell status cell' trace →
        Rests path trace (TaskState.FinishedAt path ⟨cell'⟩)) :
    Rests (i :: path) trace (∃ child', below'.get? i = some child' ∧ child'.FinishedAt path) := by
  have other : ∀ j rest, j ≠ i → ¬ j :: rest = i :: path :=
    fun j rest differ same => differ (List.cons.inj same).1
  cases ran.visit member with
  | skipped _ same elsewhere => exact .quiet (elsewhere.quiet other) ⟨child, same, finished⟩
  | unreached _ same earlier =>
    exact .quiet ((earlier.mono fun _ => Nat.ne_of_lt).quiet other) ⟨child, same, finished⟩
  | visited unfinished ran there split earlier later _ =>
    rw [split]
    have ahead : Rests (i :: path) _ True :=
      .quiet ((earlier.mono fun _ => Nat.ne_of_lt).quiet other) trivial
    refine ahead.append fun _ =>
      ((once unfinished ran).map (fun e restarts => restarts.under i) ?_).append ?_
    · intro e enters
      exact enters.of_under.mono fun _ same => (List.cons.inj same).2
    · intro finished
      exact .quiet ((later.mono fun _ => Nat.ne_of_gt).quiet other) ⟨_, there, finished⟩

theorem RanPasses.rests {bound passed passed' : Nat} {ps : List (Plan F)}
    {below below' : Cells F ps} {status : Status} {trace : Trace F}
    (ran : RanPasses bound passed below status passed' below' trace) {i : Nat}
    {child : TaskState F} (member : below.get? i = some child) {path : TaskPath}
    (finished : child.FinishedAt path)
    (once : ∀ {status : Status} {cell' : Cell F child.plan} {trace : Trace F},
      child.cell.finished = false → Ran child.cell status cell' trace →
        Rests path trace (TaskState.FinishedAt path ⟨cell'⟩)) :
    Rests (i :: path) trace (∃ child', below'.get? i = some child' ∧ child'.FinishedAt path) := by
  cases ran with
  | spent _ => exact .quiet nofun ⟨child, member, finished⟩
  | cut _ ran _ => exact ran.rests member finished once
  | pass _ ran _ rest =>
    -- a pass starts all tasks below it again
    exact (ran.rests member finished once).append fun _ => .reached ⟨List.nil_prefix, nofun⟩ id

/-- In every tick, a finished task is not done before it has been started again. -/
theorem Ran.rests (path : TaskPath) {p : Plan F} {cell cell' : Cell F p} {status : Status}
    {trace : Trace F} (ran : Ran cell status cell' trace)
    (proper : path ≠ [] ∨ cell.finished = false) (finished : TaskState.FinishedAt path ⟨cell⟩) :
    Rests path trace (TaskState.FinishedAt path ⟨cell'⟩) := by
  induction path generalizing p status trace with
  | nil =>
    obtain ⟨t, found, finished⟩ := finished
    obtain rfl := Option.some.inj found
    rcases proper with contrary | unfinished
    · exact absurd rfl contrary
    · rw [unfinished] at finished
      cases finished
  | cons i path ih =>
    obtain ⟨child, member, ended⟩ := TaskState.finishedAt_cons.1 finished
    have once : ∀ {status : Status} {cell' : Cell F child.plan} {trace : Trace F},
        child.cell.finished = false → Ran child.cell status cell' trace →
          Rests path trace (TaskState.FinishedAt path ⟨cell'⟩) :=
      fun unfinished ran => ih ran (.inr unfinished) ended
    rw [TaskState.finishedAt_cons]
    cases ran with
    | sequence inside | again inside =>
      exact Keeps.around (inside.rests member ended once) nofun
    | action inside => exact Keeps.around (inside.rests member ended once) nofun
    | simple => exact Keeps.around (.quiet nofun ⟨child, member, ended⟩) nofun

/-! ## What histories keep -/

namespace Bullet

variable {b b' : Bullet F} {trace : Trace F} [Scalar F]

theorem Goes.awaits (goes : b.Goes trace b') {path : TaskPath} (wait : b.plan.IsWait path)
    (pending : TaskState.Pending path ⟨b.cell⟩) :
    Awaits path trace (b'.plan.IsWait path ∧ TaskState.Pending path ⟨b'.cell⟩) := by
  refine goes.keeps (P := fun b => b.plan.IsWait path ∧ TaskState.Pending path ⟨b.cell⟩) ?_ ?_
    ⟨wait, pending⟩
  · rintro b status cell entity trace ⟨wait, pending⟩ ran
    exact (ran.awaits path wait pending).mono fun ⟨_, pending⟩ => ⟨wait, pending⟩
  · exact fun b entity => id

theorem Goes.rests (goes : b.Goes trace b') {path : TaskPath} (proper : path ≠ [])
    (finished : TaskState.FinishedAt path ⟨b.cell⟩) :
    Rests path trace (TaskState.FinishedAt path ⟨b'.cell⟩) := by
  refine goes.keeps (P := fun b => TaskState.FinishedAt path ⟨b.cell⟩) ?_ ?_ finished
  · exact fun b status cell entity trace finished ran => ran.rests path (.inl proper) finished
  · exact fun b entity => id

/-- In every history of a bullet: a tick waits only if a wait does. When a wait waits, nothing else
is done in the tick but that the tasks above end their ticks, all of them waiting. From then on, no
task behind the wait is done before the wait has ended, and no task that is finished then is done
before an action above it has started it again. -/
theorem waits_suspend {b₀ b b₁ : Bullet F} {trace : Trace F} (bound : b₀.Bound)
    (goes : b₀.Goes trace b) {σ : Type} (h : Host F σ) (s : Stage σ) (status : Status)
    (stepped : ((b.step h).run s).1 = (status, b₁)) :
    (status = .waiting → ∃ path finished,
      b.plan.IsWait path ∧ .left path .waiting finished ∈ b.stepTrace h s) ∧
    ∀ path before finished after, b.plan.IsWait path →
      b.stepTrace h s = before ++ .left path .waiting finished :: after →
        status = .waiting ∧ after = closing path ∧
        ∀ later b₂, b₁.Goes later b₂ →
          (∀ path' before finished after, later = before ++ .entered path' finished :: after →
            Behind path path' → ∃ finished, .left path .done finished ∈ before) ∧
          (∀ path' t before finished after, b₁.cell.at? path' = some t → t.cell.finished = true →
            later = before ++ .entered path' finished :: after →
              ∃ above passed children, ∃ below : Cells F children,
                .pass above passed below ∈ before ∧ above <+: path' ∧ above ≠ path') := by
  obtain ⟨status', cell, entity, same, ran⟩ := step_ran h b s
  rw [stepped] at same
  cases same
  have work : b.plan.work = .sequence := goes.plan_eq ▸ bound.work
  refine ⟨ran.exists_wait, ?_⟩
  intro path before finished after wait split
  obtain ⟨waiting, closed, pending⟩ :=
    ran.suspends path wait (.inr work) before finished after split
  refine ⟨waiting, closed, ?_⟩
  intro later b₂ goes'
  constructor
  · intro path' before finished after split behind
    obtain ⟨e, member, ends⟩ := (goes'.awaits wait pending).1 before _ after split behind
    obtain ⟨finished, rfl⟩ := ends.eq
    exact ⟨finished, member⟩
  · intro path' t before finished after found ended split
    -- the first task is unfinished, as it is above the wait or is the wait
    have proper : path' ≠ [] := by
      rintro rfl
      obtain rfl := Option.some.inj found
      rw [pending.unfinished] at ended
      cases ended
    obtain ⟨e, member, restarts⟩ :=
      (goes'.rests proper ⟨t, found, ended⟩).1 before _ after split rfl
    obtain ⟨above, passed, children, below, rfl, isAbove⟩ := restarts.eq
    exact ⟨above, passed, children, below, member, isAbove⟩

open scoped Sample in
theorem waits_suspend_sample :
    Sample.bullet.Bound ∧ Sample.bullet.Goes [] Sample.bullet ∧
    ∃ b, ((Sample.bullet.step Sample.host).run Sample.stage).1 = (.waiting, b) ∧
      ∀ later b' before finished after, b.Goes later b' →
        later = before ++ .entered [1] finished :: after →
          ∃ finished, .left [0, 0, 0] .done finished ∈ before := by
  have goes : Sample.bullet.Goes [] Sample.bullet := .refl _
  obtain ⟨-, suspends⟩ :=
    waits_suspend Sample.bound goes Sample.host Sample.stage .waiting rfl
  have wait : Sample.bullet.plan.IsWait [0, 0, 0] := ⟨_, _, rfl, rfl⟩
  have split : Sample.bullet.stepTrace Sample.host Sample.stage =
      [.entered [] false, .entered [0] false, .entered [0, 0] false, .entered [0, 0, 0] false] ++
        .left [0, 0, 0] .waiting false :: closing [0, 0, 0] := rfl
  obtain ⟨-, -, after⟩ := suspends [0, 0, 0] _ false _ wait split
  refine ⟨Sample.bound, goes, _, rfl, ?_⟩
  intro later b' before finished behind goes' same
  refine (after later b' goes').1 [1] before finished behind same ?_
  exact ⟨[], 0, 1, [0, 0], [], rfl, rfl, Nat.zero_lt_one⟩

end Bullet

end Barrage
