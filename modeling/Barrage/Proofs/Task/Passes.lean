import Barrage.Proofs.Task.Finished
import Barrage.Proofs.Task.Resumption

/-!
The passes of actions. The passes that an action has done are counted along the trace: a pass of the
action counts one more, and a pass of an action above it starts it again, so that it has none. The
count is what the action remembers, never more than its bound, and is the bound when it ends.
-/

set_option autoImplicit false

namespace Barrage

variable {F : Type}

/-! ## Counting along a trace -/

/-- What an event means for the number of passes that the action at a path has done. -/
def TaskEvent.Counts (path : TaskPath) (bound : Nat) : TaskEvent F → Nat → Nat → Prop
  | entered .., n, n' => n' = n
  | left path' status _, n, n' => n' = n ∧ (path' = path → status = .done → n = bound)
  | pass path' passed _, n, n' =>
    (path' = path → passed = n + 1 ∧ passed ≤ bound ∧ n' = passed) ∧
      (path' <+: path → path' ≠ path → n' = 0) ∧ (¬ path' <+: path → n' = n)

/-- What a trace means for the number of passes that the action at a path has done. -/
def Trace.Counts (path : TaskPath) (bound : Nat) : Trace F → Nat → Nat → Prop
  | [], n, n' => n' = n
  | e :: trace, n, n' => ∃ k, e.Counts path bound n k ∧ Trace.Counts path bound trace k n'

namespace Trace.Counts

variable {path : TaskPath} {bound k m n : Nat} {trace trace' : Trace F}

theorem append_iff :
    Trace.Counts path bound (trace ++ trace') n m ↔
      ∃ k, Trace.Counts path bound trace n k ∧ Trace.Counts path bound trace' k m := by
  induction trace generalizing n with
  | nil => exact ⟨fun counts => ⟨n, rfl, counts⟩, fun ⟨_, same, counts⟩ => same ▸ counts⟩
  | cons e trace ih =>
    constructor
    · rintro ⟨l, step, counts⟩
      obtain ⟨k, ahead, behind⟩ := ih.1 counts
      exact ⟨k, ⟨l, step, ahead⟩, behind⟩
    · rintro ⟨k, ⟨l, step, ahead⟩, behind⟩
      exact ⟨l, step, ih.2 ⟨k, ahead, behind⟩⟩

theorem quiet (n : Nat) (elsewhere : ∀ e ∈ trace, ¬ e.path <+: path) :
    Trace.Counts path bound trace n n := by
  induction trace with
  | nil => rfl
  | cons e trace ih =>
    have apart := elsewhere e List.mem_cons_self
    refine ⟨n, ?_, ih fun e member => elsewhere e (List.mem_cons_of_mem _ member)⟩
    cases e with
    | entered => rfl
    | left path' status finished => exact ⟨rfl, fun same => absurd (same ▸ List.prefix_rfl) apart⟩
    | pass path' passed below =>
      exact ⟨fun same => absurd (same ▸ List.prefix_rfl) apart, fun above => absurd above apart,
        fun _ => rfl⟩

theorem under (counts : Trace.Counts path bound trace n m) (i : Nat) :
    Trace.Counts (i :: path) bound (trace.map (TaskEvent.under i)) n m := by
  induction trace generalizing n with
  | nil => exact counts
  | cons e trace ih =>
    obtain ⟨k, step, counts⟩ := counts
    refine ⟨k, ?_, ih counts⟩
    cases e with
    | entered => exact step
    | left path' status finished =>
      obtain ⟨same, ends⟩ := step
      exact ⟨same, fun same => ends (List.cons.inj same).2⟩
    | pass path' passed below =>
      obtain ⟨own, above, apart⟩ := step
      refine ⟨fun same => own (List.cons.inj same).2, ?_, ?_⟩
      · intro isAbove differ
        exact above (List.cons_prefix_cons.1 isAbove).2 fun same => differ (congrArg (i :: ·) same)
      · intro isApart
        exact apart fun isAbove => isApart (List.cons_prefix_cons.2 ⟨rfl, isAbove⟩)

/-- A tick counts what is counted inside, and an action that ends it has done all its passes. -/
theorem around {before after : Bool} {status : Status}
    (counts : Trace.Counts path bound trace n m)
    (ends : path = [] → status = .done → m = bound) :
    Trace.Counts path bound (Trace.around before status after trace) n m :=
  ⟨n, rfl, append_iff.2 ⟨m, counts, m, ⟨rfl, fun same => ends same.symm⟩, rfl⟩⟩

end Trace.Counts

theorem Trace.Only.not_prefix {which : Nat → Prop} {trace : Trace F} (only : trace.Only which)
    {i : Nat} (other : ¬ which i) (path : TaskPath) : ∀ e ∈ trace, ¬ e.path <+: i :: path := by
  intro e member isPrefix
  obtain ⟨j, path', same, holds⟩ := only e member
  rw [same] at isPrefix
  obtain ⟨rfl, -⟩ := List.cons_prefix_cons.1 isPrefix
  exact other holds

/-! ## Counting in a tick -/

def TaskState.Passed (path : TaskPath) (n : Nat) (t : TaskState F) : Prop :=
  ∃ t', t.at? path = some t' ∧ t'.cell.passed = n

theorem TaskState.passed_cons {i : Nat} {path : TaskPath} {n : Nat} {t : TaskState F} :
    t.Passed (i :: path) n ↔ ∃ child, t.cell.child? i = some child ∧ child.Passed path n := by
  constructor
  · rintro ⟨t', found, passed⟩
    obtain ⟨child, member, deeper⟩ := Option.bind_eq_some_iff.1 found
    exact ⟨child, member, t', deeper, passed⟩
  · rintro ⟨child, member, t', deeper, passed⟩
    exact ⟨t', Option.bind_eq_some_iff.2 ⟨child, member, deeper⟩, passed⟩

def Tallies (path : TaskPath) (bound : Nat) (n : Nat) (t' : TaskState F) (trace : Trace F) : Prop :=
  ∃ n', n' ≤ bound ∧ t'.Passed path n' ∧ Trace.Counts path bound trace n n'

theorem RanAll.tallies {ps : List (Plan F)} {below below' : Cells F ps} {clear : Bool}
    {status : Status} {trace : Trace F} (ran : RanAll 0 below clear status below' trace)
    {i bound n : Nat} {child : TaskState F} (member : below.get? i = some child) {path : TaskPath}
    (within : n ≤ bound) (passed : child.Passed path n)
    (once : ∀ {status : Status} {cell' : Cell F child.plan} {trace : Trace F},
      Ran child.cell status cell' trace → Tallies path bound n ⟨cell'⟩ trace) :
    ∃ n', n' ≤ bound ∧ (∃ child', below'.get? i = some child' ∧ child'.Passed path n') ∧
      Trace.Counts (i :: path) bound trace n n' := by
  cases ran.visit member with
  | skipped _ same elsewhere =>
    exact ⟨n, within, ⟨child, same, passed⟩, .quiet n (elsewhere.not_prefix (· rfl) path)⟩
  | unreached _ same earlier =>
    exact ⟨n, within, ⟨child, same, passed⟩,
      .quiet n (earlier.not_prefix (Nat.lt_irrefl i) path)⟩
  | visited unfinished ran there split earlier later _ =>
    obtain ⟨n', within, passed, counts⟩ := once ran
    refine ⟨n', within, ⟨_, there, passed⟩, ?_⟩
    rw [split, Trace.Counts.append_iff]
    refine ⟨n, .quiet n (earlier.not_prefix (Nat.lt_irrefl i) path), ?_⟩
    rw [Trace.Counts.append_iff]
    exact ⟨n', counts.under i, .quiet n' (later.not_prefix (Nat.lt_irrefl i) path)⟩

theorem Cell.Fresh.passed {p q : Plan F} {cell : Cell F p} (fresh : cell.Fresh) {path : TaskPath}
    (found : p.at? path = some q) : TaskState.Passed path 0 ⟨cell⟩ := by
  rw [← TaskState.at?_plan path ⟨cell⟩, Option.map_eq_some_iff] at found
  obtain ⟨t, there, -⟩ := found
  exact ⟨t, there, (fresh path t there).2⟩

theorem RanPasses.counts {bound passed passed' : Nat} {ps : List (Plan F)}
    {below below' : Cells F ps} {status : Status} {trace : Trace F}
    (ran : RanPasses bound passed below status passed' below' trace) (within : passed ≤ bound) :
    passed' ≤ bound ∧ Trace.Counts [] bound trace passed passed' ∧
      (status = .done → passed' = bound) := by
  have inside : ∀ {below below' : Cells F ps} {status : Status} {trace : Trace F},
      RanAll 0 below true status below' trace → ∀ e ∈ trace, ¬ e.path <+: [] :=
    fun ran e member isPrefix => ran.only.not_nil member (List.prefix_nil.1 isPrefix)
  induction ran with
  | spent reached => exact ⟨within, rfl, fun _ => Nat.le_antisymm within reached⟩
  | cut more ran unfinished =>
    exact ⟨within, .quiet _ (inside ran), fun ended => absurd ended unfinished⟩
  | pass more ran fresh rest ih =>
    obtain ⟨within, counts, ends⟩ := ih more
    refine ⟨within, ?_, ends⟩
    rw [Trace.Counts.append_iff]
    refine ⟨_, .quiet _ (inside ran), _, ⟨?_, ?_, ?_⟩, counts⟩
    · exact fun _ => ⟨rfl, more, rfl⟩
    · exact fun _ differ => absurd rfl differ
    · exact fun apart => absurd List.nil_prefix apart

theorem RanPasses.tallies {above passed passed' : Nat} {ps : List (Plan F)}
    {below below' : Cells F ps} {status : Status} {trace : Trace F}
    (ran : RanPasses above passed below status passed' below' trace) {i bound n : Nat}
    {p q : Plan F} (found : ps[i]? = some p) {path : TaskPath} (there : p.at? path = some q)
    (within : n ≤ bound)
    (start : ∃ child, below.get? i = some child ∧ child.Passed path n)
    (once : ∀ {n : Nat} {cell cell' : Cell F p} {status : Status} {trace : Trace F}, n ≤ bound →
      TaskState.Passed path n ⟨cell⟩ → Ran cell status cell' trace →
        Tallies path bound n ⟨cell'⟩ trace) :
    ∃ n', n' ≤ bound ∧ (∃ child', below'.get? i = some child' ∧ child'.Passed path n') ∧
      Trace.Counts (i :: path) bound trace n n' := by
  have inside : ∀ {n : Nat} {below below' : Cells F ps} {status : Status} {trace : Trace F},
      n ≤ bound → (∃ child, below.get? i = some child ∧ child.Passed path n) →
      RanAll 0 below true status below' trace →
        ∃ n', n' ≤ bound ∧ (∃ child', below'.get? i = some child' ∧ child'.Passed path n') ∧
          Trace.Counts (i :: path) bound trace n n' := by
    rintro n below below' status trace within ⟨child, member, passed⟩ ran
    obtain ⟨cell, member'⟩ := Cells.exists_of_plan found below
    rw [member] at member'
    cases member'
    exact ran.tallies member within passed (once within passed)
  induction ran generalizing n with
  | spent reached => exact ⟨n, within, start, rfl⟩
  | cut more ran unfinished => exact inside within start ran
  | @pass passed passed' below ended started below' status trace trace' more ran fresh rest ih =>
    -- whatever the count is after the body, the pass starts the action again
    obtain ⟨k, -, -, counts⟩ := inside within start ran
    obtain ⟨cell, member⟩ := Cells.exists_of_plan found started
    obtain ⟨n', within', passed, counts'⟩ := ih (Nat.zero_le bound)
      ⟨_, member, (fresh i _ member).passed there⟩
    refine ⟨n', within', passed, ?_⟩
    rw [Trace.Counts.append_iff]
    refine ⟨k, counts, 0, ⟨?_, fun _ _ => rfl, ?_⟩, counts'⟩
    · intro contrary
      cases contrary
    · exact fun apart => absurd List.nil_prefix apart

theorem Ran.tallies (path : TaskPath) {p q : Plan F} {bound : Int} (there : p.at? path = some q)
    (action : q.work = .action bound) {cell cell' : Cell F p} {status : Status} {trace : Trace F}
    {n : Nat} (within : n ≤ bound.toNat) (passed : TaskState.Passed path n ⟨cell⟩)
    (ran : Ran cell status cell' trace) : Tallies path bound.toNat n ⟨cell'⟩ trace := by
  induction path generalizing p status trace n with
  | nil =>
    obtain rfl := Option.some.inj there
    obtain ⟨t, found, rfl⟩ := passed
    obtain rfl := Option.some.inj found
    cases ran with
    | sequence | again => cases action
    | action inside =>
      cases action
      obtain ⟨within, counts, ends⟩ := inside.counts within
      exact ⟨_, within, ⟨_, rfl, rfl⟩, counts.around fun _ => ends⟩
    | simple possible =>
      cases action
      exact possible.elim
  | cons i path ih =>
    obtain ⟨child, member, done⟩ := TaskState.passed_cons.1 passed
    rw [Plan.at?, Option.bind_eq_some_iff] at there
    obtain ⟨q', found, there⟩ := there
    obtain rfl := TaskState.plan_of_child found member
    unfold Tallies
    simp only [TaskState.passed_cons]
    have proper : ∀ {P : Prop}, i :: path = [] → P := fun contrary =>
      absurd contrary (List.cons_ne_nil i path)
    cases ran with
    | sequence inside | again inside =>
      obtain ⟨n', within', passed', counts⟩ :=
        inside.tallies member within done (ih there within done)
      exact ⟨n', within', passed', counts.around proper⟩
    | action inside =>
      obtain ⟨n', within', passed', counts⟩ :=
        inside.tallies found there within ⟨child, member, done⟩ (ih there)
      exact ⟨n', within', passed', counts.around proper⟩
    | simple => exact ⟨n, within, ⟨child, member, done⟩, .around rfl proper⟩

/-! ## Counting in a history -/

def TaskEvent.isPass (path : TaskPath) : TaskEvent F → Bool
  | pass path' _ _ => path' = path
  | _ => false

namespace Trace.Counts

variable {path : TaskPath} {bound m n : Nat} {trace : Trace F}

/-- Unless the action is started again, the count grows by the passes of the action. -/
theorem eq_add_countP (counts : Trace.Counts path bound trace n m)
    (goesOn : ∀ e ∈ trace, ¬ e.Restarts path) : m = n + trace.countP (TaskEvent.isPass path) := by
  induction trace generalizing n with
  | nil => exact counts
  | cons e trace ih =>
    obtain ⟨k, step, counts⟩ := counts
    have rest := ih counts fun e member => goesOn e (List.mem_cons_of_mem _ member)
    have continues := goesOn e List.mem_cons_self
    rw [rest, List.countP_cons]
    cases e with
    | entered => rw [step, if_neg nofun, Nat.add_zero]
    | left => rw [step.1, if_neg nofun, Nat.add_zero]
    | pass path' passed below =>
      obtain ⟨own, -, apart⟩ := step
      -- a pass of another action counts only if that action is above, and then the run is over
      by_cases same : path' = path
      · have counted : (TaskEvent.pass path' passed below).isPass path = true := decide_eq_true same
        obtain ⟨next, -, rfl⟩ := own same
        rw [if_pos counted, next, Nat.add_right_comm, Nat.add_assoc]
      · have uncounted : ¬ (TaskEvent.pass path' passed below).isPass path = true :=
          fun contrary => same (of_decide_eq_true contrary)
        have isApart : ¬ path' <+: path := fun isAbove => continues ⟨isAbove, same⟩
        rw [if_neg uncounted, apart isApart, Nat.add_zero]

theorem eq_zero_of_restarts {restart : TaskEvent F}
    (counts : Trace.Counts path bound (trace ++ [restart]) n m) (restarts : restart.Restarts path) :
    m = 0 := by
  obtain ⟨k, -, l, last, rfl⟩ := append_iff.1 counts
  obtain ⟨above, passed, children, below, rfl, isAbove, differ⟩ := restarts.eq
  exact last.2.1 isAbove differ

theorem le_of_mem_pass (counts : Trace.Counts path bound trace n m) {passed : Nat}
    {children : List (Plan F)} {below : Cells F children}
    (member : .pass path passed below ∈ trace) : passed ≤ bound := by
  obtain ⟨before, after, rfl⟩ := List.append_of_mem member
  obtain ⟨k, -, l, ⟨own, -⟩, -⟩ := append_iff.1 counts
  exact (own rfl).2.1

end Trace.Counts

namespace Bullet

variable {b b' : Bullet F} {trace : Trace F} [Scalar F]

theorem Goes.tallies (goes : b.Goes trace b') {path : TaskPath} {q : Plan F} {bound : Int}
    (there : b.plan.at? path = some q) (action : q.work = .action bound) {n : Nat}
    (within : n ≤ bound.toNat) (passed : TaskState.Passed path n ⟨b.cell⟩) :
    Tallies path bound.toNat n ⟨b'.cell⟩ trace := by
  induction goes with
  | refl => exact ⟨n, within, passed, rfl⟩
  | step before h s ih =>
    obtain ⟨k, within, passed, counts⟩ := ih
    obtain ⟨status, cell, entity, same, ran⟩ := step_ran h _ s
    rw [← before.plan_eq] at there
    obtain ⟨m, within, passed, counts'⟩ := ran.tallies path there action within passed
    rw [same]
    exact ⟨m, within, passed, Trace.Counts.append_iff.2 ⟨k, counts, counts'⟩⟩
  | write before entity ih => exact ih

/-- In every history of a bullet: an action never has more passes done than its bound, and each pass
leaves all tasks below it fresh. From the moment when the action is started to the moment when it
ends, it does its body as often as its bound says, no matter how ticks divide the passes. -/
theorem actions_do_their_passes {b₀ b : Bullet F} {trace : Trace F} (bound : b₀.Bound)
    (goes : b₀.Goes trace b) {path : TaskPath} {q : Plan F} {passes : Int}
    (there : b₀.plan.at? path = some q) (action : q.work = .action passes) :
    (∃ t, b.cell.at? path = some t ∧ t.plan = q ∧
      0 ≤ (t.cell.passed : Int) ∧ (t.cell.passed : Int) ≤ max passes 0) ∧
    (∀ (passed : Nat) children (below : Cells F children), .pass path passed below ∈ trace →
      (passed : Int) ≤ max passes 0 ∧ below.Fresh) ∧
    ∀ before run finished after, trace = before ++ run ++ .left path .done finished :: after →
      (before = [] ∨ ∃ earlier restart, before = earlier ++ [restart] ∧ restart.Restarts path) →
      (∀ e ∈ run, ¬ e.Restarts path) →
        (run.countP (TaskEvent.isPass path) : Int) = max passes 0 := by
  obtain ⟨n, within, passed, counts⟩ :=
    goes.tallies there action (Nat.zero_le _) (bound.fresh.passed there)
  have limit : ∀ {k : Nat}, k ≤ passes.toNat → (k : Int) ≤ max passes 0 := by
    intro k small
    rw [← Int.toNat_eq_max]
    exact Int.ofNat_le.2 small
  refine ⟨?_, ?_, ?_⟩
  · obtain ⟨t, found, rfl⟩ := passed
    have same : (some t).map TaskState.plan = b.plan.at? path :=
      found ▸ TaskState.at?_plan path ⟨b.cell⟩
    rw [goes.plan_eq, there] at same
    exact ⟨t, found, Option.some.inj same, Int.natCast_nonneg _, limit within⟩
  · intro passed children below member
    refine ⟨limit (counts.le_of_mem_pass member), ?_⟩
    rcases goes.regular bound.work _ member with fresh | ⟨finished, same⟩
    · exact fresh
    · cases same
  -- the count is zero where the run starts, grows by its passes, and is the bound where it ends
  · rintro before run finished after rfl started goesOn
    obtain ⟨k, counts, l, ⟨-, ends⟩, -⟩ := Trace.Counts.append_iff.1 counts
    obtain ⟨j, ahead, counts⟩ := Trace.Counts.append_iff.1 counts
    have zero : j = 0 := by
      rcases started with rfl | ⟨earlier, restart, rfl, restarts⟩
      · exact ahead
      · exact ahead.eq_zero_of_restarts restarts
    rw [← Int.toNat_eq_max, ← ends rfl rfl, counts.eq_add_countP goesOn, zero, Nat.zero_add]

open scoped Sample in
theorem actions_do_their_passes_sample :
    Sample.bullet.Bound ∧ (∃ q, Sample.bullet.plan.at? [0, 0] = some q ∧ q.work = .action 2) ∧
    ∃ trace run after, Sample.bullet.Goes trace
        ((Sample.fast.step Sample.host).run Sample.stage).1.2 ∧
      trace = run ++ .left [0, 0] .done true :: after ∧
      (run.countP (TaskEvent.isPass [0, 0]) : Int) = max 2 0 := by
  have goes : Sample.bullet.Goes (Sample.fast.stepTrace Sample.host Sample.stage)
      ((Sample.fast.step Sample.host).run Sample.stage).1.2 :=
    .step Sample.goes_fast Sample.host Sample.stage
  have there : Sample.bullet.plan.at? [0, 0] = some
      (.mk 3 [] (.action 2) [.mk 4 [] (.wait (Sample.constant 1)) []]) := rfl
  have split : Sample.fast.stepTrace Sample.host Sample.stage =
      (Sample.fast.stepTrace Sample.host Sample.stage).take 9 ++ .left [0, 0] .done true ::
        (Sample.fast.stepTrace Sample.host Sample.stage).drop 10 := rfl
  have goesOn : ∀ e ∈ (Sample.fast.stepTrace Sample.host Sample.stage).take 9,
      ¬ e.Restarts [0, 0] := by decide +kernel
  have counted := (actions_do_their_passes Sample.bound goes there rfl).2.2 [] _ true _ split
    (.inl rfl) goesOn
  exact ⟨Sample.bound, ⟨_, there, rfl⟩, _, _, _, goes, split, counted⟩

end Bullet

end Barrage
