import Barrage.Proofs.Task.Trace
import Barrage.Task.Start

/-!
The tasks of a plan by their paths, and what starting does to them: started tasks, and tasks that
are started again, are unfinished, and their actions have no passes done.
-/

set_option autoImplicit false

namespace Barrage

structure TaskState (F : Type) where
  {plan : Plan F}
  cell : Cell F plan

variable {F σ : Type}

/-- The passes that a task has done; none for tasks that are not actions. -/
def Work.passed : (w : Work) → w.Progress F → Nat
  | .action _, passed => passed
  | _, _ => 0

def Cells.get? : {ps : List (Plan F)} → Cells F ps → Nat → Option (TaskState F)
  | _, .nil, _ => none
  | _, .cons head _, 0 => some ⟨head⟩
  | _, .cons _ tail, i + 1 => tail.get? i

namespace Cell

variable {p : Plan F}

def passed : {p : Plan F} → Cell F p → Nat
  | .mk _ _ work _, .mk _ progress _ => work.passed progress

def child? : {p : Plan F} → Cell F p → Nat → Option (TaskState F)
  | _, .mk _ _ below, i => below.get? i

end Cell

/-! ## Paths -/

def TaskState.at? : TaskPath → TaskState F → Option (TaskState F)
  | [], t => some t
  | i :: path, t => (t.cell.child? i).bind (at? path)

def Plan.at? : TaskPath → Plan F → Option (Plan F)
  | [], p => some p
  | i :: path, p => p.children[i]?.bind (at? path)

namespace Cell

variable {p : Plan F}

def at? (cell : Cell F p) (path : TaskPath) : Option (TaskState F) := TaskState.at? path ⟨cell⟩

/-- Every task is unfinished, and every action has no passes done. -/
def Fresh (cell : Cell F p) : Prop :=
  ∀ path t, cell.at? path = some t → t.cell.finished = false ∧ t.cell.passed = 0

end Cell

def Cells.Fresh {ps : List (Plan F)} (below : Cells F ps) : Prop :=
  ∀ i t, below.get? i = some t → t.cell.Fresh

namespace Cell

variable {node : NodeId} {args : List F} {work : Work} {children : List (Plan F)}

theorem at?_cons {finished : Bool} {progress : work.Progress F} {below : Cells F children} {i : Nat}
    {path : TaskPath} :
    (mk finished progress below : Cell F (.mk node args work children)).at? (i :: path)
      = (below.get? i).bind fun t => t.cell.at? path := rfl

theorem fresh_mk {finished : Bool} {progress : work.Progress F} {below : Cells F children} :
    (mk finished progress below : Cell F (.mk node args work children)).Fresh ↔
      finished = false ∧ work.passed progress = 0 ∧ below.Fresh := by
  constructor
  · intro fresh
    obtain ⟨unfinished, noPasses⟩ := fresh [] _ rfl
    refine ⟨unfinished, noPasses, ?_⟩
    intro i t found path t' deeper
    refine fresh (i :: path) t' ?_
    rw [at?_cons, found]
    exact deeper
  · rintro ⟨unfinished, noPasses, fresh⟩ path t found
    cases path with
    | nil =>
      cases found
      exact ⟨unfinished, noPasses⟩
    | cons i path =>
      rw [at?_cons, Option.bind_eq_some_iff] at found
      obtain ⟨child, member, deeper⟩ := found
      exact fresh i child member path t deeper

end Cell

namespace Cells

theorem fresh_nil : (nil : Cells F []).Fresh := by
  intro i t found
  cases found

theorem fresh_cons {p : Plan F} {ps : List (Plan F)} {head : Cell F p} {tail : Cells F ps}
    (headFresh : head.Fresh) (others : tail.Fresh) : (cons head tail).Fresh := by
  intro i t found
  cases i with
  | zero =>
    cases found
    exact headFresh
  | succ i => exact others i t found

theorem get?_plan {ps : List (Plan F)} (below : Cells F ps) (i : Nat) :
    (below.get? i).map TaskState.plan = ps[i]? := by
  induction ps generalizing i with
  | nil =>
    cases below
    rfl
  | cons p ps ih =>
    cases below with
    | cons head tail =>
      cases i with
      | zero => rfl
      | succ i => exact ih tail i

end Cells

theorem Cells.exists_of_plan {ps : List (Plan F)} {i : Nat} {q : Plan F} (found : ps[i]? = some q)
    (below : Cells F ps) : ∃ cell : Cell F q, below.get? i = some ⟨cell⟩ := by
  rw [← below.get?_plan i, Option.map_eq_some_iff] at found
  obtain ⟨⟨cell⟩, member, rfl⟩ := found
  exact ⟨cell, member⟩

theorem TaskState.plan_of_child {t child : TaskState F} {i : Nat} {q : Plan F}
    (found : t.plan.children[i]? = some q) (member : t.cell.child? i = some child) :
    q = child.plan := by
  obtain ⟨cell⟩ := t
  cases cell with
  | mk finished progress below =>
    change below.get? i = some child at member
    rw [Plan.children, ← below.get?_plan i, member] at found
    exact (Option.some.inj found).symm

theorem TaskState.at?_plan (path : TaskPath) (t : TaskState F) :
    (t.at? path).map TaskState.plan = t.plan.at? path := by
  induction path generalizing t with
  | nil => rfl
  | cons i path ih =>
    obtain ⟨cell⟩ := t
    cases cell with
    | mk finished progress below =>
      rw [TaskState.at?, Plan.at?, Plan.children, ← below.get?_plan i]
      change ((below.get? i).bind _).map _ = _
      cases below.get? i with
      | none => rfl
      | some child => exact ih child

/-! ## Starting -/

variable [Scalar F] (h : Host F σ)

theorem Work.passed_prepare (frames : Frames F) (w : Work) (a : Actor F σ) :
    w.passed ((w.prepare h frames).run a).1 = 0 := by
  cases w <;> rfl

theorem Work.passed_prepareAgain (frames : Frames F) (w : Work) (progress : w.Progress F)
    (a : Actor F σ) : w.passed ((w.prepareAgain h frames progress).run a).1 = 0 := by
  cases w <;> rfl

mutual

theorem Plan.start_fresh (outer : Frames F) : (p : Plan F) → (a : Actor F σ) →
    ((p.start h outer).run a).1.Fresh
  | .mk _ args work children, a => by
    rw [Plan.start, run_bind_eq, run_bind_eq, run_pure_eq]
    exact Cell.fresh_mk.2 ⟨rfl, work.passed_prepare h _ _, Plan.startAll_fresh _ children a⟩

theorem Plan.startAll_fresh (outer : Frames F) : (ps : List (Plan F)) → (a : Actor F σ) →
    ((Plan.startAll h outer ps).run a).1.Fresh
  | [], _ => Cells.fresh_nil
  | p :: ps, a => by
    rw [Plan.startAll, run_bind_eq, run_bind_eq, run_pure_eq]
    exact Cells.fresh_cons (Plan.start_fresh outer p a) (Plan.startAll_fresh outer ps _)

end

theorem Work.passed_prepareReset (frames : Frames F) (w : Work) (progress : w.Progress F)
    (a : Actor F σ) : w.passed ((w.prepareReset h frames progress).run a).1 = 0 := by
  cases w <;> rfl

mutual

theorem Plan.reset_fresh (outer : Frames F) : (p : Plan F) → (cell : Cell F p) →
    (a : Actor F σ) → ((p.reset h outer cell).run a).1.Fresh
  | .mk _ args work children, .mk finished progress below, a => by
    rw [Plan.reset, run_bind_eq, run_bind_eq, run_pure_eq]
    exact Cell.fresh_mk.2 ⟨rfl, work.passed_prepareReset h _ _ _,
      Plan.resetAll_fresh _ children below a⟩

theorem Plan.resetAll_fresh (outer : Frames F) : (ps : List (Plan F)) → (below : Cells F ps) →
    (a : Actor F σ) → ((Plan.resetAll h outer ps below).run a).1.Fresh
  | [], .nil, _ => Cells.fresh_nil
  | p :: ps, .cons head tail, a => by
    rw [Plan.resetAll, run_bind_eq, run_bind_eq, run_pure_eq]
    exact Cells.fresh_cons (Plan.reset_fresh outer p head a) (Plan.resetAll_fresh outer ps tail _)

end

mutual

theorem Plan.restart_fresh (outer : Frames F) : (p : Plan F) → (cell : Cell F p) →
    (a : Actor F σ) → ((p.restart h outer cell).run a).1.Fresh
  | .mk node args work children, .mk finished progress below, a => by
    by_cases again : work = .again
    -- a repeat does not start again, it is reset
    · subst again
      exact Plan.reset_fresh h outer (.mk node args .again children) _ a
    · rw [Plan.restart_eq h outer again, run_bind_eq, run_bind_eq, run_pure_eq]
      exact Cell.fresh_mk.2 ⟨rfl, Work.passed_prepareAgain h _ _ _ _,
        Plan.restartAll_fresh _ children below a⟩

theorem Plan.restartAll_fresh (outer : Frames F) : (ps : List (Plan F)) → (below : Cells F ps) →
    (a : Actor F σ) → ((Plan.restartAll h outer ps below).run a).1.Fresh
  | [], .nil, _ => Cells.fresh_nil
  | p :: ps, .cons head tail, a => by
    rw [Plan.restartAll, run_bind_eq, run_bind_eq, run_pure_eq]
    exact Cells.fresh_cons (Plan.restart_fresh outer p head a)
      (Plan.restartAll_fresh outer ps tail _)

end

end Barrage
