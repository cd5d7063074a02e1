import Barrage.Proofs.Task.Child
import Barrage.Proofs.Task.Order

/-!
Waiting. When a wait is not over, nothing else is done in the tick: the tasks above it end their
ticks one after another, and all of them wait. The wait is pending then: it is unfinished, and so
are the tasks above it, which have passes left.
-/

set_option autoImplicit false

namespace Barrage

variable {F : Type}

def Plan.IsWait (path : TaskPath) (p : Plan F) : Prop :=
  ∃ q e, p.at? path = some q ∧ q.work = .wait e

/-- The tasks above a task end their ticks, the nearest one first; all of them wait. -/
def closing : TaskPath → Trace F
  | [] => []
  | i :: path => (closing path).map (TaskEvent.under i) ++ [.left [] .waiting false]

def Work.GoesOn : (w : Work) → w.Progress F → Prop
  | .sequence, _ | .again, _ => True
  | .action bound, passed => Nat.lt passed bound.toNat
  | _, _ => False

def Cell.GoesOn : {p : Plan F} → Cell F p → Prop
  | .mk _ _ work _, .mk _ progress _ => work.GoesOn progress

/-- The task at a path is unfinished, and all tasks above it are unfinished and go on. -/
def TaskState.Pending : TaskPath → TaskState F → Prop
  | [], t => t.cell.finished = false
  | i :: path, t => t.cell.finished = false ∧ t.cell.GoesOn ∧
    ∃ child, t.cell.child? i = some child ∧ child.Pending path

theorem Plan.isWait_cons {i : Nat} {path : TaskPath} {p : Plan F} (wait : p.IsWait (i :: path)) :
    ∃ q, p.children[i]? = some q ∧ q.IsWait path := by
  obtain ⟨q, e, found, work⟩ := wait
  rw [Plan.at?, Option.bind_eq_some_iff] at found
  obtain ⟨child, member, deeper⟩ := found
  exact ⟨child, member, q, e, deeper, work⟩

theorem Trace.around_split {before after : Bool} {status : Status} {inside ahead behind : Trace F}
    {e : TaskEvent F} (same : Trace.around before status after inside = ahead ++ e :: behind)
    (proper : e.path ≠ []) :
    ∃ ahead' behind', inside = ahead' ++ e :: behind' ∧
      behind = behind' ++ [.left [] status after] := by
  have same : [.entered [] before] ++ (inside ++ [.left [] status after]) = ahead ++ e :: behind :=
    same
  refine split_of_middle same ?_ ?_
  · intro member
    obtain rfl := List.mem_singleton.1 member
    exact proper rfl
  · intro member
    obtain rfl := List.mem_singleton.1 member
    exact proper rfl

theorem Trace.around_nil_split {before after : Bool} {status : Status} {ahead behind : Trace F}
    {e : TaskEvent F} (same : Trace.around before status after [] = ahead ++ e :: behind) :
    e = .entered [] before ∨ e = .left [] status after ∧ behind = [] := by
  cases ahead with
  | nil =>
    cases same
    exact .inl rfl
  | cons opening ahead =>
    cases ahead with
    | nil =>
      cases same
      exact .inr ⟨rfl, rfl⟩
    | cons second ahead => cases ahead <;> cases (List.cons.inj same).2

/-! ## A wait ends the tick -/

/-- What a tick is after a wait at a path has waited in it: nothing else was done, and the wait is
pending. -/
def Suspends {p : Plan F} (path : TaskPath) (status : Status) (cell' : Cell F p)
    (trace : Trace F) : Prop :=
  ∀ before finished after, trace = before ++ .left path .waiting finished :: after →
    status = .waiting ∧ after = closing path ∧ TaskState.Pending path ⟨cell'⟩

theorem RanAll.suspends {ps : List (Plan F)} {below below' : Cells F ps} {clear : Bool}
    {status : Status} {trace : Trace F} (ran : RanAll 0 below clear status below' trace) {i : Nat}
    {q : Plan F} (found : ps[i]? = some q) {path : TaskPath}
    (once : ∀ {cell cell' : Cell F q} {status : Status} {trace : Trace F},
      cell.finished = false → Ran cell status cell' trace → Suspends path status cell' trace)
    {before after : Trace F} {finished : Bool}
    (same : trace = before ++ .left (i :: path) .waiting finished :: after) :
    status = .waiting ∧ after = (closing path).map (TaskEvent.under i) ∧
      ∃ child, below'.get? i = some child ∧ child.Pending path := by
  obtain ⟨cell, member⟩ := Cells.exists_of_plan found below
  have happens : .left (i :: path) .waiting finished ∈ trace := by
    rw [same]
    exact List.mem_append_right _ List.mem_cons_self
  cases ran.visit member with
  | skipped _ _ elsewhere => exact absurd rfl (elsewhere.of_path happens rfl)
  | unreached _ _ earlier => exact absurd (earlier.of_path happens rfl) (Nat.lt_irrefl i)
  | @visited cell' status' ahead inside behind unfinished ran there split earlier later stops =>
    rw [split] at same
    -- the wait is below the child, so its event is among those of the child
    have notAhead : .left (i :: path) .waiting finished ∉ ahead := fun member =>
      absurd (earlier.of_path member rfl) (Nat.lt_irrefl i)
    have notBehind : .left (i :: path) .waiting finished ∉ behind := fun member =>
      absurd (later.of_path member rfl) (Nat.lt_irrefl i)
    obtain ⟨rest, rest', found', rfl⟩ := split_of_middle same notAhead notBehind
    obtain ⟨xs, ys, rfl, -, here⟩ := List.map_eq_append_iff.1 found'
    obtain ⟨e, ys, rfl, isWait, rfl⟩ := List.map_eq_cons_iff.1 here
    obtain ⟨r, rfl, deeper⟩ := TaskEvent.under_eq_left.1 isWait
    obtain rfl := (List.cons.inj deeper).2
    obtain ⟨waiting, rfl, pending⟩ := once unfinished ran xs finished ys rfl
    obtain ⟨waiting, rfl⟩ := stops waiting
    exact ⟨waiting, List.append_nil _, ⟨cell'⟩, there, pending⟩

theorem RanPasses.suspends {bound passed passed' : Nat} {ps : List (Plan F)}
    {below below' : Cells F ps} {status : Status} {trace : Trace F}
    (ran : RanPasses bound passed below status passed' below' trace) {i : Nat} {q : Plan F}
    (found : ps[i]? = some q) {path : TaskPath}
    (once : ∀ {cell cell' : Cell F q} {status : Status} {trace : Trace F},
      cell.finished = false → Ran cell status cell' trace → Suspends path status cell' trace)
    {before after : Trace F} {finished : Bool}
    (same : trace = before ++ .left (i :: path) .waiting finished :: after) :
    status = .waiting ∧ after = (closing path).map (TaskEvent.under i) ∧
      passed' < bound ∧ ∃ child, below'.get? i = some child ∧ child.Pending path := by
  induction ran generalizing before with
  | spent reached => cases before <;> cases same
  | cut more ran unfinished =>
    obtain ⟨waiting, closed, pending⟩ := ran.suspends found once same
    exact ⟨waiting, closed, more, pending⟩
  | pass more ran fresh rest ih =>
    -- a pass that is done has not waited, so the wait is in a later one
    rcases append_eq_split.1 same with ⟨ahead, earlier, -⟩ | ⟨ahead, -, later⟩
    · cases (ran.suspends found once earlier).1
    · cases ahead with
      | nil => cases later
      | cons opening ahead => exact ih (List.cons.inj later).2

/-- When a wait waits, the tick is over. -/
theorem Ran.suspends (path : TaskPath) {p : Plan F} (wait : p.IsWait path)
    {cell cell' : Cell F p} {status : Status} {trace : Trace F}
    (fit : cell.finished = false ∨ p.work = .sequence) (ran : Ran cell status cell' trace) :
    Suspends path status cell' trace := by
  induction path generalizing p status trace with
  | nil =>
    obtain ⟨q, e, found, work⟩ := wait
    obtain rfl := Option.some.inj found
    intro before finished after same
    cases ran with
    | sequence | again | action => cases work
    | simple possible progress' =>
      rcases Trace.around_nil_split same with contrary | ⟨ends, rfl⟩
      · cases contrary
      · cases ends
        refine ⟨rfl, rfl, ?_⟩
        -- a wait that waits keeps its flag, which is not set when it is done
        rcases fit with unfinished | contrary
        · rw [Cell.finished_mk] at unfinished
          subst unfinished
          rfl
        · rw [contrary] at work
          cases work
  | cons i path ih =>
    obtain ⟨q, found, wait⟩ := Plan.isWait_cons wait
    have once : ∀ {cell cell' : Cell F q} {status : Status} {trace : Trace F},
        cell.finished = false → Ran cell status cell' trace → Suspends path status cell' trace :=
      fun unfinished ran => ih wait (.inl unfinished) ran
    intro before finished after same
    cases ran with
    | sequence inside | again inside =>
      obtain ⟨ahead, behind, deeper, rfl⟩ := Trace.around_split same nofun
      obtain ⟨rfl, rfl, pending⟩ := inside.suspends found once deeper
      exact ⟨rfl, rfl, rfl, trivial, pending⟩
    | action inside =>
      obtain ⟨ahead, behind, deeper, rfl⟩ := Trace.around_split same nofun
      obtain ⟨rfl, rfl, more, pending⟩ := inside.suspends found once deeper
      exact ⟨rfl, rfl, rfl, more, pending⟩
    | simple possible progress' =>
      obtain ⟨ahead, behind, deeper, -⟩ := Trace.around_split same nofun
      cases ahead <;> cases deeper

/-! ## Only a wait ends the tick -/

theorem Work.eq_wait_of_outcome {w : Work} (possible : w.Outcome .waiting) : ∃ e, w = .wait e := by
  cases w with
  | wait e => exact ⟨e, rfl⟩
  | sequence | again | action => exact possible.elim
  | turn | glide | accelerate => exact absurd rfl possible
  | fire | vanish => cases possible

theorem Plan.IsWait.child {node : NodeId} {args : List F} {work : Work}
    {children : List (Plan F)} {i : Nat} {q : Plan F} {path : TaskPath} (wait : q.IsWait path)
    (found : children[i]? = some q) : (Plan.mk node args work children).IsWait (i :: path) := by
  obtain ⟨r, e, deeper, same⟩ := wait
  refine ⟨r, e, ?_, same⟩
  rw [Plan.at?, Plan.children, found]
  exact deeper

theorem Trace.mem_around {before after : Bool} {status : Status} {inside : Trace F}
    {e : TaskEvent F} (member : e ∈ inside) : e ∈ Trace.around before status after inside :=
  List.mem_cons_of_mem _ (List.mem_append_left _ member)

mutual

/-- Nothing but a wait makes a task wait. -/
theorem Ran.exists_wait {p : Plan F} {cell cell' : Cell F p} {status : Status} {trace : Trace F}
    (ran : Ran cell status cell' trace) (waiting : status = .waiting) :
    ∃ path finished, p.IsWait path ∧ .left path .waiting finished ∈ trace := by
  match ran with
  | .sequence inside | .again inside =>
    obtain ⟨i, q, path, finished, found, wait, member⟩ := inside.exists_wait waiting
    exact ⟨i :: path, finished, wait.child found, Trace.mem_around (i.zero_add ▸ member)⟩
  | .action inside =>
    obtain ⟨i, q, path, finished, found, wait, member⟩ := inside.exists_wait waiting
    exact ⟨i :: path, finished, wait.child found, Trace.mem_around member⟩
  | .simple possible _ =>
    subst waiting
    obtain ⟨e, rfl⟩ := Work.eq_wait_of_outcome possible
    exact ⟨[], _, ⟨_, e, rfl, rfl⟩, List.mem_cons_of_mem _ List.mem_cons_self⟩
termination_by structural ran

theorem RanAll.exists_wait {k : Nat} {ps : List (Plan F)} {below below' : Cells F ps} {clear : Bool}
    {status : Status} {trace : Trace F} (ran : RanAll k below clear status below' trace)
    (waiting : status = .waiting) :
    ∃ i q path finished, ps[i]? = some q ∧ q.IsWait path ∧
      .left ((k + i) :: path) .waiting finished ∈ trace := by
  match ran with
  | .nil => exact absurd waiting (Status.ofDone_ne_waiting _)
  | .skip _ rest =>
    obtain ⟨i, q, path, finished, found, wait, member⟩ := rest.exists_wait waiting
    exact ⟨i + 1, q, path, finished, found, wait, Nat.succ_add_eq_add_succ k i ▸ member⟩
  | .stop _ once =>
    obtain ⟨path, finished, wait, member⟩ := once.exists_wait rfl
    exact ⟨0, _, path, finished, rfl, wait, List.mem_map_of_mem member⟩
  | .go _ _ _ rest =>
    obtain ⟨i, q, path, finished, found, wait, member⟩ := rest.exists_wait waiting
    exact ⟨i + 1, q, path, finished, found, wait,
      List.mem_append_right _ (Nat.succ_add_eq_add_succ k i ▸ member)⟩
termination_by structural ran

theorem RanPasses.exists_wait {bound passed passed' : Nat} {ps : List (Plan F)}
    {below below' : Cells F ps} {status : Status} {trace : Trace F}
    (ran : RanPasses bound passed below status passed' below' trace) (waiting : status = .waiting) :
    ∃ i q path finished, ps[i]? = some q ∧ q.IsWait path ∧
      .left (i :: path) .waiting finished ∈ trace := by
  match ran with
  | .spent _ => cases waiting
  | .cut _ once _ =>
    obtain ⟨i, q, path, finished, found, wait, member⟩ := once.exists_wait waiting
    exact ⟨i, q, path, finished, found, wait, i.zero_add ▸ member⟩
  | .pass _ _ _ rest =>
    obtain ⟨i, q, path, finished, found, wait, member⟩ := rest.exists_wait waiting
    exact ⟨i, q, path, finished, found, wait,
      List.mem_append_right _ (List.mem_cons_of_mem _ member)⟩
termination_by structural ran

end

end Barrage
