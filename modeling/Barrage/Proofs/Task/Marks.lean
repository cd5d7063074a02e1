import Barrage.Proofs.Task.Resumption
import Barrage.Proofs.Task.Watching
import Mathlib.Data.List.Chain

/-!
Notes and traces. What an observer notes of a task in a tick are the ticks and the preparations that
the trace of the tick tells of, in the same order. So what is known of traces is known of notes: a
wait that waits is the last thing in a tick, and until it is over it is not prepared again.
-/

set_option autoImplicit false

namespace Barrage

variable {F σ E : Type}

inductive Mark where
  /-- An action above the task has done a pass and has started the task again. -/
  | prepared
  | ticked (status : Status)
  deriving DecidableEq, Repr

def TaskEvent.mark? (path : TaskPath) : TaskEvent F → Option Mark
  | entered .. => none
  | left path' status _ => if path' = path then some (.ticked status) else none
  | pass above _ _ => if above <+: path ∧ above ≠ path then some .prepared else none

theorem TaskEvent.eq_left_of_mark? {path : TaskPath} {e : TaskEvent F} {status : Status}
    (ticked : e.mark? path = some (.ticked status)) :
    ∃ finished, e = .left path status finished := by
  cases e with
  | entered => cases ticked
  | left path' status' finished => simp_all [mark?]
  | pass => simp [mark?] at ticked

def Trace.marks (path : TaskPath) (trace : Trace F) : List Mark :=
  trace.filterMap (TaskEvent.mark? path)

namespace Trace

variable {i : Nat} {path : TaskPath} {trace trace' : Trace F} {before after : Bool}
  {status : Status}

theorem marks_append : marks path (trace ++ trace') = marks path trace ++ marks path trace' :=
  List.filterMap_append

theorem marks_under : marks (i :: path) (trace.map (TaskEvent.under i)) = marks path trace := by
  rw [marks, marks, List.filterMap_map]
  congr 1
  funext e
  cases e <;> simp [TaskEvent.mark?, TaskEvent.under]

theorem marks_only (path : TaskPath) (only : trace.Only (· ≠ i)) :
    marks (i :: path) trace = [] := by
  refine List.filterMap_eq_nil_iff.2 fun e member => ?_
  obtain ⟨j, path', same, other⟩ := only e member
  cases e <;> simp_all [TaskEvent.mark?, TaskEvent.path]

theorem marks_around (trace : Trace F) :
    marks (i :: path) (Trace.around before status after trace) = marks (i :: path) trace := by
  simp [marks, Trace.around, List.filterMap_cons, TaskEvent.mark?]

theorem marks_simple :
    marks [] (Trace.around (F := F) before status after []) = [.ticked status] := by
  simp [marks, Trace.around, List.filterMap_cons, TaskEvent.mark?]

theorem marks_closing : marks path (closing path : Trace F) = [] := by
  induction path with
  | nil => rfl
  | cons i path ih =>
    rw [closing, marks_append, marks_under, ih]
    rfl

end Trace

/-! ## A wait that waits -/

theorem Ran.marks_waiting {path : TaskPath} {p : Plan F} (wait : p.IsWait path)
    {cell cell' : Cell F p} {status : Status} {trace : Trace F}
    (fit : cell.finished = false ∨ p.work = .sequence) (ran : Ran cell status cell' trace)
    {before after : List Mark} (same : trace.marks path = before ++ .ticked .waiting :: after) :
    after = [] ∧ TaskState.Pending path ⟨cell'⟩ := by
  obtain ⟨ahead, behind, rfl, -, here⟩ := List.filterMap_eq_append_iff.1 same
  obtain ⟨between, e, rest, rfl, -, waits, rfl⟩ := List.filterMap_eq_cons_iff.1 here
  obtain ⟨finished, rfl⟩ := TaskEvent.eq_left_of_mark? waits
  obtain ⟨-, rfl, pending⟩ := ran.suspends path wait fit (ahead ++ between) finished rest (by simp)
  exact ⟨Trace.marks_closing, pending⟩

def Turns (path : TaskPath) (trace : Trace F) (still : Prop) : Prop :=
  trace.marks path = [] ∧ still ∨ ∃ status, (trace.marks path).head? = some (.ticked status)

theorem RanAll.turns {ps : List (Plan F)} {below below' : Cells F ps} {clear : Bool}
    {status : Status} {trace : Trace F} (ran : RanAll 0 below clear status below' trace) {i : Nat}
    {child : TaskState F} (member : below.get? i = some child) {path : TaskPath}
    (pending : child.Pending path)
    (once : ∀ {status : Status} {cell' : Cell F child.plan} {trace : Trace F},
      Ran child.cell status cell' trace → Turns path trace
        (status = .waiting ∧ TaskState.Pending path ⟨cell'⟩)) :
    Turns (i :: path) trace
      (status = .waiting ∧ ∃ child', below'.get? i = some child' ∧ child'.Pending path) := by
  cases ran.visit member with
  | skipped finished =>
    rw [pending.unfinished] at finished
    cases finished
  | unreached waiting same earlier =>
    have noMarks := Trace.marks_only path (earlier.mono fun _ => Nat.ne_of_lt)
    exact .inl ⟨noMarks, waiting, child, same, pending⟩
  | visited unfinished ran there split earlier later stops =>
    have inside := Trace.marks_only path (earlier.mono fun _ => Nat.ne_of_lt)
    rw [Turns, split, Trace.marks_append, Trace.marks_append, inside, Trace.marks_under,
      List.nil_append]
    rcases once ran with ⟨noMarks, waiting, pending⟩ | ⟨status, ticked⟩
    · obtain ⟨waiting, rfl⟩ := stops waiting
      exact .inl ⟨by rw [noMarks]; rfl, waiting, _, there, pending⟩
    · exact .inr ⟨status, by simp [ticked]⟩

theorem Ran.turns (path : TaskPath) {p : Plan F} (wait : p.IsWait path) {cell cell' : Cell F p}
    {status : Status} {trace : Trace F} (ran : Ran cell status cell' trace)
    (pending : TaskState.Pending path ⟨cell⟩) :
    Turns path trace (status = .waiting ∧ TaskState.Pending path ⟨cell'⟩) := by
  induction path generalizing p status trace with
  | nil =>
    obtain ⟨q, e, found, work⟩ := wait
    obtain rfl := Option.some.inj found
    cases ran with
    | sequence | again | action => cases work
    | simple => exact .inr ⟨_, by rw [Trace.marks_simple]; rfl⟩
  | cons i path ih =>
    obtain ⟨q, found, wait⟩ := Plan.isWait_cons wait
    obtain ⟨-, goesOn, child, member, pending⟩ := pending
    obtain rfl := TaskState.plan_of_child found member
    have once : ∀ {status : Status} {cell' : Cell F child.plan} {trace : Trace F},
        Ran child.cell status cell' trace → Turns path trace
          (status = .waiting ∧ TaskState.Pending path ⟨cell'⟩) :=
      fun ran => ih wait ran pending
    cases ran with
    | sequence inside | again inside =>
      rw [Turns, Trace.marks_around]
      refine (inside.turns member pending once).imp_left ?_
      rintro ⟨noMarks, rfl, pending⟩
      exact ⟨noMarks, rfl, rfl, trivial, pending⟩
    | action inside =>
      rw [Turns, Trace.marks_around]
      cases inside with
      | spent reached => exact absurd goesOn (Nat.not_lt.2 reached)
      | cut _ inside _ =>
        refine (inside.turns member pending once).imp_left ?_
        rintro ⟨noMarks, rfl, pending⟩
        exact ⟨noMarks, rfl, rfl, goesOn, pending⟩
      | pass _ inside _ _ =>
        rcases inside.turns member pending once with ⟨-, contrary, -⟩ | ⟨status, ticked⟩
        · cases contrary
        · exact .inr ⟨status, by simp [Trace.marks_append, ticked]⟩
    -- the task above a pending wait is under way, which a simple one never is
    | simple possible progress' => exact (goesOn.not_outcome possible).elim

variable [Scalar F]

namespace Observer

section

variable {o : Observer F E} {mark : E → Mark} {path : TaskPath} {outer : Frames F}

theorem map_tickAll (env : Env F σ) (k : Nat) {i : Nat} {child : Plan F}
    (once : ∀ (cell : Cell F child) (a : Actor F σ), (o.tick env path outer child cell a).map mark
      = Trace.marks path ((env.traced outer child cell).run a).1.2.2)
    {ps : List (Plan F)} (found : ps[i]? = some child) (below : Cells F ps) (clear : Bool)
    (a : Actor F σ) :
    (Observer.tickAll env (o.tick env path outer) outer i ps below a).map mark
      = Trace.marks ((k + i) :: path) ((env.tracedAll outer k ps below clear).run a).1.2.2 := by
  induction ps generalizing k i clear a with
  | nil => cases found
  | cons p ps ih =>
    cases below with
    | cons head tail =>
      rw [Env.tracedAll]
      cases i with
      | zero =>
        obtain rfl := Option.some.inj found
        -- what comes behind the task is not below it
        have elsewhere : ∀ clear a, Trace.marks (k :: path)
            ((env.tracedAll outer (k + 1) ps tail clear).run a).1.2.2 = [] := fun clear a =>
          Trace.marks_only path ((env.ranAll_tracedAll outer (k + 1) ps tail clear a).only.mono
            fun _ => Nat.ne_of_gt)
        rw [Observer.tickAll]
        split
        · exact (elsewhere clear a).symm
        · rw [once, run_bind_eq]
          generalize (env.traced outer p head).run a = r
          obtain ⟨⟨status, head, trace⟩, a⟩ := r
          cases status with
          | waiting => exact Trace.marks_under.symm
          | running | done =>
            rw [run_bind_eq, run_pure_eq]
            exact ((Trace.marks_append.trans (congrArg _ (elsewhere _ a))).trans
              ((List.append_nil _).trans Trace.marks_under)).symm
      | succ i =>
        have before : ∀ {trace : Trace F},
            Trace.marks ((k + (i + 1)) :: path) (trace.map (TaskEvent.under k)) = [] :=
          Trace.marks_only path (.under (Nat.ne_of_lt (Nat.lt_add_of_pos_right i.succ_pos)))
        rw [Observer.tickAll]
        split
        · rw [run_bind_eq, run_pure_eq, ← Nat.succ_add_eq_add_succ]
          exact ih (k + 1) found tail clear a
        · rw [run_bind_eq, ← env.untraced_traced outer p head a]
          generalize (env.traced outer p head).run a = r
          obtain ⟨⟨status, head, trace⟩, a⟩ := r
          cases status with
          | waiting => exact before.symm
          | running | done =>
            rw [run_bind_eq, run_pure_eq]
            refine .trans ?_ (Trace.marks_append.trans (congrArg (· ++ _) before)).symm
            rw [← Nat.succ_add_eq_add_succ]
            exact ih (k + 1) found tail _ a

omit [Scalar F] in
theorem map_passes {S : Type} {body : S → Acting F σ (Status × S)}
    {tracedBody : S → Acting F σ (Status × S × Trace F)} {again : S → Acting F σ S}
    {pass : Nat → S → TaskEvent F} {inside : S → Actor F σ → List E}
    {started : Actor F σ → List E}
    (same : ∀ s a, untraced ((tracedBody s).run a) = (body s).run a)
    (once : ∀ s a, (inside s a).map mark = Trace.marks path ((tracedBody s).run a).1.2.2)
    (restarts : ∀ passed s, (pass passed s).mark? path = some .prepared)
    (starts : ∀ a, (started a).map mark = [.prepared]) (left passed : Nat) (s : S)
    (a : Actor F σ) :
    (Observer.passes body again inside started left s a).map mark
      = Trace.marks path ((tracedPasses tracedBody again pass left passed s).run a).1.2.2.2 := by
  induction left generalizing passed s a with
  | zero => rfl
  | succ left ih =>
    rw [Observer.passes, tracedPasses, run_bind_eq, List.map_append, once, ← same]
    generalize (tracedBody s).run a = r
    obtain ⟨⟨status, s, trace⟩, a⟩ := r
    cases status with
    | running | waiting => exact List.append_nil _
    | done =>
      simp only [untraced, run_bind_eq, run_pure_eq]
      rw [Trace.marks_append, List.map_append, starts, ih (passed + 1)]
      exact congrArg _ (List.filterMap_cons_some (restarts _ _)).symm

end

structure Marks (o : Observer F E) (mark : E → Mark) : Prop where
  prepared : ∀ {σ : Type} (h : Host F σ) (frames : Frames F) (w : Work) (a : Actor F σ),
    mark (o.prepared h frames w a) = .prepared
  ticked : ∀ {σ : Type} (env : Env F σ) (around : Frames F) (q : Plan F) (cell : Cell F q)
    (a : Actor F σ),
    mark (o.ticked env around q cell a) = .ticked ((env.run around q cell).run a).1.1

namespace Marks

variable {o : Observer F E} {mark : E → Mark} (marks : o.Marks mark) {path : TaskPath}
  {outer : Frames F} {p q : Plan F}

include marks

theorem start (h : Host F σ) (there : p.at? path = some q) (a : Actor F σ) :
    (o.start h path outer p a).map mark = [.prepared] := by
  induction path generalizing p outer a with
  | nil => exact congrArg ([·]) (marks.prepared ..)
  | cons i path ih =>
    obtain ⟨child, found, there⟩ := Option.bind_eq_some_iff.1 there
    rw [Observer.start, found]
    exact ih there _

/-- In a tick, the notes of a task that takes time are what the trace tells of it. -/
theorem tick (env : Env F σ) (there : p.at? path = some q) (timed : q.work.isTimed = true)
    (cell : Cell F p) (a : Actor F σ) : (o.tick env path outer p cell a).map mark
      = Trace.marks path ((env.traced outer p cell).run a).1.2.2 := by
  induction path generalizing p outer a with
  | nil =>
    obtain rfl := Option.some.inj there
    rw [Observer.tick, List.map_singleton, marks.ticked]
    cases cell with
    | @mk node args work children finished progress below =>
      cases work with
      | wait | turn | glide | accelerate => exact Trace.marks_simple.symm
      | _ => cases timed
  | cons i path ih =>
    obtain ⟨child, found, deeper⟩ := Option.bind_eq_some_iff.1 there
    have all : ∀ {children : List (Plan F)} (outer : Frames F), children[i]? = some child →
        ∀ (below : Cells F children) (a : Actor F σ),
          (tickAll env (o.tick env path outer) outer i children below a).map mark
            = Trace.marks (i :: path)
              ((env.tracedAll outer 0 children below true).run a).1.2.2 := by
      intro children outer found below a
      rw [map_tickAll env 0 (fun cell a => ih deeper cell a) found, Nat.zero_add]
    cases cell with
    | @mk node args work children finished progress below =>
      replace found : children[i]? = some child := found
      cases work with
      | sequence | again =>
        rw [Observer.tick, Env.traced, run_bind_eq, run_pure_eq, all _ found]
        exact (Trace.marks_around _).symm
      | action bound =>
        rw [Observer.tick, Env.traced, run_bind_eq, run_pure_eq]
        refine .trans ?_ (Trace.marks_around _).symm
        refine map_passes (fun below a => env.untraced_tracedAll _ 0 children below true a)
          (all _ found) ?_ (marks.start env.host there) _ _ below a
        simp [TaskEvent.mark?]
      | _ => exact (Trace.marks_around []).symm

theorem bind {b : Bullet F} {h : Host F σ} {entity : Entity F} {p : Pattern} {node : NodeId}
    {scope? : Option (Frames F)} {emitter : EmitterId} {s s' : Stage σ}
    (made : (Bullet.bind h entity p node scope? emitter).run s = (.ok b, s'))
    (there : b.plan.at? path = some q) :
    (o.bind h path entity p node scope? s).map mark = [.prepared] := by
  rw [Bullet.bind, run_bind_eq] at made
  rw [Observer.bind]
  cases built : (Plan.build h p (scope?.getD []) node).run s with
  | mk outcome t =>
    rw [built] at made
    cases outcome with
    | error e => cases made
    | ok plan =>
      cases made
      exact marks.start h there _

end Marks

end Observer

/-! ## Histories -/

/-- Until a wait is over, it is not prepared again. -/
def Mark.Follows : Mark → Mark → Prop
  | .ticked .waiting, next => next ≠ .prepared
  | _, _ => True

theorem Mark.follows_of_last {marks : List Mark}
    (last : ∀ before after, marks = before ++ .ticked .waiting :: after → after = []) :
    marks.IsChain Mark.Follows := by
  refine List.isChain_iff_forall_rel_of_append_cons_cons.2 fun a b before after same => ?_
  cases a with
  | prepared => trivial
  | ticked status =>
    cases status with
    | running | done => trivial
    | waiting => cases last before _ same

namespace Bullet

variable {o : Observer F E} {mark : E → Mark} {path : TaskPath} {notes : List E} {b : Bullet F}

theorem marks_tick (marks : o.Marks mark) (h : Host F σ) (s : Stage σ) {q : Plan F}
    (there : b.plan.at? path = some q) (timed : q.work.isTimed = true) :
    (o.tick (b.env h) path b.scope b.plan b.cell { toStage := s, entity := b.entity }).map mark
      = Trace.marks path (b.stepTrace h s) :=
  marks.tick (b.env h) there timed b.cell _

namespace Watched

/-- A wait that waits is pending, and it is not prepared again before it has its next tick. -/
theorem follows (watched : b.Watched o path notes) (marks : o.Marks mark)
    (wait : b.plan.IsWait path) :
    (notes.map mark).IsChain Mark.Follows ∧
      ((notes.map mark).getLast? = some (.ticked .waiting) → TaskState.Pending path ⟨b.cell⟩) := by
  obtain ⟨q, e, there, work⟩ := id wait
  induction watched with
  | bound made =>
    rw [marks.bind made there]
    exact ⟨.singleton _, nofun⟩
  | @step _ notes b before h s ih =>
    replace wait : b.plan.IsWait path := wait
    obtain ⟨chain, pending⟩ := ih wait there
    obtain ⟨status, cell, entity, same, ran⟩ := step_ran h b s
    have timed : q.work.isTimed = true := by rw [work]; rfl
    rw [List.map_append, marks_tick (b := b) marks h s there timed, same]
    generalize b.stepTrace h s = trace at ran
    have last : ∀ xs ys, trace.marks path = xs ++ .ticked .waiting :: ys →
        ys = [] ∧ TaskState.Pending path ⟨cell⟩ := fun xs ys same =>
      ran.marks_waiting wait (.inr before.work) same
    constructor
    · have inside := Mark.follows_of_last fun xs ys same => (last xs ys same).1
      refine List.isChain_append.2 ⟨chain, inside, fun x ends y begins => ?_⟩
      cases x with
      | prepared => trivial
      | ticked status' =>
        cases status' with
        | running | done => trivial
        | waiting =>
          rcases ran.turns path wait (pending ends) with ⟨noMarks, -⟩ | ⟨status', ticked⟩
          · rw [noMarks] at begins
            cases begins
          · rw [ticked] at begins
            cases begins
            exact nofun
    · intro ends
      rcases List.eq_nil_or_concat (trace.marks path) with noMarks | ⟨marks', final, same⟩
      · rw [noMarks, List.append_nil] at ends
        rcases ran.turns path wait (pending ends) with ⟨-, -, pending⟩ | ⟨status', ticked⟩
        · exact pending
        · rw [noMarks] at ticked
          cases ticked
      · rw [List.concat_eq_append] at same
        rw [same, ← List.append_assoc, List.getLast?_concat] at ends
        cases ends
        exact (last _ _ same).2
  | write before entity ih => exact ih wait there

end Watched

end Bullet

end Barrage
