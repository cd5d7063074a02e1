import Barrage.Proofs.Task.Reset
import Barrage.Proofs.Task.Shots

/-!
Watching one task. An observer notes every preparation and every tick of the task at a path, from
the binding of its bullet on. What both kinds of events keep of the notes and of the state of the
task holds in every history, whatever the tasks around it and the hosts do. This is for tasks that
have no tasks below them and are prepared in the same way each time: waits and changes.
-/

set_option autoImplicit false

namespace Barrage

variable {F σ E : Type}

/-- The tasks that take time, and do not look at the tasks below them. -/
def Work.isTimed : Work → Bool
  | .wait _ | .turn .. | .glide .. | .accelerate .. => true
  | _ => false

def Cell.progress : {p : Plan F} → Cell F p → p.work.Progress F
  | .mk _ _ _ _, .mk _ progress _ => progress

def TaskState.Shows (path : TaskPath) {q : Plan F} (P : Cell F q → Prop) (t : TaskState F) : Prop :=
  ∃ cell : Cell F q, t.at? path = some ⟨cell⟩ ∧ P cell

namespace TaskState

variable {q : Plan F} {P : Cell F q → Prop} {i : Nat} {path : TaskPath}

theorem shows_nil {cell : Cell F q} : TaskState.Shows [] P ⟨cell⟩ ↔ P cell := by
  constructor
  · rintro ⟨cell', same, holds⟩
    cases same
    exact holds
  · exact fun holds => ⟨cell, rfl, holds⟩

theorem shows_cons {node : NodeId} {args : List F} {work : Work} {children : List (Plan F)}
    {finished : Bool} {progress : work.Progress F} {below : Cells F children} :
    TaskState.Shows (i :: path) P
      ⟨(.mk finished progress below : Cell F (.mk node args work children))⟩
      ↔ ∃ child, below.get? i = some child ∧ child.Shows path P := by
  constructor
  · rintro ⟨cell, found, holds⟩
    obtain ⟨child, member, deeper⟩ := Option.bind_eq_some_iff.1 found
    exact ⟨child, member, cell, deeper, holds⟩
  · rintro ⟨child, member, cell, deeper, holds⟩
    exact ⟨cell, Option.bind_eq_some_iff.2 ⟨child, member, deeper⟩, holds⟩

end TaskState

/-- In a plan for a node of a pattern, a task that takes time is for a node without tasks below
it. -/
theorem Plan.Made.simpleWork? {p : Pattern} {plan : Plan F} (made : plan.Made p) {q : Plan F}
    {outer frames : Frames F} (holds : plan.Holds outer frames q) (timed : q.work.isTimed = true) :
    p.tree.simpleWork? q.node = some q.work := by
  induction made generalizing outer with
  | @around _ _ work _ plain _ ih =>
    cases holds with
    | self => cases work <;> cases plain <;> cases timed
    | child inside deeper => exact ih _ inside deeper
  | simple does =>
    cases holds with
    | self => exact does
    | child inside => cases inside
  | fire loaded _ ih =>
    cases holds with
    | self =>
      rw [loaded.rules] at timed
      cases timed
    | child inside deeper => exact ih _ inside deeper

/-! ## Starting, resetting and starting again -/

variable [Scalar F] (h : Host F σ)

theorem Work.prepareReset_of_isTimed (frames : Frames F) {w : Work} (timed : w.isTimed = true)
    (progress : w.Progress F) : w.prepareReset h frames progress = w.prepare h frames := by
  cases w <;> first | rfl | cases timed

theorem Work.prepareAgain_of_isTimed (frames : Frames F) {w : Work} (timed : w.isTimed = true)
    (progress : w.Progress F) : w.prepareAgain h frames progress = w.prepare h frames := by
  cases w <;> first | rfl | cases timed

theorem Work.run_prepareAgain (frames : Frames F) (w : Work) (progress : w.Progress F)
    (a : Actor F σ) :
    ((w.prepareAgain h frames progress).run a).2 = ((w.prepare h frames).run a).2 := by
  cases w <;> rfl

mutual

theorem Plan.run_restart (outer : Frames F) : (p : Plan F) → (cell : Cell F p) → (a : Actor F σ) →
    ((p.restart h outer cell).run a).2 = ((p.start h outer).run a).2
  | .mk node args work children, .mk finished progress below, a => by
    by_cases again : work = .again
    · subst again
      exact (Plan.same_reset_start h outer (.mk node args .again children) _ a a rfl).2
    · rw [Plan.restart_eq h outer again, Plan.start, run_bind_eq, run_bind_eq, run_bind_eq,
        run_bind_eq, Plan.run_restartAll (args :: outer) children below a]
      exact work.run_prepareAgain h _ _ _

theorem Plan.run_restartAll (outer : Frames F) : (ps : List (Plan F)) → (below : Cells F ps) →
    (a : Actor F σ) → ((Plan.restartAll h outer ps below).run a).2
      = ((Plan.startAll h outer ps).run a).2
  | [], .nil, a => rfl
  | p :: ps, .cons head tail, a => by
    rw [Plan.restartAll, Plan.startAll, run_bind_eq, run_bind_eq, run_bind_eq, run_bind_eq,
      Plan.run_restart outer p head a]
    exact Plan.run_restartAll outer ps tail _

end

def Plan.begun (outer : Frames F) (ps : List (Plan F)) (i : Nat) (a : Actor F σ) : Actor F σ :=
  ((Plan.startAll h outer (ps.take i)).run a).2

theorem Plan.begun_succ (outer : Frames F) (p : Plan F) (ps : List (Plan F)) (i : Nat)
    (a : Actor F σ) :
    Plan.begun h outer (p :: ps) (i + 1) a
      = Plan.begun h outer ps i ((p.start h outer).run a).2 := by
  rw [begun, List.take_succ_cons, Plan.startAll]
  rfl

theorem Plan.get?_startAll_begun (outer : Frames F) {ps : List (Plan F)} {i : Nat} {p : Plan F}
    (found : ps[i]? = some p) (a : Actor F σ) : ((Plan.startAll h outer ps).run a).1.get? i
      = some ⟨((p.start h outer).run (Plan.begun h outer ps i a)).1⟩ := by
  induction ps generalizing i a with
  | nil => simp at found
  | cons q ps ih =>
    rw [Plan.startAll, run_bind_eq, run_bind_eq, run_pure_eq]
    cases i with
    | zero =>
      obtain rfl := Option.some.inj found
      rfl
    | succ i =>
      rw [Plan.begun_succ]
      exact ih found _

/-- What is done with tasks in order is done with each of them, at the time when it would be
started. -/
theorem Cells.get?_of_each_begun (outer : Frames F)
    {one : (p : Plan F) → Cell F p → Acting F σ (Cell F p)}
    {all : (ps : List (Plan F)) → Cells F ps → Acting F σ (Cells F ps)}
    (each : ∀ {p ps} (head : Cell F p) (tail : Cells F ps), all (p :: ps) (.cons head tail) = (do
      let head ← one p head
      let tail ← all ps tail
      pure (.cons head tail)))
    (asStart : ∀ p (cell : Cell F p) a, ((one p cell).run a).2 = ((p.start h outer).run a).2)
    {ps : List (Plan F)} {below : Cells F ps} {i : Nat} {t : TaskState F}
    (member : below.get? i = some t) (a : Actor F σ) : ((all ps below).run a).1.get? i
      = some ⟨((one t.plan t.cell).run (Plan.begun h outer ps i a)).1⟩ := by
  induction ps generalizing i a with
  | nil =>
    cases below
    cases member
  | cons p ps ih =>
    cases below with
    | cons head tail =>
      rw [each, run_bind_eq, run_bind_eq, run_pure_eq]
      cases i with
      | zero =>
        cases member
        rfl
      | succ i =>
        rw [Plan.begun_succ, ← asStart p head]
        exact ih member _

theorem Plan.get?_resetAll_begun (outer : Frames F) {ps : List (Plan F)} {below : Cells F ps}
    {i : Nat} {t : TaskState F} (member : below.get? i = some t) (a : Actor F σ) :
    ((Plan.resetAll h outer ps below).run a).1.get? i
      = some ⟨((t.plan.reset h outer t.cell).run (Plan.begun h outer ps i a)).1⟩ :=
  Cells.get?_of_each_begun h outer (fun _ _ => by rw [Plan.resetAll])
    (fun p cell a => (Plan.same_reset_start h outer p cell a a rfl).2) member a

theorem Plan.get?_restartAll_begun (outer : Frames F) {ps : List (Plan F)} {below : Cells F ps}
    {i : Nat} {t : TaskState F} (member : below.get? i = some t) (a : Actor F σ) :
    ((Plan.restartAll h outer ps below).run a).1.get? i
      = some ⟨((t.plan.restart h outer t.cell).run (Plan.begun h outer ps i a)).1⟩ :=
  Cells.get?_of_each_begun h outer (fun _ _ => by rw [Plan.restartAll])
    (fun p cell a => Plan.run_restart h outer p cell a) member a

/-! ## Notes -/

/-- What is noted of a task. -/
structure Observer (F E : Type) where
  /-- The task is prepared, with some arguments in scope. -/
  prepared : {σ : Type} → Host F σ → Frames F → Work → Actor F σ → E
  /-- The task has a tick, with some arguments in scope around it. -/
  ticked : {σ : Type} → Env F σ → Frames F → (p : Plan F) → Cell F p → Actor F σ → E

namespace Observer

variable (o : Observer F E)

/-- What is noted of the task at a path when all tasks are started. The same is noted when they are
reset or started again. -/
def start : TaskPath → Frames F → Plan F → Actor F σ → List E
  | [], outer, p, a =>
    [o.prepared h (p.args :: outer) p.work ((Plan.startAll h (p.args :: outer) p.children).run a).2]
  | i :: path, outer, p, a =>
    match p.children[i]? with
    | some child =>
      start path (p.args :: outer) child (Plan.begun h (p.args :: outer) p.children i a)
    | none => []

def tickAll (env : Env F σ) (inside : (p : Plan F) → Cell F p → Actor F σ → List E)
    (outer : Frames F) : Nat → (ps : List (Plan F)) → Cells F ps → Actor F σ → List E
  | _, [], .nil, _ => []
  | 0, p :: _, .cons head _, a => if head.finished then [] else inside p head a
  | i + 1, p :: ps, .cons head tail, a =>
    if head.finished then tickAll env inside outer i ps tail a
    else match (env.run outer p head).run a with
      | ((.waiting, _), _) => []
      | (_, a) => tickAll env inside outer i ps tail a

def passes {S : Type} (body : S → Acting F σ (Status × S)) (again : S → Acting F σ S)
    (inside : S → Actor F σ → List E) (started : Actor F σ → List E) :
    (left : Nat) → S → Actor F σ → List E
  | 0, _, _ => []
  | left + 1, s, a =>
    inside s a ++ match (body s).run a with
      | ((.done, s), a) =>
        started a ++ passes body again inside started left ((again s).run a).1 ((again s).run a).2
      | _ => []

def tick (env : Env F σ) :
    TaskPath → Frames F → (p : Plan F) → Cell F p → Actor F σ → List E
  | [], outer, p, cell, a => [o.ticked env outer p cell a]
  | i :: path, outer, .mk node args work children, .mk _ progress below, a =>
    let inside := tickAll env (tick env path (args :: outer)) (args :: outer) i children
    match work, progress with
    | .sequence, _ | .again, _ => inside below a
    | .action bound, passed =>
      passes (fun below => env.runAll (args :: outer) children below true)
        (Plan.restartAll env.host (args :: outer) children) inside
        (o.start env.host (i :: path) outer (.mk node args (.action bound) children))
        (bound - Int.ofNat passed).toNat below a
    | _, _ => []

/-! ## What is kept -/

variable {q : Plan F} {around : Frames F} {P : List E → Cell F q → Prop}

/-- What is kept by the preparations and the ticks of a task, of the notes so far and the state of
the task. -/
structure Keeps (o : Observer F E) (q : Plan F) (around : Frames F)
    (P : List E → Cell F q → Prop) : Prop where
  prepared : ∀ {σ : Type} (h : Host F σ) (now : Actor F σ) {notes : List E} {cell : Cell F q},
    (notes = [] ∨ ∃ before, P notes before) → cell.finished = false →
    cell.progress = ((q.work.prepare h (q.args :: around)).run now).1 →
    P (notes ++ [o.prepared h (q.args :: around) q.work now]) cell
  ticked : ∀ {σ : Type} (env : Env F σ) (now : Actor F σ) {notes : List E} {cell : Cell F q},
    P notes cell → cell.finished = false →
    P (notes ++ [o.ticked env around q cell now]) ((env.run around q cell).run now).1.2

variable {o} {outer : Frames F} {path : TaskPath} {p : Plan F} {notes : List E}

/-- A tick of tasks in order does nothing to a task below one of them but what a tick of that one
does. -/
theorem shows_tickAll (env : Env F σ) {i : Nat} {child : Plan F}
    (once : ∀ {notes : List E} (cell : Cell F child) (a : Actor F σ), cell.finished = false →
      TaskState.Shows path (P notes) ⟨cell⟩ →
      TaskState.Shows path (P (notes ++ o.tick env path outer child cell a))
        ⟨((env.run outer child cell).run a).1.2⟩)
    {ps : List (Plan F)} {below : Cells F ps} {cell : Cell F child}
    (member : below.get? i = some ⟨cell⟩) (seen : TaskState.Shows path (P notes) ⟨cell⟩)
    (clear : Bool) (a : Actor F σ) :
    ∃ after, ((env.runAll outer ps below clear).run a).1.2.get? i = some after ∧
      after.Shows path
        (P (notes ++ Observer.tickAll env (o.tick env path outer) outer i ps below a)) := by
  induction ps generalizing i clear a with
  | nil =>
    cases below
    cases member
  | cons p ps ih =>
    cases below with
    | cons head tail =>
      rw [Env.runAll]
      cases i with
      | zero =>
        cases member
        rw [Observer.tickAll]
        split
        · rw [List.append_nil]
          exact ⟨_, rfl, seen⟩
        · next unfinished =>
          have seen := once cell a (by simpa using unfinished) seen
          rw [run_bind_eq]
          generalize (env.run outer child cell).run a = r at seen ⊢
          obtain ⟨⟨status, head⟩, a⟩ := r
          cases status <;> exact ⟨_, rfl, seen⟩
      | succ i =>
        rw [Observer.tickAll]
        split
        · exact ih member clear a
        · rw [run_bind_eq]
          generalize (env.run outer p head).run a = r
          obtain ⟨⟨status, head⟩, a⟩ := r
          cases status with
          | waiting =>
            rw [List.append_nil]
            exact ⟨_, member, seen⟩
          | running | done => exact ih member (clear && Status.isDone _) a

namespace Keeps

variable (keeps : o.Keeps q around P)

include keeps

theorem start (there : p.at? path = some q)
    (inScope : p.framesAt? outer path = some (q.args :: around))
    (before : notes = [] ∨ ∃ cell, P notes cell) (a : Actor F σ) :
    TaskState.Shows path (P (notes ++ o.start h path outer p a)) ⟨((p.start h outer).run a).1⟩ := by
  induction path generalizing p outer a with
  | nil =>
    obtain rfl := Option.some.inj there
    obtain ⟨node, args, work, children⟩ := p
    obtain rfl := (List.cons.inj (Option.some.inj inScope)).2
    exact TaskState.shows_nil.2 (keeps.prepared h _ before rfl rfl)
  | cons i path ih =>
    obtain ⟨node, args, work, children⟩ := p
    obtain ⟨child, found, there⟩ := Option.bind_eq_some_iff.1 there
    rw [Plan.framesAt?, found] at inScope
    rw [Observer.start, found, Plan.start, run_bind_eq, run_bind_eq, run_pure_eq]
    exact TaskState.shows_cons.2
      ⟨_, Plan.get?_startAll_begun h (args :: outer) found a, ih there inScope _⟩

variable (timed : q.work.isTimed = true)

include timed

theorem reset {cell : Cell F p} (inScope : p.framesAt? outer path = some (q.args :: around))
    (seen : TaskState.Shows path (P notes) ⟨cell⟩) (a : Actor F σ) :
    TaskState.Shows path (P (notes ++ o.start h path outer p a))
      ⟨((p.reset h outer cell).run a).1⟩ := by
  induction path generalizing p outer a with
  | nil =>
    obtain ⟨before, there, holds⟩ := seen
    cases there
    cases before with
    | @mk node args work children finished progress below =>
      obtain rfl := (List.cons.inj (Option.some.inj inScope)).2
      replace timed : work.isTimed = true := timed
      rw [Plan.reset, run_bind_eq, run_bind_eq, run_pure_eq, Work.prepareReset_of_isTimed h _ timed,
        (Plan.same_resetAll_startAll h (args :: outer) children below a a rfl).2]
      exact TaskState.shows_nil.2 (keeps.prepared h _ (.inr ⟨_, holds⟩) rfl rfl)
  | cons i path ih =>
    cases cell with
    | @mk node args work children finished progress below =>
      obtain ⟨child, member, deeper⟩ := TaskState.shows_cons.1 seen
      have found := Cells.plan_of_get? member
      rw [Plan.framesAt?, Plan.children, found] at inScope
      rw [Observer.start, Plan.children, found, Plan.reset, run_bind_eq, run_bind_eq, run_pure_eq]
      exact TaskState.shows_cons.2 ⟨_, Plan.get?_resetAll_begun h (args :: outer) member a,
        ih inScope deeper _⟩

theorem restart {cell : Cell F p} (inScope : p.framesAt? outer path = some (q.args :: around))
    (seen : TaskState.Shows path (P notes) ⟨cell⟩) (a : Actor F σ) :
    TaskState.Shows path (P (notes ++ o.start h path outer p a))
      ⟨((p.restart h outer cell).run a).1⟩ := by
  induction path generalizing p outer a with
  | nil =>
    obtain ⟨before, there, holds⟩ := seen
    cases there
    cases before with
    | @mk node args work children finished progress below =>
      replace timed : work.isTimed = true := timed
      have other : work ≠ .again := by
        rintro rfl
        cases timed
      obtain rfl := (List.cons.inj (Option.some.inj inScope)).2
      rw [Plan.restart_eq h outer other, run_bind_eq, run_bind_eq, run_pure_eq,
        Work.prepareAgain_of_isTimed h _ timed,
        Plan.run_restartAll h (args :: outer) children below a]
      exact TaskState.shows_nil.2 (keeps.prepared h _ (.inr ⟨_, holds⟩) rfl rfl)
  | cons i path ih =>
    cases cell with
    | @mk node args work children finished progress below =>
      by_cases again : work = .again
      -- a repeat is reset
      · subst again
        exact keeps.reset h timed inScope seen a
      · obtain ⟨child, member, deeper⟩ := TaskState.shows_cons.1 seen
        have found := Cells.plan_of_get? member
        rw [Plan.framesAt?, Plan.children, found] at inScope
        rw [Observer.start, Plan.children, found, Plan.restart_eq h outer again, run_bind_eq,
          run_bind_eq, run_pure_eq]
        exact TaskState.shows_cons.2 ⟨_, Plan.get?_restartAll_begun h (args :: outer) member a,
          ih inScope deeper _⟩

theorem passes (env : Env F σ) {i : Nat} {node : NodeId} {args : List F} {bound : Int}
    {children : List (Plan F)}
    (inScope : (Plan.mk node args (.action bound) children).framesAt? outer (i :: path)
      = some (q.args :: around))
    (once : ∀ {notes : List E} (below : Cells F children) (a : Actor F σ),
      (∃ child, below.get? i = some child ∧ child.Shows path (P notes)) →
      ∃ child, ((env.runAll (args :: outer) children below true).run a).1.2.get? i = some child ∧
        child.Shows path (P (notes ++ Observer.tickAll env (o.tick env path (args :: outer))
          (args :: outer) i children below a)))
    (left passed : Nat) {below : Cells F children}
    (seen : ∃ child, below.get? i = some child ∧ child.Shows path (P notes)) (a : Actor F σ) :
    let body := fun below => env.runAll (args :: outer) children below true
    let again := Plan.restartAll env.host (args :: outer) children
    ∃ child, ((passesOver body again left passed below).run a).1.2.2.get? i = some child ∧
      child.Shows path (P (notes ++ Observer.passes body again
        (Observer.tickAll env (o.tick env path (args :: outer)) (args :: outer) i children)
        (o.start env.host (i :: path) outer (.mk node args (.action bound) children)) left below
        a)) := by
  intro body again
  induction left generalizing passed notes below a with
  | zero =>
    rw [Observer.passes, List.append_nil]
    exact seen
  | succ left ih =>
    have seen := once below a seen
    rw [Observer.passes, passesOver, run_bind_eq, ← List.append_assoc]
    replace seen :
      ∃ child, ((body below).run a).1.2.get? i = some child ∧ child.Shows path _ := seen
    generalize (body below).run a = r at seen ⊢
    obtain ⟨⟨status, below⟩, a⟩ := r
    cases status with
    | running | waiting =>
      rw [List.append_nil]
      exact seen
    | done =>
      rw [← List.append_assoc]
      refine ih (passed + 1) ?_ _
      let cell : Cell F (.mk node args (.action bound) children) := .mk false passed below
      have restarted : TaskState.Shows (i :: path) _
          ⟨((Plan.restart env.host outer _ cell).run a).1⟩ :=
        keeps.restart env.host timed inScope (TaskState.shows_cons.2 seen) a
      have prepared : Work.action bound ≠ .again := by simp
      rw [Plan.restart_eq env.host outer prepared false passed below, run_bind_eq, run_bind_eq,
        run_pure_eq] at restarted
      exact TaskState.shows_cons.1 restarted

theorem tick (env : Env F σ) {cell : Cell F p}
    (inScope : p.framesAt? outer path = some (q.args :: around))
    (goesOn : path = [] → cell.finished = false)
    (seen : TaskState.Shows path (P notes) ⟨cell⟩) (a : Actor F σ) :
    TaskState.Shows path (P (notes ++ o.tick env path outer p cell a))
      ⟨((env.run outer p cell).run a).1.2⟩ := by
  induction path generalizing p outer notes a with
  | nil =>
    obtain ⟨before, there, holds⟩ := seen
    cases there
    obtain rfl := (List.cons.inj (Option.some.inj inScope)).2
    exact TaskState.shows_nil.2 (keeps.ticked env a holds (goesOn rfl))
  | cons i path ih =>
    cases cell with
    | @mk node args work children finished progress below =>
      have all : ∀ {notes : List E} (below : Cells F children) (a : Actor F σ),
          (∃ child, below.get? i = some child ∧ child.Shows path (P notes)) →
          ∃ child,
            ((env.runAll (args :: outer) children below true).run a).1.2.get? i = some child ∧
            child.Shows path (P (notes ++ Observer.tickAll env (o.tick env path (args :: outer))
              (args :: outer) i children below a)) := by
        rintro notes below a ⟨⟨child⟩, member, seen⟩
        have found := Cells.plan_of_get? member
        rw [Plan.framesAt?, Plan.children, found] at inScope
        refine shows_tickAll env ?_ member seen true a
        exact fun cell a unfinished seen => ih inScope (fun _ => unfinished) seen a
      have inside := TaskState.shows_cons.1 seen
      cases work with
      | sequence | again =>
        rw [Observer.tick]
        exact TaskState.shows_cons.2 (all below a inside)
      | action bound =>
        rw [Observer.tick]
        exact TaskState.shows_cons.2 (keeps.passes timed env inScope all _ progress inside a)
      | _ =>
        rw [← List.append_nil notes] at inside
        exact TaskState.shows_cons.2 inside

end Keeps

def bind (path : TaskPath) (entity : Entity F) (p : Pattern) (node : NodeId)
    (scope? : Option (Frames F)) (s : Stage σ) : List E :=
  match (Plan.build h p (scope?.getD []) node).run s with
  | (.ok plan, s) => o.start h path (scope?.getD []) plan { toStage := s, entity }
  | (.error _, _) => []

end Observer

/-- The history of a bullet: it is bound, has ticks, each in a world of its own, and hosts change
its entity. The task at a path is watched. -/
inductive Bullet.Watched (o : Observer F E) (path : TaskPath) : List E → Bullet F → Prop where
  | bound {σ : Type} {h : Host F σ} {entity : Entity F} {p : Pattern} {node : NodeId}
      {scope? : Option (Frames F)} {emitter : EmitterId} {s s' : Stage σ} {b : Bullet F}
      (made : (Bullet.bind h entity p node scope? emitter).run s = (.ok b, s')) :
      Bullet.Watched o path (o.bind h path entity p node scope? s) b
  | step {σ : Type} {notes : List E} {b : Bullet F} (before : Bullet.Watched o path notes b)
      (h : Host F σ) (s : Stage σ) :
      Bullet.Watched o path
        (notes ++ o.tick (b.env h) path b.scope b.plan b.cell { toStage := s, entity := b.entity })
        ((b.step h).run s).1.2
  | write {notes : List E} {b : Bullet F} (before : Bullet.Watched o path notes b)
      (entity : Entity F) : Bullet.Watched o path notes { b with entity }

theorem Observer.Keeps.bind {o : Observer F E} {q : Plan F} {around : Frames F}
    {P : List E → Cell F q → Prop} (keeps : o.Keeps q around P) {path : TaskPath} {h : Host F σ}
    {entity : Entity F} {p : Pattern} {node : NodeId} {scope? : Option (Frames F)}
    {emitter : EmitterId} {s s' : Stage σ} {b : Bullet F}
    (made : (Bullet.bind h entity p node scope? emitter).run s = (.ok b, s'))
    (there : b.plan.at? path = some q)
    (inScope : b.plan.framesAt? b.scope path = some (q.args :: around)) :
    TaskState.Shows path (P (o.bind h path entity p node scope? s)) ⟨b.cell⟩ := by
  rw [Bullet.bind, run_bind_eq] at made
  rw [Observer.bind]
  cases built : (Plan.build h p (scope?.getD []) node).run s with
  | mk outcome t =>
    rw [built] at made
    cases outcome with
    | error e => cases made
    | ok plan =>
      cases made
      exact keeps.start h there inScope (.inl rfl) _

namespace Bullet.Watched

variable {o : Observer F E} {path : TaskPath} {notes : List E} {b : Bullet F}

theorem exists_bound (watched : b.Watched o path notes) :
    ∃ b₀ : Bullet F, b₀.Bound ∧ b.plan = b₀.plan ∧ b.pattern = b₀.pattern := by
  induction watched with
  | @bound _ h entity p node scope? emitter s s' b made =>
    exact ⟨b, ⟨_, h, entity, p, node, scope?, emitter, s, s', made⟩, rfl, rfl⟩
  | step _ _ _ ih | write _ _ ih => exact ih

theorem work (watched : b.Watched o path notes) : b.plan.work = .sequence := by
  obtain ⟨b₀, bound, same, -⟩ := watched.exists_bound
  rw [same, bound.work]

theorem made (watched : b.Watched o path notes) : b.plan.Made b.pattern := by
  obtain ⟨b₀, bound, same, same'⟩ := watched.exists_bound
  obtain ⟨⟨_, _, _, _, built⟩, -⟩ := bound.built_and_started
  rw [same, same']
  exact Plan.made_of_build built

theorem shows (watched : b.Watched o path notes) {q : Plan F}
    (there : b.plan.at? path = some q) (timed : q.work.isTimed = true)
    {P : List E → Cell F q → Prop} (keeps : ∀ around, o.Keeps q around P) :
    TaskState.Shows path (P notes) ⟨b.cell⟩ := by
  obtain ⟨frames, inScope⟩ := b.plan.exists_framesAt? b.scope there
  obtain ⟨around, rfl⟩ := (b.plan.holds_of_at? there inScope).frames_eq
  induction watched with
  | bound made => exact (keeps around).bind made there inScope
  | step before h s ih =>
    refine (keeps around).tick timed _ inScope ?_ (ih there inScope) _
    rintro rfl
    obtain rfl := Option.some.inj there
    rw [(before.step h s).work] at timed
    cases timed
  | write before entity ih => exact ih there inScope

end Bullet.Watched
end Barrage
