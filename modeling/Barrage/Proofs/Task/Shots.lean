import Barrage.Proofs.Host.ShotBullets
import Barrage.Proofs.Task.Numbering

/-!
The shots of fires over the whole history of a bullet. The log of a tick is put together from the
ticks of the tasks themselves. Whatever hosts do, a fire has counted just the shots since it was
last reset, remembers the latest of them, and each shot obeys the law after the one before it.
-/

set_option autoImplicit false

namespace Barrage

variable {F σ : Type}

namespace Plan

def framesAt? (outer : Frames F) : TaskPath → Plan F → Option (Frames F)
  | [], p => some (p.args :: outer)
  | i :: path, p => p.children[i]?.bind (framesAt? (p.args :: outer) path)

theorem exists_framesAt? (outer : Frames F) {path : TaskPath} {p q : Plan F}
    (there : p.at? path = some q) : ∃ frames, p.framesAt? outer path = some frames := by
  induction path generalizing p outer with
  | nil => exact ⟨_, rfl⟩
  | cons i path ih =>
    obtain ⟨child, found, deeper⟩ := Option.bind_eq_some_iff.1 there
    rw [framesAt?, found]
    exact ih (p.args :: outer) deeper

theorem holds_of_at? {outer frames : Frames F} {path : TaskPath} {p q : Plan F}
    (there : p.at? path = some q) (inScope : p.framesAt? outer path = some frames) :
    p.Holds outer frames q := by
  induction path generalizing p outer with
  | nil =>
    obtain rfl := Option.some.inj there
    obtain rfl := Option.some.inj inScope
    exact .self
  | cons i path ih =>
    obtain ⟨child, found, deeper⟩ := Option.bind_eq_some_iff.1 there
    rw [framesAt?, found] at inScope
    exact .child (List.mem_of_getElem? found) (ih deeper inScope)

end Plan

/-! ## What fires remember -/

def Work.shots? : (w : Work) → w.Progress F → Option (Shots F)
  | .fire .., shots => some shots
  | _, _ => none

def Cell.shots? : {p : Plan F} → Cell F p → Option (Shots F)
  | .mk _ _ work _, .mk _ progress _ => work.shots? progress

/-- The task at a path is a fire that remembers these shots, the latest one first. -/
def TaskState.Remembers (path : TaskPath) (fs : List (Firing F)) (t : TaskState F) : Prop :=
  ∃ t' shots, t.at? path = some t' ∧ t'.cell.shots? = some shots ∧ shots.Of fs

def Cells.Remember {ps : List (Plan F)} (i : Nat) (path : TaskPath) (fs : List (Firing F))
    (below : Cells F ps) : Prop :=
  ∃ child, below.get? i = some child ∧ child.Remembers path fs

theorem Cells.plan_of_get? {ps : List (Plan F)} {below : Cells F ps} {i : Nat} {t : TaskState F}
    (member : below.get? i = some t) : ps[i]? = some t.plan := by
  rw [← below.get?_plan i, member]
  rfl

section Remembering

variable {path : TaskPath} {i : Nat} {fs : List (Firing F)}

theorem TaskState.remembers_nil {node : NodeId} {args : List F} {work : Work}
    {children : List (Plan F)} {finished : Bool} {progress : work.Progress F}
    {below : Cells F children} :
    TaskState.Remembers [] fs ⟨(.mk finished progress below : Cell F (.mk node args work children))⟩
      ↔ ∃ shots, work.shots? progress = some shots ∧ shots.Of fs := by
  simp [Remembers, at?, Cell.shots?]

theorem TaskState.remembers_cons {node : NodeId} {args : List F} {work : Work}
    {children : List (Plan F)} {finished : Bool} {progress : work.Progress F}
    {below : Cells F children} :
    TaskState.Remembers (i :: path) fs
      ⟨(.mk finished progress below : Cell F (.mk node args work children))⟩
      ↔ below.Remember i path fs := by
  constructor
  · rintro ⟨t', shots, found, own, remembers⟩
    obtain ⟨child, member, deeper⟩ := Option.bind_eq_some_iff.1 found
    exact ⟨child, member, t', shots, deeper, own, remembers⟩
  · rintro ⟨child, member, t', shots, deeper, own, remembers⟩
    exact ⟨t', shots, Option.bind_eq_some_iff.2 ⟨child, member, deeper⟩, own, remembers⟩

end Remembering

/-! ## Starting -/

variable [Scalar F] (h : Host F σ)

theorem Plan.get?_startAll (outer : Frames F) {ps : List (Plan F)} {i : Nat} {p : Plan F}
    (found : ps[i]? = some p) (a : Actor F σ) : ∃ now, ((Plan.startAll h outer ps).run a).1.get? i
      = some ⟨((p.start h outer).run now).1⟩ := by
  induction ps generalizing i a with
  | nil => simp at found
  | cons q ps ih =>
    rw [Plan.startAll, run_bind_eq, run_bind_eq, run_pure_eq]
    cases i with
    | zero =>
      obtain rfl := Option.some.inj found
      exact ⟨a, rfl⟩
    | succ i => exact ih found _

omit [Scalar F] in
theorem Cells.get?_of_each {one : (p : Plan F) → Cell F p → Acting F σ (Cell F p)}
    {all : (ps : List (Plan F)) → Cells F ps → Acting F σ (Cells F ps)}
    (each : ∀ {p ps} (head : Cell F p) (tail : Cells F ps), all (p :: ps) (.cons head tail) = (do
      let head ← one p head
      let tail ← all ps tail
      pure (.cons head tail)))
    {ps : List (Plan F)} {below : Cells F ps} {i : Nat} {t : TaskState F}
    (member : below.get? i = some t) (a : Actor F σ) :
    ∃ now, ((all ps below).run a).1.get? i = some ⟨((one t.plan t.cell).run now).1⟩ := by
  induction ps generalizing i a with
  | nil =>
    cases below
    cases member
  | cons p ps ih =>
    cases below with
    | cons head tail =>
      rw [each, run_bind_eq, run_bind_eq, run_pure_eq]
      cases i with
      | zero =>
        cases member
        exact ⟨a, rfl⟩
      | succ i => exact ih member _

theorem Plan.get?_resetAll (outer : Frames F) {ps : List (Plan F)} {below : Cells F ps} {i : Nat}
    {t : TaskState F} (member : below.get? i = some t) (a : Actor F σ) :
    ∃ now, ((Plan.resetAll h outer ps below).run a).1.get? i
      = some ⟨((t.plan.reset h outer t.cell).run now).1⟩ :=
  Cells.get?_of_each (fun _ _ => by rw [Plan.resetAll]) member a

theorem Plan.get?_restartAll (outer : Frames F) {ps : List (Plan F)} {below : Cells F ps} {i : Nat}
    {t : TaskState F} (member : below.get? i = some t) (a : Actor F σ) :
    ∃ now, ((Plan.restartAll h outer ps below).run a).1.get? i
      = some ⟨((t.plan.restart h outer t.cell).run now).1⟩ :=
  Cells.get?_of_each (fun _ _ => by rw [Plan.restartAll]) member a

theorem Plan.start_remembers (outer : Frames F) {path : TaskPath} {p q : Plan F}
    {direction speed : ShotRule} (there : p.at? path = some q)
    (fire : q.work = .fire direction speed) (a : Actor F σ) :
    TaskState.Remembers path [] ⟨((p.start h outer).run a).1⟩ := by
  induction path generalizing p outer a with
  | nil =>
    obtain rfl := Option.some.inj there
    obtain ⟨node, args, work, children⟩ := p
    cases fire
    exact TaskState.remembers_nil.2 ⟨_, rfl, Shots.of_nil.2 rfl⟩
  | cons i path ih =>
    obtain ⟨node, args, work, children⟩ := p
    obtain ⟨child, found, there⟩ := Option.bind_eq_some_iff.1 there
    rw [Plan.start, run_bind_eq, run_bind_eq, run_pure_eq]
    obtain ⟨now, member⟩ := Plan.get?_startAll h (args :: outer) found a
    exact TaskState.remembers_cons.2 ⟨_, member, ih _ there now⟩

theorem Plan.reset_remembers (outer : Frames F) {path : TaskPath} {fs : List (Firing F)}
    {p : Plan F} {cell : Cell F p} (remembers : TaskState.Remembers path fs ⟨cell⟩)
    (a : Actor F σ) : TaskState.Remembers path [] ⟨((p.reset h outer cell).run a).1⟩ := by
  induction path generalizing p outer a with
  | nil =>
    cases cell with
    | @mk node args work children finished progress below =>
      obtain ⟨shots, own, -⟩ := TaskState.remembers_nil.1 remembers
      cases work with
      | fire => exact TaskState.remembers_nil.2 ⟨_, rfl, Shots.of_nil.2 rfl⟩
      | _ => cases own
  | cons i path ih =>
    cases cell with
    | @mk node args work children finished progress below =>
      obtain ⟨⟨child⟩, member, remembers⟩ := TaskState.remembers_cons.1 remembers
      rw [Plan.reset, run_bind_eq, run_bind_eq, run_pure_eq]
      obtain ⟨now, member⟩ := Plan.get?_resetAll h (args :: outer) member a
      exact TaskState.remembers_cons.2 ⟨_, member, ih _ remembers now⟩

/-- Starting again sets the numbers of a fire back exactly if a repeat is on the way. -/
theorem Plan.restart_remembers (outer : Frames F) {path : TaskPath} {fs : List (Firing F)}
    {p : Plan F} {cell : Cell F p} (remembers : TaskState.Remembers path fs ⟨cell⟩)
    (a : Actor F σ) :
    TaskState.Remembers path (if p.RepeatsOn path then [] else fs)
      ⟨((p.restart h outer cell).run a).1⟩ := by
  induction path generalizing p outer a with
  | nil =>
    cases cell with
    | @mk node args work children finished progress below =>
      obtain ⟨shots, own, counted⟩ := TaskState.remembers_nil.1 remembers
      cases work with
      | fire =>
        rw [if_neg (by simp [Plan.repeatsOn_nil, Plan.work])]
        exact TaskState.remembers_nil.2 ⟨_, own, counted⟩
      | _ => cases own
  | cons i path ih =>
    cases cell with
    | @mk node args work children finished progress below =>
      obtain ⟨child, member, deeper⟩ := TaskState.remembers_cons.1 remembers
      have found : (Plan.mk node args work children).children[i]? = some child.plan :=
        Cells.plan_of_get? member
      simp only [Plan.repeatsOn_cons found]
      by_cases again : work = .again
      · subst again
        rw [if_pos (.inl rfl)]
        exact Plan.reset_remembers h outer remembers a
      · obtain ⟨now, member⟩ := Plan.get?_restartAll h (args :: outer) member a
        have deeper := ih (args :: outer) deeper now
        rw [Plan.restart_eq h outer again, run_bind_eq, run_bind_eq, run_pure_eq]
        exact TaskState.remembers_cons.2 ⟨_, member, by simpa [Plan.work, again] using deeper⟩

/-! ## Ticks and their logs -/

/-- The log of up to `left` passes of a body, each of which has a log. -/
def logPasses {S : Type} (body : S → Acting F σ (Status × S)) (again : S → Acting F σ S)
    (log : S → Actor F σ → FireLog F) : (left : Nat) → S → Actor F σ → FireLog F
  | 0, _, _ => []
  | left + 1, s, a =>
    log s a ++ match (body s).run a with
      | ((.done, s), a) =>
        .restarted [] :: logPasses body again log left ((again s).run a).1 ((again s).run a).2
      | _ => []

namespace Env

variable (env : Env F σ)

mutual

def fireLog (outer : Frames F) : (p : Plan F) → Cell F p → Actor F σ → FireLog F
  | .mk node args work children, .mk _ progress below, a =>
    match work, progress with
    | .sequence, _ | .again, _ => fireLogAll (args :: outer) 0 children below a
    | .action bound, passed =>
      logPasses (fun below => env.runAll (args :: outer) children below true)
        (Plan.restartAll env.host (args :: outer) children)
        (fun below a => fireLogAll (args :: outer) 0 children below a)
        (bound - Int.ofNat passed).toNat below a
    | .fire direction speed, shots =>
      [.fired [] (env.firing node (args :: outer) children direction speed shots a)]
    | _, _ => []

/-- The log of a tick of tasks in order, the first of which is child number `i`. -/
def fireLogAll (outer : Frames F) (i : Nat) :
    (ps : List (Plan F)) → Cells F ps → Actor F σ → FireLog F
  | [], .nil, _ => []
  | p :: ps, .cons head tail, a =>
    if head.finished then fireLogAll outer (i + 1) ps tail a
    else (fireLog outer p head a).map (FireEvent.under i) ++
      match (env.run outer p head).run a with
        | ((.waiting, _), _) => []
        | (_, a) => fireLogAll outer (i + 1) ps tail a

end

/-- What is done by children from one number on is done neither by a child before nor below it. -/
theorem not_prefix_of_mem_fireLogAll (outer : Frames F) {ps : List (Plan F)} {below : Cells F ps}
    {a : Actor F σ} {i j : Nat} (before : j < i) (path : TaskPath) :
    ∀ e ∈ env.fireLogAll outer i ps below a, ¬ e.path <+: j :: path := by
  induction ps generalizing i a with
  | nil =>
    cases below
    exact List.forall_mem_nil _
  | cons p ps ih =>
    cases below with
    | cons head tail =>
      intro e member
      rw [fireLogAll] at member
      split at member
      · exact ih (Nat.lt_succ_of_lt before) e member
      · rcases List.mem_append.1 member with member | member
        · obtain ⟨e, -, rfl⟩ := List.mem_map.1 member
          exact FireEvent.not_prefix_under (Nat.ne_of_gt before) e path
        · split at member
          · exact absurd member List.not_mem_nil
          · exact ih (Nat.lt_succ_of_lt before) e member

/-- The shots of a fire below a child are numbered in a tick of tasks in order if they are numbered
in every tick of the child. -/
theorem fireLogAll_numbers {law : Firing F → Option (Firing F) → Prop} (outer : Frames F)
    {p child : Plan F} {path : TaskPath} {fs : List (Firing F)}
    (once : ∀ (cell : Cell F child) a, TaskState.Remembers path fs ⟨cell⟩ →
      ∃ fs', (env.fireLog outer child cell a).Numbers law child path fs fs' ∧
        TaskState.Remembers path fs' ⟨((env.run outer child cell).run a).1.2⟩)
    {k i : Nat} (found : p.children[k + i]? = some child) {ps : List (Plan F)}
    (there : ps[i]? = some child) {below : Cells F ps} (remember : below.Remember i path fs)
    (clear : Bool) (a : Actor F σ) :
    ∃ fs', (env.fireLogAll outer k ps below a).Numbers law p ((k + i) :: path) fs fs' ∧
      ((env.runAll outer ps below clear).run a).1.2.Remember i path fs' := by
  induction ps generalizing k i clear a with
  | nil => simp at there
  | cons q ps ih =>
    cases below with
    | cons head tail =>
      rw [fireLogAll, runAll]
      cases i with
      | zero =>
        -- the fire is below the first task, and what the others do does not matter
        obtain rfl := Option.some.inj there
        have later : ∀ {a}, ∀ e ∈ env.fireLogAll outer (k + 1) ps tail a, ¬ e.path <+: k :: path :=
          env.not_prefix_of_mem_fireLogAll outer (Nat.lt_succ_self k) path
        obtain ⟨_, same, remembers⟩ := remember
        obtain rfl := Option.some.inj same
        split
        · exact ⟨fs, .quiet fs later, _, rfl, remembers⟩
        · obtain ⟨fs', numbers, remembers⟩ := once head a remembers
          have numbers := numbers.under found
          rw [run_bind_eq]
          generalize (env.run outer q head).run a = r at remembers ⊢
          obtain ⟨⟨status, head'⟩, a'⟩ := r
          cases status with
          | waiting => exact ⟨fs', numbers.append (.nil fs'), _, rfl, remembers⟩
          | running | done => exact ⟨fs', numbers.append (.quiet fs' later), _, rfl, remembers⟩
      | succ i =>
        -- the fire is below a later task, and what the first one does does not matter
        rw [← Nat.succ_add_eq_add_succ] at found ⊢
        have others : ∀ clear a, ∃ fs',
            (env.fireLogAll outer (k + 1) ps tail a).Numbers law p ((k + 1 + i) :: path) fs fs' ∧
              ((env.runAll outer ps tail clear).run a).1.2.Remember i path fs' :=
          fun clear a => ih found there remember clear a
        have ahead : ∀ e ∈ (env.fireLog outer q head a).map (FireEvent.under k),
            ¬ e.path <+: (k + 1 + i) :: path := by
          intro e member
          obtain ⟨e, -, rfl⟩ := List.mem_map.1 member
          exact FireEvent.not_prefix_under (by omega) e path
        split
        · exact others clear a
        · rw [run_bind_eq]
          generalize (env.run outer q head).run a = r
          obtain ⟨⟨status, head'⟩, a'⟩ := r
          cases status with
          | waiting =>
            exact ⟨fs, FireLog.Numbers.append (.quiet fs ahead) (.nil fs), remember⟩
          | running | done =>
            obtain ⟨fs', numbers, remember⟩ := others (clear && Status.isDone _) a'
            exact ⟨fs', FireLog.Numbers.append (.quiet fs ahead) numbers, remember⟩

/-- The same for the passes of an action: after each pass the shots are numbered anew if a repeat is
on the way. -/
theorem logPasses_numbers {law : Firing F → Option (Firing F) → Prop} {p child : Plan F}
    {path : TaskPath} {i : Nat} (found : p.children[i]? = some child) (outer : Frames F)
    (once : ∀ fs (below : Cells F p.children) a, below.Remember i path fs →
      ∃ fs', (env.fireLogAll outer 0 p.children below a).Numbers law p (i :: path) fs fs' ∧
        ((env.runAll outer p.children below true).run a).1.2.Remember i path fs')
    (left passed : Nat) {fs : List (Firing F)} {below : Cells F p.children}
    (remember : below.Remember i path fs) (a : Actor F σ) :
    let body := fun below => env.runAll outer p.children below true
    let again := Plan.restartAll env.host outer p.children
    ∃ fs', (logPasses body again (fun below a => env.fireLogAll outer 0 p.children below a)
        left below a).Numbers law p (i :: path) fs fs' ∧
      ((passesOver body again left passed below).run a).1.2.2.Remember i path fs' := by
  intro body again
  induction left generalizing passed fs below a with
  | zero => exact ⟨fs, .nil fs, remember⟩
  | succ left ih =>
    obtain ⟨fs', numbers, remember⟩ := once fs below a remember
    rw [logPasses, passesOver, run_bind_eq]
    replace remember : ((body below).run a).1.2.Remember i path fs' := remember
    generalize (body below).run a = r at remember ⊢
    obtain ⟨⟨status, below⟩, a⟩ := r
    cases status with
    | running | waiting => exact ⟨fs', numbers.append (.nil fs'), remember⟩
    | done =>
      -- the pass starts the fire again, which sets its numbers back if a repeat is on the way
      obtain ⟨t, member, remembers⟩ := remember
      obtain rfl := Option.some.inj (found.symm.trans (Cells.plan_of_get? member))
      obtain ⟨now, member⟩ := Plan.get?_restartAll env.host outer member a
      have started := Plan.restart_remembers env.host outer remembers now
      obtain ⟨fs'', numbers', remember⟩ := ih (passed + 1) ⟨_, member, started⟩
        ((again below).run a).2
      exact ⟨fs'', numbers.append ((FireLog.Numbers.restarted found fs').append numbers'), remember⟩

theorem fireLog_numbers {q : Plan F} {direction speed : ShotRule}
    (fire : q.work = .fire direction speed) {outer frames : Frames F} {path : TaskPath} {p : Plan F}
    (there : p.at? path = some q) (inScope : p.framesAt? outer path = some frames)
    {fs : List (Firing F)} (cell : Cell F p) (a : Actor F σ)
    (remembers : TaskState.Remembers path fs ⟨cell⟩) :
    ∃ fs', (env.fireLog outer p cell a).Numbers (fun f => f.Follows q frames direction speed) p path
        fs fs' ∧
      TaskState.Remembers path fs' ⟨((env.run outer p cell).run a).1.2⟩ := by
  induction path generalizing p outer fs a with
  | nil =>
    obtain rfl := Option.some.inj there
    cases cell with
    | @mk node args work children finished progress below =>
      cases fire
      obtain rfl := Option.some.inj inScope
      obtain ⟨shots, same, counted⟩ := TaskState.remembers_nil.1 remembers
      obtain rfl := Option.some.inj same
      obtain ⟨follows, counted⟩ := env.firing_follows (args :: outer) direction speed a
        (.mk node args (.fire direction speed) children) counted
      exact ⟨_, .fired follows, TaskState.remembers_nil.2 ⟨_, rfl, counted⟩⟩
  | cons i path ih =>
    obtain ⟨child, found, deeper⟩ := Option.bind_eq_some_iff.1 there
    rw [Plan.framesAt?, found] at inScope
    cases cell with
    | @mk node args work children finished progress below =>
      have remember := TaskState.remembers_cons.1 remembers
      have all : ∀ fs (below : Cells F children) a, below.Remember i path fs → ∃ fs',
          (env.fireLogAll (args :: outer) 0 children below a).Numbers
            (fun f => f.Follows q frames direction speed) (.mk node args work children)
            (i :: path) fs fs' ∧
          ((env.runAll (args :: outer) children below true).run a).1.2.Remember i path fs' := by
        intro fs below a remember
        have numbers := env.fireLogAll_numbers (args :: outer) (ih deeper inScope)
          ((Nat.zero_add i).symm ▸ found) found remember true a
        rwa [Nat.zero_add] at numbers
      cases work with
      | sequence | again =>
        obtain ⟨fs', numbers, remember⟩ := all fs below a remember
        exact ⟨fs', numbers, TaskState.remembers_cons.2 remember⟩
      | action bound =>
        obtain ⟨fs', numbers, remember⟩ := env.logPasses_numbers found (args :: outer) all
          (bound - Int.ofNat progress).toNat progress remember a
        exact ⟨fs', numbers, TaskState.remembers_cons.2 remember⟩
      | fire =>
        -- below a fire nothing is done
        exact ⟨fs, .fired_other (by simp) fs, TaskState.remembers_cons.2 remember⟩
      | _ => exact ⟨fs, .nil fs, TaskState.remembers_cons.2 remember⟩

end Env

/-! ## Histories -/

namespace Bullet

def fireLog (h : Host F σ) (b : Bullet F) (s : Stage σ) : FireLog F :=
  (b.env h).fireLog b.scope b.plan b.cell { toStage := s, entity := b.entity }

/-- What can become of a bullet, and the log meanwhile: it goes through ticks, each in a world of
its own, and hosts change its entity. -/
inductive Fires : Bullet F → FireLog F → Bullet F → Prop where
  | refl (b : Bullet F) : Fires b [] b
  | step {b b' : Bullet F} {log : FireLog F} {σ : Type} (before : Fires b log b') (h : Host F σ)
      (s : Stage σ) : Fires b (log ++ b'.fireLog h s) ((b'.step h).run s).1.2
  | write {b b' : Bullet F} {log : FireLog F} (before : Fires b log b') (entity : Entity F) :
      Fires b log { b' with entity }

namespace Fires

variable {b b' : Bullet F} {log : FireLog F}

theorem goes (fires : b.Fires log b') : ∃ trace, b.Goes trace b' := by
  induction fires with
  | refl => exact ⟨[], .refl _⟩
  | step before h s ih =>
    obtain ⟨trace, goes⟩ := ih
    exact ⟨_, goes.step h s⟩
  | write before entity ih =>
    obtain ⟨trace, goes⟩ := ih
    exact ⟨trace, goes.write entity⟩

theorem plan_and_scope_eq (fires : b.Fires log b') : b'.plan = b.plan ∧ b'.scope = b.scope := by
  obtain ⟨trace, goes⟩ := fires.goes
  obtain ⟨cell, entity, rfl⟩ := goes.eq_with
  exact ⟨rfl, rfl⟩

theorem numbers (fires : b.Fires log b') {path : TaskPath} {q : Plan F} {frames : Frames F}
    {direction speed : ShotRule} (there : b.plan.at? path = some q)
    (inScope : b.plan.framesAt? b.scope path = some frames)
    (fire : q.work = .fire direction speed) (start : TaskState.Remembers path [] ⟨b.cell⟩) :
    ∃ fs, log.Numbers (fun f => f.Follows q frames direction speed) b.plan path [] fs ∧
      TaskState.Remembers path fs ⟨b'.cell⟩ := by
  induction fires with
  | refl => exact ⟨[], .nil [], start⟩
  | @step b' log σ before h s ih =>
    obtain ⟨fs, numbers, remembers⟩ := ih
    obtain ⟨plan, scope⟩ := before.plan_and_scope_eq
    rw [← plan] at there numbers ⊢
    rw [← plan, ← scope] at inScope
    obtain ⟨fs', numbers', remembers⟩ := (b'.env h).fireLog_numbers fire there inScope b'.cell
      { toStage := s, entity := b'.entity } remembers
    exact ⟨fs', numbers.append numbers', remembers⟩
  | write before entity ih => exact ih

end Fires

end Bullet

/-! ## A small fan

An action is repeated twice, and in it another action is repeated twice, which fires. The fire adds
to the speed of the shot before, and its bullet says what the first speed is. -/

namespace Sample

def fanTree : Tree :=
  Tree.empty
    |>.push { kind := .action } none
    |>.push { kind := .repeat } (some 0)
    |>.push { kind := .times, expression := constant 2 } (some 1)
    |>.push { kind := .action } (some 1)
    |>.push { kind := .repeat } (some 3)
    |>.push { kind := .times, expression := constant 2 } (some 4)
    |>.push { kind := .action } (some 4)
    |>.push { kind := .fire } (some 6)
    |>.push { kind := .speed, policy := .sequence, expression := constant 5 } (some 7)
    |>.push { kind := .bullet } (some 7)
    |>.push { kind := .speed, policy := .absolute, expression := constant 10 } (some 9)

def fanPattern : Pattern :=
  { tree := fanTree, links := ((Links.blank 11).setRepeat 3 1).setRepeat 6 4 }

def fanFire : Plan Int :=
  .mk 7 [] (.fire {} (fanTree.shotRule .speed 7 (some 9))) [.mk 9 [] .sequence []]

def fanPlan : Plan Int :=
  .mk 0 [] .sequence
    [.mk 1 [] .again [.mk 3 [] (.action 2)
      [.mk 4 [] .again [.mk 6 [] (.action 2) [fanFire]]]]]

def fan : Bullet Int where
  entity := entity.named (fanTree.patternName? 0)
  pattern := fanPattern
  node := 0
  plan := fanPlan
  cell := ((fanPlan.start host []).run { toStage := stage, entity }).1
  scope? := none
  emitter := 0

theorem build_fan : (Plan.build host fanPattern [] 0).run stage = (.ok fanPlan, stage) := by
  have fire : ∀ outer, Assembly.node fanPattern host 0 outer 7 = (do
      let made ← Assembly.fire fanPattern host outer [] 7
      pure [made]) := by
    intro outer
    rw [Assembly.node]
    rfl
  have times : ∀ outer i, i = 2 ∨ i = 5 → Assembly.node fanPattern host 0 outer i = pure [] := by
    rintro outer i (rfl | rfl) <;> rw [Assembly.node] <;> rfl
  have action : ∀ outer i, i = 3 ∨ i = 6 → Assembly.node fanPattern host 0 outer i = (do
      let bound ← Assembly.passes fanPattern host outer i
      Assembly.claim
      let below ← [i + 1].mapM (Assembly.node fanPattern host 0 ([] :: outer))
      pure [.mk i [] (.action bound) below.flatten]) := by
    rintro outer i (rfl | rfl) <;> rw [Assembly.node] <;> rfl
  have around : ∀ outer i, i = 1 ∨ i = 4 → Assembly.node fanPattern host 0 outer i = (do
      Assembly.claim
      let below ← [i + 1, i + 2].mapM (Assembly.node fanPattern host 0 ([] :: outer))
      pure [.mk i [] .again below.flatten]) := by
    rintro outer i (rfl | rfl) <;> rw [Assembly.node] <;> rfl
  have children : fanPattern.tree.children 0 = [1] := rfl
  simp only [Plan.build, Assembly.root, children, List.mapM_cons, List.mapM_nil,
    around _ 1 (.inl rfl), around _ 4 (.inr rfl), times _ 2 (.inl rfl), times _ 5 (.inr rfl),
    action _ 3 (.inl rfl), action _ 6 (.inr rfl), fire]
  rfl

theorem bound_fan : fan.Bound := by
  refine ⟨Unit, host, entity, fanPattern, 0, none, 0, stage, stage, ?_⟩
  rw [Bullet.bind, run_bind_eq]
  simp only [Option.getD, build_fan]
  rfl

end Sample

namespace Bullet

/-- Number the shots of a fire from the last time on that it was reset. Whatever hosts do, the fire
has counted just these shots, refused ones as well, and each of them has the direction and the speed
that the laws give for the values of the fire and its bullet. The count has 32 bits: a shot follows
the one before it unless the number of shots before it is a multiple of `2 ^ 32`. -/
theorem shots_follow {b₀ b : Bullet F} {log : FireLog F} (bound : b₀.Bound) (fires : b₀.Fires log b)
    {path : TaskPath} {q : Plan F} {direction speed : ShotRule}
    (there : b₀.plan.at? path = some q) (fire : q.work = .fire direction speed) :
    q.Loaded b₀.pattern ∧
    (∃ t shots, b.cell.at? path = some t ∧ t.cell.shots? = some shots ∧
      shots.count = (log.since b₀.plan path []).length) ∧
    ∃ frames, b₀.plan.framesAt? b₀.scope path = some frames ∧
      ∀ earlier f later, log = earlier ++ .fired path f :: later →
        f.Follows q frames direction speed
          (Firing.previous? (FireLog.since b₀.plan path earlier [])) := by
  obtain ⟨⟨_, _, _, _, built⟩, _, h, a, started⟩ := bound.built_and_started
  obtain ⟨frames, inScope⟩ := b₀.plan.exists_framesAt? b₀.scope there
  have start : TaskState.Remembers path [] ⟨b₀.cell⟩ :=
    started ▸ b₀.plan.start_remembers h b₀.scope there fire a
  obtain ⟨fs, ⟨obeys, rfl⟩, t, shots, found, own, counted, -⟩ :=
    fires.numbers there inScope fire start
  have loaded := Plan.loaded_of_build built _ _ _ (b₀.plan.holds_of_at? there inScope)
  exact ⟨loaded (by rw [fire]; rfl), ⟨t, shots, found, own, counted⟩, frames, inScope, obeys⟩

open scoped Sample in
/-- The third shot is the first one after the outer pass, which resets the fire. -/
theorem shots_follow_fan :
    Sample.fan.Bound ∧ Sample.fan.plan.at? [0, 0, 0, 0, 0] = some Sample.fanFire ∧
    ∃ direction speed earlier f later frames, Sample.fanFire.work = .fire direction speed ∧
      Sample.fan.Fires (earlier ++ .fired [0, 0, 0, 0, 0] f :: later)
        ((Sample.fan.step Sample.host).run Sample.stage).1.2 ∧
      earlier.map FireEvent.path = [[0, 0, 0, 0, 0], [0, 0, 0, 0], [0, 0, 0, 0, 0], [0, 0, 0, 0],
        [0, 0]] ∧
      f.Follows Sample.fanFire frames direction speed none := by
  have there : Sample.fan.plan.at? [0, 0, 0, 0, 0] = some Sample.fanFire := rfl
  have fires : Sample.fan.Fires (Sample.fan.fireLog Sample.host Sample.stage)
      ((Sample.fan.step Sample.host).run Sample.stage).1.2 :=
    .step (.refl _) Sample.host Sample.stage
  obtain ⟨-, -, frames, -, follows⟩ := shots_follow Sample.bound_fan fires there rfl
  have shot : (Sample.fan.fireLog Sample.host Sample.stage)[5]?.any
      (FireEvent.isFired [0, 0, 0, 0, 0]) = true := by decide +kernel
  have paths : ((Sample.fan.fireLog Sample.host Sample.stage).take 5).map FireEvent.path =
      [[0, 0, 0, 0, 0], [0, 0, 0, 0], [0, 0, 0, 0, 0], [0, 0, 0, 0], [0, 0]] := by decide +kernel
  have anew : (FireLog.since Sample.fan.plan [0, 0, 0, 0, 0]
      ((Sample.fan.fireLog Sample.host Sample.stage).take 5) []).length = 0 := by decide +kernel
  generalize Sample.fan.fireLog Sample.host Sample.stage = log at *
  obtain ⟨e, fifth, isFired⟩ := (Option.any_eq_true _ _).1 shot
  obtain ⟨f, rfl⟩ := FireEvent.isFired_iff.1 isFired
  have split : log = log.take 5 ++ .fired [0, 0, 0, 0, 0] f :: log.drop 6 := by
    obtain ⟨lt, same⟩ := List.getElem?_eq_some_iff.1 fifth
    rw [← same, List.getElem_cons_drop, List.take_append_drop]
  refine ⟨Sample.bound_fan, there, _, _, log.take 5, f, log.drop 6, frames, rfl, split ▸ fires,
    paths, ?_⟩
  have first := follows _ f _ split
  rwa [Firing.previous?_of_lt (anew.trans_lt (by decide)), List.length_eq_zero_iff.1 anew]
    at first

end Bullet

end Barrage
