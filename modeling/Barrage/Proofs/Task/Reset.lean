import Barrage.Proofs.Coupled
import Barrage.Proofs.Host.Ticks
import Barrage.Proofs.Task.ShotLaw

/-!
Resetting. A reset leaves one thing behind: fires still remember their last shots. That cannot be
seen, since a fire looks at its last shot only if it has one to count. So whatever is done with a
task after a reset comes to what it comes to for a task that was started afresh.
-/

set_option autoImplicit false

namespace Barrage

variable {F σ : Type}

/-! ## States that are alike -/

/-- Shots that a fire cannot tell apart: the last one only matters if any are counted. -/
def Shots.Alike (shots shots' : Shots F) : Prop :=
  shots = shots' ∨ shots.count = 0 ∧ shots'.count = 0

def Work.Alike : (w : Work) → w.Progress F → w.Progress F → Prop
  | .fire .., shots, shots' => Shots.Alike shots shots'
  | _, progress, progress' => progress = progress'

mutual

/-- States of a task that differ at most in last shots that are not counted. -/
inductive Cell.Alike : {p : Plan F} → Cell F p → Cell F p → Prop where
  | mk {node : NodeId} {args : List F} {work : Work} {children : List (Plan F)} {finished : Bool}
      {progress progress' : work.Progress F} {below below' : Cells F children}
      (own : work.Alike progress progress') (others : Cells.Alike below below') :
      Cell.Alike (.mk finished progress below : Cell F (.mk node args work children))
        (.mk finished progress' below')

inductive Cells.Alike : {ps : List (Plan F)} → Cells F ps → Cells F ps → Prop where
  | nil : Cells.Alike .nil .nil
  | cons {p : Plan F} {ps : List (Plan F)} {head head' : Cell F p} {tail tail' : Cells F ps}
      (heads : Cell.Alike head head') (rest : Cells.Alike tail tail') :
      Cells.Alike (.cons head tail) (.cons head' tail')

end

theorem Cell.Alike.finished {p : Plan F} {cell cell' : Cell F p} (alike : cell.Alike cell') :
    cell.finished = cell'.finished := by
  cases alike
  rfl

theorem Work.Alike.shotCount {w : Work} {progress progress' : w.Progress F}
    (alike : w.Alike progress progress') : w.shotCount progress = w.shotCount progress' := by
  cases w with
  | fire =>
    rcases alike with rfl | ⟨zero, zero'⟩
    · rfl
    · exact congrArg UInt32.toNat (zero.trans zero'.symm)
  | _ => rfl

mutual

theorem Cell.Alike.rows {p : Plan F} {cell cell' : Cell F p} (alike : cell.Alike cell')
    (index : Nat) (owner? : Option Nat) (outer : Frames F) :
    TaskRow.ofCell index owner? outer p cell = TaskRow.ofCell index owner? outer p cell' := by
  match alike with
  | .mk own others =>
    rw [TaskRow.ofCell, TaskRow.ofCell, own.shotCount, others.rows]
termination_by structural alike

theorem Cells.Alike.rows {ps : List (Plan F)} {below below' : Cells F ps}
    (alike : below.Alike below') (index : Nat) (owner? : Option Nat) (outer : Frames F) :
    TaskRow.ofCells index owner? outer ps below = TaskRow.ofCells index owner? outer ps below' := by
  match alike with
  | .nil => rfl
  | .cons heads rest => rw [TaskRow.ofCells, TaskRow.ofCells, heads.rows, rest.rows]
termination_by structural alike

end

/-! ## Computations that do the same -/

/-- Two computations do the same to an entity, its world and the journal, and come to results that
are related. -/
def Same {α β : Type} (R : α → β → Prop) (x : Acting F σ α) (x' : Acting F σ β) : Prop :=
  Coupled Eq x x' fun r r' a a' => R r r' ∧ a = a'

namespace Same

variable {α α' β β' : Type} {R : α → α' → Prop} {Q : β → β' → Prop}

theorem refl (x : Acting F σ α) {R : α → α → Prop} (holds : ∀ r, R r r) : Same R x x := by
  rintro a _ rfl
  exact ⟨holds _, rfl⟩

theorem pure {r : α} {r' : α'} (holds : R r r') :
    Same R (pure r : Acting F σ α) (pure r' : Acting F σ α') :=
  Coupled.pure fun _ _ same => ⟨holds, same⟩

theorem bind {x : Acting F σ α} {x' : Acting F σ α'} {f : α → Acting F σ β}
    {f' : α' → Acting F σ β'} (first : Same R x x') (next : ∀ r r', R r r' → Same Q (f r) (f' r')) :
    Same Q (x >>= f) (x' >>= f') := by
  refine Coupled.bind first ?_
  rintro r r' a _ ⟨holds, rfl⟩
  exact next r r' holds a a rfl

end Same

def Outcome.Alike {S : Type} (R : S → S → Prop) (r r' : Status × S) : Prop :=
  r.1 = r'.1 ∧ R r.2 r'.2

theorem same_passesOver {S : Type} {R : S → S → Prop} {body : S → Acting F σ (Status × S)}
    {again : S → Acting F σ S}
    (once : ∀ s s', R s s' → Same (Outcome.Alike R) (body s) (body s'))
    (restart : ∀ s s', R s s' → Same R (again s) (again s')) (left passed : Nat) {s s' : S}
    (alike : R s s') : Same (Outcome.Alike fun r r' => r.1 = r'.1 ∧ R r.2 r'.2)
      (passesOver body again left passed s) (passesOver body again left passed s') := by
  induction left generalizing passed s s' with
  | zero => exact .pure ⟨rfl, rfl, alike⟩
  | succ left ih =>
    refine (once s s' alike).bind ?_
    rintro ⟨status, s⟩ ⟨_, s'⟩ ⟨rfl, alike⟩
    cases status with
    | running | waiting => exact .pure ⟨rfl, rfl, alike⟩
    | done => exact (restart s s' alike).bind fun _ _ alike => ih (passed + 1) alike

/-! ## Shots -/

variable [Scalar F]

namespace Env

variable (env : Env F σ)

/-- The direction of a shot that is the first one to count does not depend on an earlier one. -/
theorem shotDirection_of_uncounted (frames : Frames F) (bullet? : Option (Ammunition F))
    (rule : ShotRule) {shots shots' : Shots F} (zero : shots.count = 0) (zero' : shots'.count = 0) :
    env.shotDirection frames bullet? rule shots = env.shotDirection frames bullet? rule shots' := by
  simp only [shotDirection, Shots.nextValue?_first rule (.inl zero),
    Shots.nextValue?_first rule (.inl zero')]
  cases rule.first? <;> rfl

theorem shotSpeed_of_uncounted (frames : Frames F) (bullet? : Option (Ammunition F))
    (rule : ShotRule) {shots shots' : Shots F} (zero : shots.count = 0) (zero' : shots'.count = 0) :
    env.shotSpeed frames bullet? rule shots = env.shotSpeed frames bullet? rule shots' := by
  simp only [shotSpeed, Shots.nextValue?_first rule (.inl zero),
    Shots.nextValue?_first rule (.inl zero')]
  cases rule.first? <;> rfl

theorem shoot_of_alike (node : NodeId) (frames : Frames F) (holders : List (Plan F))
    (direction speed : ShotRule) {shots shots' : Shots F} (alike : shots.Alike shots') :
    env.shoot node frames holders direction speed shots
      = env.shoot node frames holders direction speed shots' := by
  rcases alike with rfl | ⟨zero, zero'⟩
  · rfl
  · simp only [shoot, env.shotDirection_of_uncounted frames _ direction zero zero',
      env.shotSpeed_of_uncounted frames _ speed zero zero', zero, zero']

end Env

/-! ## Starting -/

variable (h : Host F σ)

theorem Work.same_prepareReset (frames : Frames F) (w : Work) (progress : w.Progress F) :
    Same w.Alike (w.prepareReset h frames progress) (w.prepare h frames) := by
  cases w with
  | fire => exact .pure (.inr ⟨rfl, rfl⟩)
  | _ => exact .refl _ fun _ => rfl

theorem Work.same_prepareReset_of_alike (frames : Frames F) (w : Work)
    {progress progress' : w.Progress F} (alike : w.Alike progress progress') :
    Same w.Alike (w.prepareReset h frames progress) (w.prepareReset h frames progress') := by
  cases w with
  | fire => exact .pure (.inr ⟨rfl, rfl⟩)
  | _ => exact .refl _ fun _ => rfl

theorem Work.same_prepareAgain (frames : Frames F) (w : Work) {progress progress' : w.Progress F}
    (alike : w.Alike progress progress') :
    Same w.Alike (w.prepareAgain h frames progress) (w.prepareAgain h frames progress') := by
  cases w with
  | fire => exact .pure alike
  | _ => exact .refl _ fun _ => rfl

mutual

theorem Plan.same_reset_start (outer : Frames F) : (p : Plan F) → (cell : Cell F p) →
    Same Cell.Alike (p.reset h outer cell) (p.start h outer)
  | .mk _ args work children, .mk _ progress below => by
    rw [Plan.reset, Plan.start]
    exact (Plan.same_resetAll_startAll (args :: outer) children below).bind fun _ _ others =>
      (work.same_prepareReset h _ progress).bind fun _ _ own => .pure (.mk own others)

theorem Plan.same_resetAll_startAll (outer : Frames F) : (ps : List (Plan F)) →
    (below : Cells F ps) →
    Same Cells.Alike (Plan.resetAll h outer ps below) (Plan.startAll h outer ps)
  | [], .nil => by
    rw [Plan.resetAll, Plan.startAll]
    exact .pure .nil
  | p :: ps, .cons head tail => by
    rw [Plan.resetAll, Plan.startAll]
    exact (Plan.same_reset_start outer p head).bind fun _ _ heads =>
      (Plan.same_resetAll_startAll outer ps tail).bind fun _ _ rest => .pure (.cons heads rest)

end

mutual

theorem Plan.same_reset (outer : Frames F) : (p : Plan F) → {cell cell' : Cell F p} →
    cell.Alike cell' → Same Cell.Alike (p.reset h outer cell) (p.reset h outer cell')
  | .mk _ args work children, _, _, .mk own others => by
    rw [Plan.reset, Plan.reset]
    exact (Plan.same_resetAll (args :: outer) children others).bind fun _ _ others =>
      (work.same_prepareReset_of_alike h _ own).bind fun _ _ own => .pure (.mk own others)

theorem Plan.same_resetAll (outer : Frames F) : (ps : List (Plan F)) → {below below' : Cells F ps} →
    below.Alike below' →
    Same Cells.Alike (Plan.resetAll h outer ps below) (Plan.resetAll h outer ps below')
  | [], _, _, .nil => by
    rw [Plan.resetAll]
    exact .pure .nil
  | p :: ps, _, _, .cons heads rest => by
    rw [Plan.resetAll, Plan.resetAll]
    exact (Plan.same_reset outer p heads).bind fun _ _ heads =>
      (Plan.same_resetAll outer ps rest).bind fun _ _ rest => .pure (.cons heads rest)

end

mutual

theorem Plan.same_restart (outer : Frames F) : (p : Plan F) → {cell cell' : Cell F p} →
    cell.Alike cell' → Same Cell.Alike (p.restart h outer cell) (p.restart h outer cell')
  | .mk node args work children, _, _, .mk own others => by
    by_cases again : work = .again
    · subst again
      exact Plan.same_reset h outer (.mk node args .again children) (.mk own others)
    · rw [Plan.restart_eq h outer again, Plan.restart_eq h outer again]
      exact (Plan.same_restartAll (args :: outer) children others).bind fun _ _ others =>
        (Work.same_prepareAgain h _ _ own).bind fun _ _ own => .pure (.mk own others)

theorem Plan.same_restartAll (outer : Frames F) : (ps : List (Plan F)) →
    {below below' : Cells F ps} → below.Alike below' →
    Same Cells.Alike (Plan.restartAll h outer ps below) (Plan.restartAll h outer ps below')
  | [], _, _, .nil => by
    rw [Plan.restartAll]
    exact .pure .nil
  | p :: ps, _, _, .cons heads rest => by
    rw [Plan.restartAll, Plan.restartAll]
    exact (Plan.same_restart outer p heads).bind fun _ _ heads =>
      (Plan.same_restartAll outer ps rest).bind fun _ _ rest => .pure (.cons heads rest)

end

/-! ## Ticks -/

namespace Env

variable (env : Env F σ)

mutual

theorem same_run (outer : Frames F) : (p : Plan F) → {cell cell' : Cell F p} →
    cell.Alike cell' →
    Same (Outcome.Alike Cell.Alike) (env.run outer p cell) (env.run outer p cell')
  | .mk _ args work children, _, _, .mk own others => by
    have all : ∀ below below' : Cells F children, below.Alike below' →
        Same (Outcome.Alike Cells.Alike) (env.runAll (args :: outer) children below true)
          (env.runAll (args :: outer) children below' true) :=
      fun _ _ others => same_runAll (args :: outer) children others true
    cases work with
    | sequence | again =>
      refine (all _ _ others).bind ?_
      rintro ⟨status, below⟩ ⟨_, below'⟩ ⟨rfl, others⟩
      exact .pure ⟨rfl, .mk own others⟩
    | action bound =>
      obtain rfl := own
      refine (same_passesOver all (fun _ _ others =>
        Plan.same_restartAll env.host (args :: outer) children others) _ _ others).bind ?_
      rintro ⟨status, passed, below⟩ ⟨_, _, below'⟩ ⟨rfl, rfl, others⟩
      exact .pure ⟨rfl, .mk rfl others⟩
    | fire direction speed =>
      rw [run, run, env.shoot_of_alike _ _ _ _ _ own]
      refine (Same.refl (R := Eq) _ fun _ => rfl).bind ?_
      rintro shots _ rfl
      exact .pure ⟨rfl, .mk (.inl rfl) others⟩
    | _ =>
      -- all other tasks have their progress in common and do not look below
      obtain rfl := own
      refine (Same.refl (R := Eq) _ fun _ => rfl).bind ?_
      rintro r _ rfl
      exact .pure ⟨rfl, .mk rfl others⟩

theorem same_runAll (outer : Frames F) : (ps : List (Plan F)) → {below below' : Cells F ps} →
    below.Alike below' → (clear : Bool) → Same (Outcome.Alike Cells.Alike)
      (env.runAll outer ps below clear) (env.runAll outer ps below' clear)
  | [], _, _, .nil, clear => .pure ⟨rfl, .nil⟩
  | p :: ps, .cons head tail, .cons head' tail', .cons heads rest, clear => by
    have others : ∀ {head head' : Cell F p} clear, head.Alike head' →
        Same (Outcome.Alike Cells.Alike)
          (env.runAll outer ps tail clear >>= fun r => pure (r.1, .cons head r.2))
          (env.runAll outer ps tail' clear >>= fun r => pure (r.1, .cons head' r.2)) :=
      fun clear heads => (same_runAll outer ps rest clear).bind fun _ _ ⟨same, rest⟩ =>
        .pure ⟨same, .cons heads rest⟩
    rw [runAll, runAll, heads.finished]
    split
    · exact others clear heads
    · refine (same_run outer p heads).bind ?_
      rintro ⟨status, head⟩ ⟨_, head'⟩ ⟨rfl, heads⟩
      cases status with
      | waiting => exact .pure ⟨rfl, .cons heads rest⟩
      | running | done => exact others _ heads

end

end Env

/-! ## Whatever is done later -/

/-- What can be done with a task: it has a tick, or a task above it starts it again or resets it. -/
inductive Handling where
  | tick
  | restart
  | reset

/-- Something is done with a task, in some world, with the entity as it is then. -/
structure Occasion (F : Type) : Type 1 where
  {σ : Type}
  env : Env F σ
  now : Actor F σ
  handling : Handling

namespace Occasion

/-- What comes of an occasion for a task: the status if it is a tick, the state of the task, and the
entity and its world. -/
def handle (o : Occasion F) (outer : Frames F) (p : Plan F) (cell : Cell F p) :
    (Option Status × Cell F p) × Actor F o.σ :=
  match o.handling with
  | .tick => let ((status, cell), a) := (o.env.run outer p cell).run o.now; ((some status, cell), a)
  | .restart => let (cell, a) := (p.restart o.env.host outer cell).run o.now; ((none, cell), a)
  | .reset => let (cell, a) := (p.reset o.env.host outer cell).run o.now; ((none, cell), a)

def calls (o : Occasion F) (outer : Frames F) (p : Plan F) (cell : Cell F p) : Calls F :=
  let noted : Occasion F :=
    { env := o.env.recorded, now := o.now.noting [], handling := o.handling }
  let after : Actor F (Recorded F o.σ) := (noted.handle outer p cell).2
  after.world.calls

def after (outer : Frames F) (p : Plan F) : List (Occasion F) → Cell F p → Cell F p
  | [], cell => cell
  | o :: later, cell => after outer p later (o.handle outer p cell).1.2

variable {p : Plan F} {cell cell' : Cell F p}

theorem handle_of_alike (o : Occasion F) (outer : Frames F) (alike : cell.Alike cell') :
    (o.handle outer p cell).1.1 = (o.handle outer p cell').1.1 ∧
      (o.handle outer p cell).1.2.Alike (o.handle outer p cell').1.2 ∧
      (o.handle outer p cell).2 = (o.handle outer p cell').2 := by
  obtain ⟨env, now, handling⟩ := o
  cases handling with
  | tick =>
    obtain ⟨⟨same, alike⟩, kept⟩ := env.same_run outer p alike now now rfl
    exact ⟨congrArg some same, alike, kept⟩
  | restart => exact ⟨rfl, Plan.same_restart env.host outer p alike now now rfl⟩
  | reset => exact ⟨rfl, Plan.same_reset env.host outer p alike now now rfl⟩

theorem calls_of_alike (o : Occasion F) (outer : Frames F) (alike : cell.Alike cell') :
    o.calls outer p cell = o.calls outer p cell' := by
  unfold calls
  simp only [(handle_of_alike _ outer alike).2.2]

theorem after_of_alike (past : List (Occasion F)) (outer : Frames F) (alike : cell.Alike cell') :
    (after outer p past cell).Alike (after outer p past cell') := by
  induction past generalizing cell cell' with
  | nil => exact alike
  | cons o later ih => exact ih (o.handle_of_alike outer alike).2.1

end Occasion

/-- Resetting a task, whatever its state is, does the same as starting it afresh, and nothing can
tell the two apart later. After any occasions they look the same, and on the next one the status is
the same, the host is asked the same, and the entity and the world become the same. -/
theorem Plan.reset_as_started (h : Host F σ) (outer : Frames F) (p : Plan F) (cell : Cell F p)
    (a : Actor F σ) :
    ((p.reset h outer cell).run a).2 = ((p.start h outer).run a).2 ∧
    ∀ past : List (Occasion F),
      let used := Occasion.after outer p past ((p.reset h outer cell).run a).1
      let fresh := Occasion.after outer p past ((p.start h outer).run a).1
      (∀ index owner?, TaskRow.ofCell index owner? outer p used
        = TaskRow.ofCell index owner? outer p fresh) ∧
      ∀ o : Occasion F, (o.handle outer p used).1.1 = (o.handle outer p fresh).1.1 ∧
        o.calls outer p used = o.calls outer p fresh ∧
        (o.handle outer p used).2 = (o.handle outer p fresh).2 := by
  obtain ⟨alike, same⟩ := Plan.same_reset_start h outer p cell a a rfl
  refine ⟨same, fun past => ?_⟩
  have later := Occasion.after_of_alike past outer alike
  refine ⟨fun index owner? => later.rows index owner? outer, fun o => ?_⟩
  obtain ⟨status, -, kept⟩ := o.handle_of_alike outer later
  exact ⟨status, o.calls_of_alike outer later, kept⟩

open scoped Sample in
/-- The last shot of a fire stays behind. -/
example : ((Plan.reset Sample.host [] (.mk 0 [] (.fire {} {}) []) (.mk true ⟨3, 7, 8⟩ .nil)).run
    { toStage := Sample.stage, entity := Sample.entity }).1 = .mk false ⟨0, 7, 8⟩ .nil := rfl

end Barrage
