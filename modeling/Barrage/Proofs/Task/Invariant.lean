import Barrage.Proofs.Computation
import Barrage.Proofs.Task.State

/-!
What all tasks keep. A property of how far tasks are, and one of the entity with its world, hold
throughout a tick if they hold before it and are kept by the parts of a tick: by every tick of a
task that does not do the tasks below it, and whenever tasks are started again.
-/

set_option autoImplicit false

namespace Barrage

variable {F σ : Type}

/-! ## Computations that keep a property -/

/-- A property of the actor is kept, and what comes of the computation has another. -/
def Safe {α : Type} (I : Actor F σ → Prop) (x : Acting F σ α) (Q : α → Prop) : Prop :=
  ∀ a, I a → Q (x.run a).1 ∧ I (x.run a).2

namespace Safe

variable {α β : Type} {I : Actor F σ → Prop} {Q : α → Prop} {R : β → Prop} {x : Acting F σ α}
  {f : α → Acting F σ β}

theorem pure {a : α} (holds : Q a) : Safe I (pure a) Q := fun _ keeps => ⟨holds, keeps⟩

theorem bind (first : Safe I x Q) (next : ∀ r, Q r → Safe I (f r) R) : Safe I (x >>= f) R :=
  fun a keeps =>
    let ⟨holds, keeps⟩ := first a keeps
    next _ holds _ keeps

theorem passesOver {S : Type} {P : S → Prop} {body : S → Acting F σ (Status × S)}
    {again : S → Acting F σ S} (once : ∀ s, P s → Safe I (body s) fun r => P r.2)
    (restart : ∀ s, P s → Safe I (again s) P) (left passed : Nat) {s : S} (holds : P s) :
    Safe I (passesOver body again left passed s) fun r => P r.2.2 := by
  induction left generalizing passed s with
  | zero => exact .pure holds
  | succ left ih =>
    refine (once s holds).bind fun ⟨status, s⟩ holds => ?_
    cases status with
    | running | waiting => exact .pure holds
    | done => exact (restart s holds).bind fun s holds => ih (passed + 1) holds

end Safe

/-! ## Properties of how far tasks are -/

section

variable (P : (w : Work) → w.Progress F → Prop)

mutual

def Cell.All : {p : Plan F} → Cell F p → Prop
  | .mk _ _ work _, .mk _ progress below => P work progress ∧ below.All

def Cells.All : {ps : List (Plan F)} → Cells F ps → Prop
  | [], .nil => True
  | _ :: _, .cons head tail => head.All ∧ tail.All

end

end

variable {P : (w : Work) → w.Progress F → Prop}

theorem Cells.All.get? {ps : List (Plan F)} {below : Cells F ps} (all : below.All P) {i : Nat}
    {t : TaskState F} (member : below.get? i = some t) : t.cell.All P := by
  induction ps generalizing i with
  | nil =>
    cases below
    cases member
  | cons p ps ih =>
    cases below with
    | cons head tail =>
      obtain ⟨headAll, others⟩ := all
      cases i with
      | zero =>
        cases member
        exact headAll
      | succ i => exact ih others member

theorem Cell.All.at? {path : TaskPath} {p : Plan F} {cell : Cell F p} (all : cell.All P)
    {t : TaskState F} (there : cell.at? path = some t) : t.cell.All P := by
  induction path generalizing p with
  | nil =>
    cases there
    exact all
  | cons i path ih =>
    cases cell with
    | mk finished progress below =>
      obtain ⟨child, member, deeper⟩ := Option.bind_eq_some_iff.1 there
      exact ih (all.2.get? member) deeper

/-! ## Starting -/

variable [Scalar F]

/-- Tasks have a property when they are prepared, and keep it when they are prepared again. -/
structure Host.Prepares (h : Host F σ) (I : Actor F σ → Prop)
    (P : (w : Work) → w.Progress F → Prop) : Prop where
  fresh : ∀ frames w, Safe I (w.prepare h frames) (P w)
  reset : ∀ frames w progress, P w progress → Safe I (w.prepareReset h frames progress) (P w)
  again : ∀ frames w progress, P w progress → Safe I (w.prepareAgain h frames progress) (P w)

namespace Host.Prepares

variable {h : Host F σ} {I : Actor F σ → Prop}

mutual

theorem start (prepares : h.Prepares I P) (outer : Frames F) : (p : Plan F) →
    Safe I (p.start h outer) (Cell.All P)
  | .mk node args work children => by
    rw [Plan.start]
    refine (startAll prepares (args :: outer) children).bind fun below all => ?_
    exact (prepares.fresh _ work).bind fun progress own => .pure ⟨own, all⟩

theorem startAll (prepares : h.Prepares I P) (outer : Frames F) : (ps : List (Plan F)) →
    Safe I (Plan.startAll h outer ps) (Cells.All P)
  | [] => .pure trivial
  | p :: ps => by
    rw [Plan.startAll]
    refine (start prepares outer p).bind fun head all => ?_
    exact (startAll prepares outer ps).bind fun tail others => .pure ⟨all, others⟩

end

mutual

theorem resets (prepares : h.Prepares I P) (outer : Frames F) : (p : Plan F) →
    (cell : Cell F p) → cell.All P → Safe I (p.reset h outer cell) (Cell.All P)
  | .mk node args work children, .mk finished progress below, all => by
    rw [Plan.reset]
    refine (resetsAll prepares (args :: outer) children below all.2).bind fun below allBelow => ?_
    exact (prepares.reset _ work progress all.1).bind fun progress own => .pure ⟨own, allBelow⟩

theorem resetsAll (prepares : h.Prepares I P) (outer : Frames F) : (ps : List (Plan F)) →
    (below : Cells F ps) → below.All P → Safe I (Plan.resetAll h outer ps below) (Cells.All P)
  | [], .nil, _ => .pure trivial
  | p :: ps, .cons head tail, all => by
    rw [Plan.resetAll]
    refine (resets prepares outer p head all.1).bind fun head own => ?_
    exact (resetsAll prepares outer ps tail all.2).bind fun tail others => .pure ⟨own, others⟩

end

mutual

theorem restart (prepares : h.Prepares I P) (outer : Frames F) : (p : Plan F) →
    (cell : Cell F p) → cell.All P → Safe I (p.restart h outer cell) (Cell.All P)
  | .mk node args work children, .mk finished progress below, all => by
    by_cases again : work = .again
    · subst again
      exact resets prepares outer _ _ all
    · rw [Plan.restart_eq h outer again]
      refine (restartAll prepares (args :: outer) children below all.2).bind
        fun below allBelow => ?_
      exact (prepares.again _ work progress all.1).bind fun progress own => .pure ⟨own, allBelow⟩

theorem restartAll (prepares : h.Prepares I P) (outer : Frames F) : (ps : List (Plan F)) →
    (below : Cells F ps) → below.All P → Safe I (Plan.restartAll h outer ps below) (Cells.All P)
  | [], .nil, _ => .pure trivial
  | p :: ps, .cons head tail, all => by
    rw [Plan.restartAll]
    refine (restart prepares outer p head all.1).bind fun head own => ?_
    exact (restartAll prepares outer ps tail all.2).bind fun tail others => .pure ⟨own, others⟩

end

end Host.Prepares

/-! ## Ticks -/

/-- A task does not do the tasks below it. -/
def Work.isSimple : Work → Bool
  | .sequence | .again | .action _ => false
  | _ => true

/-- Both properties are kept when tasks are prepared and by every tick of a simple task, and actions
may have any number of passes. -/
structure Env.Keeps (env : Env F σ) (I : Actor F σ → Prop)
    (P : (w : Work) → w.Progress F → Prop) : Prop where
  prepares : env.host.Prepares I P
  passes : ∀ bound (passed : Nat), P (.action bound) passed
  ticks : ∀ outer (q : Plan F) (cell : Cell F q), q.work.isSimple = true → cell.All P →
    Safe I (env.run outer q cell) fun r => r.2.All P

namespace Env.Keeps

variable {env : Env F σ} {I : Actor F σ → Prop}

mutual

theorem run (keeps : env.Keeps I P) (outer : Frames F) : (p : Plan F) → (cell : Cell F p) →
    cell.All P → Safe I (env.run outer p cell) fun r => r.2.All P
  | .mk node args work children, .mk finished progress below, all => by
    obtain ⟨own, others⟩ := id all
    have once : ∀ below, below.All P →
        Safe I (env.runAll (args :: outer) children below true) fun r => r.2.All P :=
      runAll keeps (args :: outer) children true
    cases work with
    | sequence | again =>
      rw [Env.run]
      exact (once below others).bind fun r others => .pure ⟨own, others⟩
    | action bound =>
      rw [Env.run]
      exact (Safe.passesOver once (keeps.prepares.restartAll (args :: outer) children) _ _
        others).bind fun r others => .pure ⟨keeps.passes bound r.2.1, others⟩
    | _ => exact keeps.ticks outer _ _ rfl all

theorem runAll (keeps : env.Keeps I P) (outer : Frames F) : (ps : List (Plan F)) →
    (clear : Bool) → (below : Cells F ps) → below.All P →
    Safe I (env.runAll outer ps below clear) fun r => r.2.All P
  | [], clear, .nil, _ => .pure trivial
  | p :: ps, clear, .cons head tail, all => by
    obtain ⟨headAll, others⟩ := all
    rw [Env.runAll]
    split
    · exact (runAll keeps outer ps clear tail others).bind fun r others => .pure ⟨headAll, others⟩
    · refine (run keeps outer p head headAll).bind fun ⟨status, head⟩ headAll => ?_
      cases status with
      | waiting => exact .pure ⟨headAll, others⟩
      | running | done =>
        exact (runAll keeps outer ps _ tail others).bind fun r others => .pure ⟨headAll, others⟩

end

end Env.Keeps

end Barrage
