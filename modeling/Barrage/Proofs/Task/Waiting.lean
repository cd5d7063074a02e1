import Barrage.Proofs.Task.Gliding
import Barrage.Proofs.Task.Marks

/-!
How long waits wait, in exact arithmetic. The duration is computed when the wait is prepared. Every
tick takes from it what the entity's durations pass by, and the wait is over with the tick that
takes more than is left. So a wait waits for as many ticks as fit into its duration, in every pass
of the actions above it.
-/

set_option autoImplicit false

namespace Barrage

open scoped Exact

inductive WaitNote (F : Type) where
  /-- The wait is prepared, and its duration is computed. -/
  | prepared (duration : F)
  /-- The wait has a tick: how fast durations pass, and how the tick ends. -/
  | ticked (timeScale : F) (status : Status)
  deriving DecidableEq, Repr

namespace WaitNote

variable {F : Type}

def mark : WaitNote F → Mark
  | prepared _ => .prepared
  | ticked _ status => .ticked status

def At (pace : F) : WaitNote F → Prop
  | prepared _ => False
  | ticked timeScale _ => timeScale = pace

end WaitNote

variable {F σ : Type} [Scalar F]

def Work.waitFor (h : Host F σ) (frames : Frames F) (w : Work) (a : Actor F σ) : F :=
  match w with
  | .wait e => ((Actor.evaluate h frames e).run a).1
  | _ => Scalar.zero

/-- How a tick of a wait ends, when so much is left of its duration. -/
def Status.ofLeft (left timeScale : F) : Status :=
  if Scalar.le Scalar.zero (left - timeScale) then .waiting else .done

theorem Status.ofLeft_ne_running (left timeScale : F) : ofLeft left timeScale ≠ .running := by
  rw [ofLeft]
  split <;> decide

theorem Env.run_tickWait (left : F) (a : Actor F σ) : (tickWait left).run a
    = ((.ofLeft left a.entity.timeScale, left - a.entity.timeScale), a) := by
  change ((if _ then _ else _ : Status × F), a) = _
  rw [Status.ofLeft]
  split <;> rfl

def Observer.waits : Observer F (WaitNote F) where
  prepared h frames w a := .prepared (w.waitFor h frames a)
  ticked env around q cell a :=
    .ticked a.entity.timeScale ((env.run around q cell).run a).1.1

theorem Observer.marks_waits : (Observer.waits (F := F)).Marks WaitNote.mark where
  prepared _ _ _ _ := rfl
  ticked _ _ _ _ _ := rfl

namespace WaitNote

/-- What is left of the duration after something has happened, unless the wait is over. -/
def next : Option F → WaitNote F → Option F
  | _, .prepared duration => some duration
  | some left, .ticked timeScale .waiting => some (left - timeScale)
  | _, .ticked .. => none

/-- A tick ends as what is left allows, and there is none when the wait is over. -/
def Fits : Option F → WaitNote F → Prop
  | _, .prepared _ => True
  | some left, .ticked timeScale status =>
    status = .ofLeft left timeScale
  | none, .ticked .. => False

def Counts : Option F → List (WaitNote F) → Option F → Prop
  | left?, [], left'? => left? = left'?
  | left?, note :: notes, left'? => note.Fits left? ∧ Counts (next left? note) notes left'?

theorem counts_append {notes notes' : List (WaitNote F)} {left? left'? : Option F} :
    Counts left? (notes ++ notes') left'? ↔
      ∃ between, Counts left? notes between ∧ Counts between notes' left'? := by
  induction notes generalizing left? with
  | nil => simp [Counts]
  | cons note notes ih => simp [Counts, ih, and_assoc]

theorem counts_singleton {note : WaitNote F} {left? left'? : Option F} :
    Counts left? [note] left'? ↔ note.Fits left? ∧ next left? note = left'? := Iff.rfl

theorem fits_tick (left : F) (a : Actor F σ) :
    let r := (Env.tickWait left).run a
    Fits (some left) (.ticked a.entity.timeScale r.1.1) ∧
      next (some left) (.ticked a.entity.timeScale r.1.1)
        = if r.1.1.isDone then none else some r.1.2 := by
  rw [Env.run_tickWait]
  refine ⟨rfl, ?_⟩
  cases ends : Status.ofLeft left a.entity.timeScale with
  | waiting | done => rfl
  | running => exact absurd ends (Status.ofLeft_ne_running left _)

end WaitNote

open WaitNote

theorem Observer.keeps_waits {node : NodeId} {args : List F} {e : Expression}
    {children : List (Plan F)} (around : Frames F) :
    Observer.waits.Keeps (.mk node args (.wait e) children) around
      fun notes cell => Counts none notes
        (if cell.finished then none else some (cell.progress : F)) where
  prepared h now notes cell before unfinished made := by
    have started : ∃ left?, Counts none notes left? := by
      rcases before with rfl | ⟨_, before⟩
      · exact ⟨none, rfl⟩
      · exact ⟨_, before⟩
    obtain ⟨left?, notes'⟩ := started
    refine counts_append.2 ⟨left?, notes', counts_singleton.2 ⟨trivial, ?_⟩⟩
    rw [unfinished, made]
    rfl
  ticked env now notes cell seen unfinished := by
    cases cell with
    | @mk _ _ _ _ finished left below =>
      obtain rfl : finished = false := unfinished
      exact counts_append.2 ⟨_, seen, counts_singleton.2 (fits_tick (F := F) left now)⟩

/-! ## Executions of a wait -/

def Mark.waits (n : ℕ) : List Mark := List.replicate n (.ticked .waiting) ++ [.ticked .done]

theorem Mark.eq_replicate_or_eq_waits {n : ℕ} {ticks : List Mark} (begun : ticks <+: waits n) :
    (∃ k, ticks = List.replicate k (.ticked .waiting)) ∨ ticks = waits n :=
  (List.prefix_concat_iff.1 begun).symm.imp_left fun waiting =>
    ⟨_, List.eq_replicate_of_mem fun _ member => List.eq_of_mem_replicate (waiting.subset member)⟩

theorem Mark.eq_waits {n : ℕ} {earlier ticks later : List Mark} (begun : ticks <+: waits n)
    (nonempty : ticks ≠ [])
    (chain : (earlier ++ .prepared :: (ticks ++ .prepared :: later)).IsChain Follows) :
    ticks = waits n := by
  refine (Mark.eq_replicate_or_eq_waits begun).resolve_left ?_
  rintro ⟨_ | k, rfl⟩
  · exact nonempty rfl
  rw [List.replicate_succ'] at chain
  have split : earlier ++ .prepared :: (List.replicate k (.ticked .waiting) ++
        [.ticked .waiting] ++ .prepared :: later) =
      (earlier ++ .prepared :: List.replicate k (.ticked .waiting)) ++
        .ticked .waiting :: .prepared :: later := by simp
  exact List.isChain_iff_forall_rel_of_append_cons_cons.1 chain split rfl

namespace WaitNote

variable [Exact.Geometry] {pace : ℚ}

theorem ofLeft_of_fits {left : ℚ} (runs : 0 < pace) (fits : 0 ≤ left - pace) :
    Status.ofLeft left pace = .waiting ∧ ⌊left / pace⌋₊ = ⌊(left - pace) / pace⌋₊ + 1 := by
  constructor
  · exact if_pos ((Exact.le_iff ..).2 fits)
  · have back : (left - pace) / pace + 1 = left / pace := by
      rw [sub_div, div_self runs.ne', sub_add_cancel]
    rw [← back, Nat.floor_add_one (div_nonneg fits runs.le)]

theorem ofLeft_of_spent {left : ℚ} (runs : 0 < pace) (spent : left - pace < 0) :
    Status.ofLeft left pace = .done ∧ ⌊left / pace⌋₊ = 0 := by
  constructor
  · exact if_neg fun fits => spent.not_ge ((Exact.le_iff ..).1 fits)
  · rw [Nat.floor_eq_zero, div_lt_one runs]
    linarith

theorem Counts.eq_nil {ticks later : List (WaitNote ℚ)} {left'? : Option ℚ}
    (counts : Counts none (ticks ++ later) left'?) (steady : ∀ note ∈ ticks, note.At pace) :
    ticks = [] := by
  cases ticks with
  | nil => rfl
  | cons note ticks =>
    cases note with
    | prepared duration => exact (steady _ List.mem_cons_self).elim
    | ticked timeScale status => exact counts.1.elim

theorem Counts.prefix_waits (runs : 0 < pace) {ticks later : List (WaitNote ℚ)} {left : ℚ}
    {left'? : Option ℚ} (counts : Counts (some left) (ticks ++ later) left'?)
    (steady : ∀ note ∈ ticks, note.At pace) :
    ticks.map mark <+: Mark.waits ⌊left / pace⌋₊ := by
  induction ticks generalizing left with
  | nil => exact List.nil_prefix
  | cons note ticks ih =>
    obtain ⟨same, others⟩ := List.forall_mem_cons.1 steady
    obtain ⟨fits, rest⟩ := counts
    cases note with
    | prepared duration => exact same.elim
    | ticked timeScale status =>
      obtain rfl : timeScale = pace := same
      obtain rfl : status = .ofLeft left timeScale := fits
      rcases le_or_gt 0 (left - timeScale) with fits | spent
      · obtain ⟨waiting, whole⟩ := ofLeft_of_fits runs fits
        rw [waiting] at rest ⊢
        rw [whole]
        exact List.cons_prefix_cons.2 ⟨rfl, ih rest others⟩
      · obtain ⟨done, noWaits⟩ := ofLeft_of_spent runs spent
        rw [done] at rest ⊢
        rw [noWaits, rest.eq_nil others]
        exact List.prefix_rfl

end WaitNote

/-! ## A wait in a repeat

An action waits for one tick, twice. -/

namespace Exact.Sample

open Barrage.Sample (constant pattern run_build)

def waitPlan : Plan ℚ := .mk 4 [] (.wait (constant 1)) []

def waitsPlan : Plan ℚ :=
  .mk 0 [] .sequence [.mk 1 [] .again [.mk 3 [] (.action 2) [waitPlan]], .mk 5 [] .vanish []]

def waits : Bullet ℚ where
  entity := entity.named (pattern.tree.patternName? 0)
  pattern := pattern
  node := 0
  plan := waitsPlan
  cell := ((waitsPlan.start host []).run { toStage := stage, entity }).1
  scope? := none
  emitter := 0

theorem build_waits : (Plan.build host pattern [] 0).run stage = (.ok waitsPlan, stage) := by
  have times : Scalar.floor (Scalar.ofDecimal (.ofNat 2) : ℚ) = 2 := by decide +kernel
  rw [run_build]
  change (Except.ok (Plan.mk 0 [] .sequence [.mk 1 [] .again [.mk 3 []
    (.action (Scalar.floor (Scalar.ofDecimal (.ofNat 2) : ℚ))) [waitPlan]], .mk 5 [] .vanish []]),
    stage) = _
  rw [times]
  rfl

theorem bind_waits : (Bullet.bind host entity pattern 0 none 0).run stage = (.ok waits, stage) := by
  rw [Bullet.bind, run_bind_eq]
  simp only [Option.getD, build_waits]
  rfl

def waitsLater : Bullet ℚ := ((waits.step host).run stage).1.2

/-- What happens to the wait while the bullet is bound and in its first two ticks. -/
theorem watched_waits : ((waitsLater.step host).run stage).1.2.Watched Observer.waits [0, 0, 0]
    [.prepared 1, .ticked 1 .waiting, .ticked 1 .done, .prepared 1, .ticked 1 .waiting] := by
  have bound : waits.Watched Observer.waits [0, 0, 0] _ := .bound bind_waits
  have notes : Observer.waits.bind host [0, 0, 0] entity pattern 0 none stage = [.prepared 1] := by
    rw [Observer.bind]
    simp only [Option.getD, build_waits]
    decide +kernel
  have tick : Observer.waits.tick (waits.env host) [0, 0, 0] waits.scope waits.plan waits.cell
      { toStage := stage, entity := waits.entity } = [.ticked 1 .waiting] := by
    decide +kernel
  have tick' : Observer.waits.tick (waitsLater.env host) [0, 0, 0] waitsLater.scope
      waitsLater.plan waitsLater.cell { toStage := stage, entity := waitsLater.entity } =
        [.ticked 1 .done, .prepared 1, .ticked 1 .waiting] := by
    decide +kernel
  rw [notes] at bound
  have once : waitsLater.Watched Observer.waits [0, 0, 0] [.prepared 1, .ticked 1 .waiting] := by
    have step := bound.step host stage
    rwa [tick] at step
  have twice := once.step host stage
  rw [tick'] at twice
  exact twice

end Exact.Sample

namespace Bullet

/-- Every execution of a wait, from its preparation on, at a steady pace: as many ticks wait as fit
into the duration, none if it is negative, and with the next one the wait is over. It is not
prepared again before, so in every pass it waits for the whole duration, which is computed anew. In
a tick in which it waits, nothing behind it is done. -/
theorem waits_full [Exact.Geometry] {b : Bullet ℚ} {path : TaskPath}
    {notes : List (WaitNote ℚ)} (watched : b.Watched .waits path notes) {q : Plan ℚ}
    {e : Expression} (there : b.plan.at? path = some q) (wait : q.work = .wait e) :
    b.pattern.tree.simpleWork? q.node = some (.wait e) ∧
    (∀ earlier duration ticks later pace,
      notes = earlier ++ .prepared duration :: (ticks ++ later) → 0 < pace →
      (∀ note ∈ ticks, note.At pace) →
        ticks.map mark <+: Mark.waits ⌊duration / pace⌋₊ ∧
        (.ticked .done ∈ ticks.map mark ∨ ticks ≠ [] ∧ (later.map mark).head? = some .prepared →
          ticks.map mark = Mark.waits ⌊duration / pace⌋₊)) ∧
    ∀ {σ : Type} (h : Host ℚ σ) (s : Stage σ),
      (Observer.waits.tick (b.env h) path b.scope b.plan b.cell
        { toStage := s, entity := b.entity }).map mark = Trace.marks path (b.stepTrace h s) ∧
      ∀ before finished after, b.stepTrace h s = before ++ .left path .waiting finished :: after →
        ((b.step h).run s).1.1 = .waiting ∧ after = closing path := by
  obtain ⟨frames, inScope⟩ := b.plan.exists_framesAt? b.scope there
  have timed : q.work.isTimed = true := by rw [wait]; rfl
  refine ⟨wait ▸ watched.made.simpleWork? (b.plan.holds_of_at? there inScope) timed, ?_, ?_⟩
  · obtain ⟨node, args, work, children⟩ := q
    obtain rfl : work = .wait e := wait
    obtain ⟨cell, -, counts⟩ := watched.shows there timed Observer.keeps_waits
    rintro earlier duration ticks later pace rfl runs steady
    obtain ⟨left?, -, counts⟩ := counts_append.1 counts
    have begun := counts.2.prefix_waits runs steady
    refine ⟨begun, ?_⟩
    rintro (ended | ⟨nonempty, again⟩)
    · refine (Mark.eq_replicate_or_eq_waits begun).resolve_left ?_
      rintro ⟨k, waiting⟩
      rw [waiting] at ended
      cases List.eq_of_mem_replicate ended
    -- otherwise the last of the ticks waits, and a wait that waits is not prepared again
    obtain ⟨later', again⟩ := List.head?_eq_some_iff.1 again
    obtain ⟨chain, -⟩ := watched.follows Observer.marks_waits ⟨_, e, there, rfl⟩
    rw [List.map_append, List.map_cons, List.map_append, again] at chain
    exact Mark.eq_waits begun (by simpa using nonempty) chain
  · intro σ h s
    refine ⟨marks_tick Observer.marks_waits h s there timed, fun before finished after split => ?_⟩
    obtain ⟨status, cell, entity, same, ran⟩ := step_ran h b s
    obtain ⟨waiting, closed, -⟩ :=
      ran.suspends path ⟨q, e, there, wait⟩ (.inr watched.work) before finished after split
    exact ⟨by rw [same, waiting], closed⟩

open scoped Exact.Sample in
/-- The wait of one tick waits once before it is over. -/
theorem waits_full_once :
    ((Exact.Sample.waitsLater.step Exact.Sample.host).run Exact.Sample.stage).1.2.Watched .waits
      [0, 0, 0] ([] ++ .prepared 1 :: ([.ticked 1 .waiting, .ticked 1 .done] ++
        [.prepared 1, .ticked 1 .waiting])) ∧
    [.ticked .waiting, .ticked .done] = Mark.waits ⌊(1 : ℚ) / 1⌋₊ := by
  obtain ⟨-, full, -⟩ := waits_full Exact.Sample.watched_waits (q := Exact.Sample.waitPlan) rfl rfl
  obtain ⟨-, ended⟩ := full [] 1 [.ticked 1 .waiting, .ticked 1 .done]
    [.prepared 1, .ticked 1 .waiting] 1 rfl one_pos (by simp [WaitNote.At])
  exact ⟨Exact.Sample.watched_waits, ended (.inl (by simp [WaitNote.mark]))⟩

end Bullet

end Barrage
