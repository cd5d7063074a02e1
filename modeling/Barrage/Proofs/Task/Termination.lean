import Barrage.Number.Single
import Barrage.Proofs.Task.Halting
import Barrage.Proofs.Task.History

/-!
Starting, resetting and running come to an end, for every plan that is made for the node of a
pattern, in every state of its tasks and whatever the host and the entity do.
-/

set_option autoImplicit false

namespace Barrage

variable {F σ : Type}

namespace Machine

section EachTask

/-- What is done at a place halts wherever a task begins there, and leaves a state of its plan. -/
def HaltsOnTasks (scope : Frames F) (fuel : Nat) (x : Nat → Machining F σ Unit) : Prop :=
  ∀ {q : Plan F} (c : Cell F q) {before : List (Slot F)} {depth : Nat} {owner? : Option Nat}
    {outer : Frames F}, InScope scope before depth owner? outer → q.effort depth ≤ fuel →
    ∀ after a, ∃ c' a', Halts (x before.length)
      (among before after (Slot.ofCell before.length owner? q c) a) ()
      (among before after (Slot.ofCell before.length owner? q c') a')

variable {scope : Frames F} {fuel : Nat} {x : Nat → Machining F σ Unit}

mutual

/-- What halts for every task where it begins halts for all tasks below as well. -/
theorem halts_at (one : HaltsOnTasks scope fuel x) :
    (p : Plan F) → (cell : Cell F p) → {before : List (Slot F)} → {depth : Nat} →
    {owner? : Option Nat} → {outer : Frames F} → InScope scope before depth owner? outer →
    p.effort depth ≤ fuel → (after : List (Slot F)) → (a : Actor F σ) →
    (id : Nat) → id < p.size → ∃ cell' a', Halts (x (before.length + id))
      (among before after (Slot.ofCell before.length owner? p cell) a) ()
      (among before after (Slot.ofCell before.length owner? p cell') a')
  | p, cell, _, _, _, _, inScope, enough, after, a, 0, _ => one cell inScope enough after a
  | .mk node args work children, .mk finished progress below, before, depth, owner?, outer,
      inScope, enough, after, a, id + 1, inside => by
    rw [Plan.size] at inside
    rw [Plan.effort] at enough
    let s : Slot F :=
      ⟨node, args, work, owner?, TaskRow.indices (before.length + 1) children, finished, progress⟩
    have around : InScope scope (before ++ [s]) (depth + 1) (some before.length) (args :: outer) :=
      InScope.inside inScope
    obtain ⟨below', a', halts⟩ := halts_atAll one children below around (by omega) after a id
      (by omega)
    rw [List.length_append, List.length_singleton, ← among_cons, ← among_cons] at halts
    refine ⟨.mk finished progress below', a', ?_⟩
    rw [Slot.ofCell, Slot.ofCell, Nat.add_comm id, ← Nat.add_assoc]
    exact halts

theorem halts_atAll (one : HaltsOnTasks scope fuel x) :
    (ps : List (Plan F)) → (below : Cells F ps) → {before : List (Slot F)} → {depth : Nat} →
    {owner? : Option Nat} → {outer : Frames F} → InScope scope before depth owner? outer →
    Plan.efforts depth ps ≤ fuel → (after : List (Slot F)) → (a : Actor F σ) →
    (id : Nat) → id < Plan.sizes ps → ∃ below' a', Halts (x (before.length + id))
      (among before after (Slot.ofCells before.length owner? ps below) a) ()
      (among before after (Slot.ofCells before.length owner? ps below') a')
  | [], _, _, _, _, _, _, _, _, _, id, inside => absurd inside (Nat.not_lt_zero id)
  | p :: ps, .cons head tail, before, depth, owner?, outer, inScope, enough, after, a, id,
      inside => by
    rw [Plan.sizes] at inside
    rw [Plan.efforts] at enough
    rw [Slot.ofCells]
    -- a place behind the tasks of the first plan is one of the other plans
    by_cases inHead : id < p.size
    · obtain ⟨head', a', halts⟩ := halts_at one p head inScope (by omega)
        (Slot.ofCells (before.length + p.size) owner? ps tail ++ after) a id inHead
      rw [← among_append_left, ← among_append_left] at halts
      exact ⟨.cons head' tail, a', by rwa [Slot.ofCells]⟩
    · have around := inScope.append (Slot.ofCell before.length owner? p head)
      obtain ⟨tail', a', halts⟩ := halts_atAll one ps tail around (by omega) after a (id - p.size)
        (by omega)
      rw [List.length_append, Slot.length_ofCell, ← among_append_right, ← among_append_right,
        Nat.add_assoc, Nat.add_sub_cancel' (Nat.le_of_not_lt inHead)] at halts
      exact ⟨.cons head tail', a', by rwa [Slot.ofCells]⟩

end

end EachTask

end Machine

def Cell.slots {p : Plan F} (cell : Cell F p) : List (Slot F) := Slot.ofCell 0 none p cell

theorem Machine.among_nil {p : Plan F} (cell : Cell F p) (a : Actor F σ) :
    among [] [] (Slot.ofCell 0 none p cell) a = ⟨cell.slots, a⟩ := by
  simp [among, Cell.slots]

open Machine

theorem Plan.halts_at {p : Plan F} {scope : Frames F} {fuel : Nat} (enough : p.effort 0 ≤ fuel)
    {x : Nat → Machining F σ Unit} (one : HaltsOnTasks scope fuel x) (cell : Cell F p)
    (a : Actor F σ) {id : Nat} (inside : id < p.size) :
    ∃ (cell' : Cell F p) (a' : Actor F σ), Halts (x id) ⟨cell.slots, a⟩ () ⟨cell'.slots, a'⟩ := by
  have around : InScope scope ([] : List (Slot F)) 0 none scope := .top
  obtain ⟨cell', a', halts⟩ := Machine.halts_at one p cell around enough [] a id inside
  rw [List.length_nil, Nat.zero_add, among_nil, among_nil] at halts
  exact ⟨cell', a', halts⟩

/-! ## A loop in single precision

The small bullet again. How often it waits is what its number of times is rounded to. -/

theorem Single.floor_le (x : Float32) : Scalar.floor x ≤ Limit.passes := by
  exact Int.max_le.2 ⟨by decide, Int.le_trans (Int.min_le_right _ _) (by decide)⟩

namespace Single.Sample

open Barrage.Sample (constant pattern)

def host : Host Float32 Unit where
  create _ s := (none, s)
  spawn _ s := s
  remove _ s := s
  target _ _ := .zero
  rank _ := Scalar.zero
  random s := (Scalar.zero, s)

def stage : Stage Unit := ⟨(), {}⟩

def entity : Entity Float32 := .resting 0 .zero none

def times : Float32 := Scalar.ofDecimal (.ofNat 2)

def plan : Plan Float32 :=
  .mk 0 [] .sequence
    [.mk 1 [] .again [.mk 3 [] (.action (Scalar.floor times)) [.mk 4 [] (.wait (constant 1)) []]],
      .mk 5 [] .vanish []]

def bullet : Bullet Float32 where
  entity := entity
  pattern := pattern
  node := 0
  plan := plan
  cell := plan.blank
  scope? := none
  emitter := 0

theorem build_eq : (Plan.build host pattern [] 0).run stage = (.ok plan, stage) :=
  Barrage.Sample.run_build host stage

end Single.Sample

variable [Scalar F]

namespace Bullet

/-- Take the tasks of any bullet whose plan was made for a node, in any state, in one list. There is
an amount of fuel that depends on the plan alone, with which starting and resetting any task and a
tick of all tasks come to an end, for every host, entity and world; no action runs out of numbers to
count its passes with. The first start and a tick do what they do to the plan. -/
theorem tasks_halt (saturates : ∀ x : F, Scalar.floor x ≤ Limit.passes) {b : Bullet F} {τ : Type}
    {k : Host F τ} {t t' : Stage τ}
    (built : (Plan.build k b.pattern b.scope b.node).run t = (.ok b.plan, t')) {fuel : Nat}
    (enough : b.plan.effort 0 ≤ fuel) (h : Host F σ) (s : Stage σ) (a : Actor F σ) :
    Halts (start h b.scope fuel 0) ⟨b.plan.blank.slots, a⟩ ()
      ⟨((b.plan.start h b.scope).run a).1.slots, ((b.plan.start h b.scope).run a).2⟩ ∧
    (∀ id < b.taskCount, ∃ (cell : Cell F b.plan) (a' : Actor F σ),
      Halts (start h b.scope fuel id) ⟨b.cell.slots, a⟩ () ⟨cell.slots, a'⟩) ∧
    (∀ id < b.taskCount, ∃ (cell : Cell F b.plan) (a' : Actor F σ),
      Halts (reset h b.scope fuel id) ⟨b.cell.slots, a⟩ () ⟨cell.slots, a'⟩) ∧
    let ((status, b'), s') := (b.step h).run s
    Halts (run (b.env h) b.scope fuel 0) ⟨b.cell.slots, { toStage := s, entity := b.entity }⟩ status
      ⟨b'.cell.slots, { toStage := s', entity := b'.entity }⟩ := by
  have around : InScope b.scope ([] : List (Slot F)) 0 none b.scope := .top
  refine ⟨?_, ?_, ?_, ?_⟩
  · have halts := halts_start h b.plan b.plan.blank around enough [] a
    rwa [List.length_nil, among_nil, among_nil, Plan.restart_blank] at halts
  · intro id inside
    exact Plan.halts_at enough
      (fun c _ _ _ _ inScope enough after a => ⟨_, _, halts_start h _ c inScope enough after a⟩)
      b.cell a inside
  · intro id inside
    exact Plan.halts_at enough
      (fun c _ _ _ _ inScope enough after a => ⟨_, _, halts_reset h _ c inScope enough after a⟩)
      b.cell a inside
  · have halts := halts_run (b.env h) b.plan (Plan.countable_of_build saturates built) b.cell around
      enough [] { toStage := s, entity := b.entity }
    rw [List.length_nil, among_nil, among_nil] at halts
    exact halts

theorem tasks_halt_single :
    let b := Single.Sample.bullet
    let h := Single.Sample.host
    let s := Single.Sample.stage
    let a : Actor Float32 Unit := { toStage := s, entity := b.entity }
    ((Plan.build h b.pattern b.scope b.node).run s = (.ok b.plan, s)) ∧
      Halts (start h b.scope (b.plan.effort 0) 0) ⟨b.plan.blank.slots, a⟩ ()
        ⟨((b.plan.start h b.scope).run a).1.slots, ((b.plan.start h b.scope).run a).2⟩ ∧
      let ((status, b'), s') := (b.step h).run s
      Halts (run (b.env h) b.scope (b.plan.effort 0) 0) ⟨b.cell.slots, a⟩ status
        ⟨b'.cell.slots, { toStage := s', entity := b'.entity }⟩ := by
  intro b h s a
  have built : (Plan.build h b.pattern b.scope b.node).run s = (.ok b.plan, s) :=
    Single.Sample.build_eq
  obtain ⟨started, -, -, ran⟩ := tasks_halt Single.floor_le built (Nat.le_refl _) h s a
  exact ⟨built, started, ran⟩

end Bullet

end Barrage
