import Barrage.Proofs.Simulation.Rounds

/-!
The balance of a simulation. At the end of every tick the report of the world agrees with what its
host was asked so far: what was fired is still held or was removed, and what was removed are bullets
that were fired, entities that could not be bound, and perhaps the emitter's entity. However often a
removal was asked for, it counts once.
-/

set_option autoImplicit false

namespace Barrage.Arena

variable {F : Type} [Scalar F]

structure Balanced (p : Pattern) (root : Nat) (log : Calls F) (a : Arena F) : Prop where
  spawned : a.report.spawned = a.bullets.size + (Ledger.of log).fallen.length
  removed : a.report.removed = (Ledger.of log).fallen.length + (Ledger.of log).unused.length +
    if root ∈ (Ledger.of log).gone then 1 else 0
  once : a.report.removed = (Ledger.of log).gone.toFinset.card
  named : a.report.spawnedByPattern.total = a.report.spawned
  held : ids a.bullets.toList = (Ledger.of log).living
  distinct : (ids a.bullets.toList).Nodup
  entities : (root :: (Ledger.of log).made).Nodup
  given : ∀ id ∈ ids (Ledger.of log).given, id ∈ (Ledger.of log).made
  givenOnce : (ids (Ledger.of log).given).Nodup
  unbound : ∀ id ∈ (Ledger.of log).unused, Failed p log id

variable {p : Pattern} {root : Nat} {log : Calls F} {a : Arena F}

namespace Kept

theorem unbound (kept : Kept p root log [] [] a) {id : Nat}
    (unused : id ∈ (Ledger.of log).unused) : Failed p log id := by
  obtain ⟨made, free⟩ := List.mem_filter.1 unused
  exact (kept.settled id made).resolve_left (of_decide_eq_true free)

theorem mem_gone_iff (kept : Kept p root log [] [] a) (id : Nat) :
    id ∈ (Ledger.of log).gone ↔ id ∈ (Ledger.of log).fallen ∨ id ∈ (Ledger.of log).unused ∨
      id = root ∧ root ∈ (Ledger.of log).gone := by
  simp only [Ledger.fallen, Ledger.unused, List.mem_filter, decide_eq_true_eq]
  constructor
  · intro gone
    rcases List.mem_cons.1 (kept.gone id gone) with rfl | made
    · exact .inr (.inr ⟨rfl, gone⟩)
    · by_cases inside : id ∈ ids (Ledger.of log).given
      · exact .inl ⟨inside, gone⟩
      · exact .inr (.inl ⟨made, inside⟩)
  · rintro (⟨-, gone⟩ | ⟨made, free⟩ | ⟨rfl, gone⟩)
    · exact gone
    · exact ((kept.settled id made).resolve_left free).gone
    · exact gone

theorem card_gone (kept : Kept p root log [] [] a) :
    (Ledger.of log).gone.toFinset.card = (Ledger.of log).fallen.length +
      (Ledger.of log).unused.length + if root ∈ (Ledger.of log).gone then 1 else 0 := by
  have apart : ∀ id ∈ (Ledger.of log).fallen, ∀ id' ∈ (Ledger.of log).unused, id ≠ id' := by
    rintro id fallen _ unused rfl
    exact of_decide_eq_true (List.mem_filter.1 unused).2 (List.mem_filter.1 fallen).1
  have outside : root ∉ (Ledger.of log).fallen ++ (Ledger.of log).unused := by
    intro inside
    rcases List.mem_append.1 inside with fallen | unused
    · exact kept.root_not_given (List.mem_filter.1 fallen).1
    · exact (List.nodup_cons.1 kept.distinct).1 (List.mem_filter.1 unused).1
  have distinct : ((Ledger.of log).fallen ++ (Ledger.of log).unused).Nodup :=
    List.nodup_append.2 ⟨kept.once.filter _, (List.nodup_cons.1 kept.distinct).2.filter _, apart⟩
  have others := List.toFinset_card_of_nodup distinct
  rw [List.length_append] at others
  have members : ∀ id, id ∈ (Ledger.of log).gone.toFinset ↔
      id ∈ ((Ledger.of log).fallen ++ (Ledger.of log).unused).toFinset ∨
        id = root ∧ root ∈ (Ledger.of log).gone := by
    intro id
    rw [List.mem_toFinset, List.mem_toFinset, List.mem_append, kept.mem_gone_iff, or_assoc]
  -- the emitter's entity is none of the others, so it counts apart
  split
  · next gone =>
    have all : (Ledger.of log).gone.toFinset =
        insert root ((Ledger.of log).fallen ++ (Ledger.of log).unused).toFinset := by
      ext id
      rw [members, Finset.mem_insert]
      tauto
    rw [all, Finset.card_insert_of_notMem (mt List.mem_toFinset.1 outside), others]
  · next here =>
    have all : (Ledger.of log).gone.toFinset =
        ((Ledger.of log).fallen ++ (Ledger.of log).unused).toFinset := by
      ext id
      rw [members]
      tauto
    rw [all, others, Nat.add_zero]

theorem balanced (kept : Kept p root log [] [] a) : Balanced p root log a where
  spawned := by
    have held := congrArg List.length kept.ids_eq_living
    rw [List.nil_append, ids, List.length_map, Array.length_toList] at held
    rw [kept.spawned, Ledger.length_given, held]
  removed := kept.counted.trans kept.card_gone
  once := kept.counted
  named := kept.named
  held := kept.ids_eq_living
  distinct := kept.nodup
  entities := kept.distinct
  given := kept.given
  givenOnce := kept.toBooked.once
  unbound _ := kept.unbound

end Kept

theorem Faithful.removed_cases {bullets : List (Bullet F)} {r : Round F}
    (faithful : Faithful p root log bullets r) :
    r.after.removed = [] ∨ r.after.removed = [root] ∧ r.after.root? = some root := by
  have known : ∀ id ∈ r.after.removed, id = root := fun id removed =>
    faithful.kept.rootKnown id (faithful.pendingRoot id removed).symm
  have once := faithful.kept.notedOnce
  have pending := faithful.pendingRoot
  match noted : r.after.removed with
  | [] => exact .inl rfl
  | [id] =>
    rw [noted] at known pending
    obtain rfl := known id List.mem_cons_self
    exact .inr ⟨rfl, (pending id List.mem_cons_self).symm⟩
  | id :: id' :: rest =>
    rw [noted] at known once
    have same : id = id' := (known id (by simp)).trans (known id' (by simp)).symm
    exact absurd (by simp [same]) (List.nodup_cons.1 once).1

/-- The chronicle is of the simulation. At the end of every tick the report is balanced, and at most
the removal of the emitter's entity is noted still; the report at the end is balanced too. -/
theorem reports_balance (s : SimulationSettings F) (random : RandomSource F) (p : Pattern)
    (j : Journal) :
    let told := (Telling.run s p).run { world := .ofSettings s random, journal := j }
    let c := told.1.2
    (simulate s random p).run j = (told.1.1, told.2.journal) ∧
    (∀ before t after, c.rounds = before ++ t :: after →
      Balanced p c.root (c.calls (before ++ [t])) t.after ∧
      (t.after.removed = [] ∨ t.after.removed = [c.root] ∧ t.after.root? = some c.root)) ∧
    ∀ r, told.1.1 = .ok r → c.rounds.length = s.ticks ∧
      Balanced p c.root (c.calls c.rounds) told.2.world ∧
      ∃ e, r = told.2.world.finish s.ticks e := by
  intro told c
  have accounts : Accounts s p told.1 told.2.world := ensures_run s random p _ rfl
  refine ⟨simulate_told s random p j, fun before t after split => ?_, fun r ended => ?_⟩
  · have faithful := accounts.split split
    rw [Chronicle.calls_append, List.flatMap_singleton]
    exact ⟨faithful.kept.balanced, faithful.removed_cases⟩
  · obtain ⟨length, kept, report⟩ := accounts.ended r ended
    exact ⟨length, kept.balanced, report⟩

end Barrage.Arena
