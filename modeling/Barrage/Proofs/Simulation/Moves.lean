import Barrage.Proofs.Simulation.Rounds

/-!
Which bullets are moved in a simulation, and when. In every tick each bullet that is held is moved
once, in order. What bullets fire meanwhile waits for the next tick, and what was removed is not
moved in any later one.
-/

set_option autoImplicit false

namespace Barrage.Arena

variable {F : Type} [Scalar F] {p : Pattern} {root id : Nat} {log : Calls F}
  {bullets : List (Bullet F)} {r : Round F}

/-! ## One tick -/

namespace Faithful

theorem updated_eq (faithful : Faithful p root log bullets r) :
    r.updated = r.root?.toList.map Move.id ++ (Ledger.of (log ++ r.rootCalls)).living := by
  rw [← faithful.living, ← faithful.moved, ids, List.map_map, Round.updated, List.map_append]
  rfl

/-- Whoever is moved is the emitter's entity or was fired before, and was not removed. -/
theorem of_updated (faithful : Faithful p root log bullets r) (moved : id ∈ r.updated) :
    id ∉ (Ledger.of log).gone ∧
      (id = root ∨ id ∈ ids (Ledger.of (log ++ r.rootCalls)).given) := by
  rw [faithful.updated_eq, List.mem_append] at moved
  rcases moved with emitter | bullet
  · obtain ⟨m, move, rfl⟩ := List.mem_map.1 emitter
    obtain ⟨same, here⟩ := faithful.emitter m (Option.mem_toList.1 move)
    exact ⟨same ▸ here, .inl same⟩
  · obtain ⟨given, here⟩ := List.mem_filter.1 bullet
    refine ⟨fun gone => of_decide_eq_true here ?_, .inr given⟩
    rw [Ledger.gone_append]
    exact List.mem_append_left _ gone

theorem ids_given (faithful : Faithful p root log bullets r) :
    (ids (Ledger.of (log ++ r.rootCalls)).given ++ ids (Ledger.of r.moveCalls).given).Nodup := by
  have once := faithful.kept.once
  rwa [Round.calls, ← List.append_assoc, Ledger.given_append, ids_append] at once

theorem root_not_fired (faithful : Faithful p root log bullets r) :
    root ∉ ids (Ledger.of (log ++ r.rootCalls)).given ++ ids (Ledger.of r.moveCalls).given := by
  have outside := faithful.kept.root_not_given
  rwa [Round.calls, ← List.append_assoc, Ledger.given_append, ids_append] at outside

theorem updated_nodup (faithful : Faithful p root log bullets r) : r.updated.Nodup := by
  have once : (Ledger.of (log ++ r.rootCalls)).living.Nodup :=
    (List.nodup_append.1 faithful.ids_given).1.filter _
  rw [faithful.updated_eq]
  match emitter : r.root? with
  | none => exact once
  | some m =>
    refine List.nodup_cons.2 ⟨fun moved => ?_, once⟩
    rw [(faithful.emitter m emitter).1] at moved
    exact faithful.root_not_fired (List.mem_append_left _ (List.mem_of_mem_filter moved))

theorem fired_is_new (faithful : Faithful p root log bullets r)
    (fired : id ∈ ids (Ledger.of r.moveCalls).given) :
    id ≠ root ∧ id ∉ ids (Ledger.of (log ++ r.rootCalls)).given := by
  constructor
  · rintro rfl
    exact faithful.root_not_fired (List.mem_append_right _ fired)
  · exact fun before => (List.nodup_append.1 faithful.ids_given).2.2 _ before _ fired rfl

end Faithful

/-! ## Several ticks -/

namespace Accounts

variable {s : SimulationSettings F} {told : Except RunError Report × Chronicle F} {a : Arena F}
  {before after : List (Round F)} {t u : Round F} {b : Bullet F}

theorem removed_rests (accounts : Accounts s p told a) (split : told.2.rounds = before ++ after)
    {e : Entity F} (removed : .remove e ∈ told.2.calls before) (later : u ∈ after) :
    e.id ∉ u.updated := by
  obtain ⟨between, rest, rfl⟩ := List.append_of_mem later
  rw [← List.append_assoc] at split
  intro moved
  refine ((accounts.split split).of_updated moved).1 (Ledger.mem_gone.2 ⟨e, ?_, rfl⟩)
  rw [Chronicle.calls_append]
  exact List.mem_append_left _ removed

theorem fired_waits (accounts : Accounts s p told a)
    (split : told.2.rounds = before ++ t :: after) (fired : .spawn b ∈ t.moveCalls)
    (earlier : u ∈ before ++ [t]) : b.entity.id ∉ u.updated := by
  have new := (accounts.split split).fired_is_new
    (List.mem_map_of_mem (Ledger.mem_given.2 fired))
  intro moved
  rcases List.mem_append.1 earlier with past | here
  -- whom an earlier tick moved was given before this one
  · obtain ⟨first, between, rfl⟩ := List.append_of_mem past
    rw [List.append_assoc, List.cons_append] at split
    have known := ((accounts.split split).of_updated moved).2.resolve_left new.1
    refine new.2 ?_
    rw [Chronicle.calls_append, List.flatMap_cons, Round.calls]
    simp only [Ledger.given_append, ids_append, List.mem_append] at known ⊢
    tauto
  · obtain rfl := List.mem_singleton.1 here
    exact new.2 (((accounts.split split).of_updated moved).2.resolve_left new.1)

theorem fired_goes (accounts : Accounts s p told a)
    (split : told.2.rounds = before ++ t :: after) (fired : .spawn b ∈ t.moveCalls)
    (next : u ∈ after.head?) : b ∈ u.moves.map Move.bullet := by
  obtain ⟨rest, rfl⟩ : ∃ rest, after = u :: rest := List.head?_eq_some_iff.1 next
  have stays := (accounts.split split).stays b (Ledger.mem_given.2 fired)
  rw [← List.singleton_append, ← List.append_assoc] at split
  have faithful := accounts.split split
  rw [faithful.moved, faithful.held, resting, List.getLast?_concat]
  exact List.mem_append_left _ stays

end Accounts

/-- The chronicle is of the simulation. In every tick what is held is what rested since the one
before and what the emitter's bullet fired just now; each of these bullets is moved, in order, and
nobody is moved twice. What bullets fire while they are moved goes in the next tick and not before.
Who was removed in some tick, or before all of them, is moved in no later one. -/
theorem bullets_move_once (s : SimulationSettings F) (random : RandomSource F) (p : Pattern)
    (j : Journal) :
    let told := (Telling.run s p).run { world := .ofSettings s random, journal := j }
    let c := told.1.2
    (simulate s random p).run j = (told.1.1, told.2.journal) ∧
    (∀ before t after, c.rounds = before ++ t :: after →
      t.held = resting (Ledger.of c.begins).given before ++ (Ledger.of t.rootCalls).given ∧
      t.moves.map Move.bullet = t.held ∧ t.updated.Nodup ∧
      ∀ b, .spawn b ∈ t.moveCalls → (∀ u ∈ before ++ [t], b.entity.id ∉ u.updated) ∧
        ∀ u ∈ after.head?, b ∈ u.moves.map Move.bullet) ∧
    ∀ before after, c.rounds = before ++ after → ∀ e, .remove e ∈ c.calls before →
      ∀ u ∈ after, e.id ∉ u.updated := by
  intro told c
  have accounts : Accounts s p told.1 told.2.world := ensures_run s random p _ rfl
  refine ⟨simulate_told s random p j, fun before t after split => ?_, ?_⟩
  · have faithful := accounts.split split
    refine ⟨faithful.held, faithful.moved, faithful.updated_nodup, fun b fired => ⟨?_, ?_⟩⟩
    · exact fun u earlier => accounts.fired_waits split fired earlier
    · exact fun u next => accounts.fired_goes split fired next
  · exact fun before after split e removed u later => accounts.removed_rests split removed later

end Barrage.Arena
