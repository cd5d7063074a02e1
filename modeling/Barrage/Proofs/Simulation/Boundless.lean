import Barrage.Proofs.Host.AnyOrder
import Barrage.Proofs.Host.Parting
import Barrage.Proofs.Simulation.Ledger

/-!
Simulations without a limit. As long as there is room left, bullets move as they do where there
always is room. There nothing but the numbers of entities depends on what was asked before; the
world holds what was given and counts what was removed.
-/

set_option autoImplicit false

namespace Barrage.Arena

variable {F : Type} [Scalar F]

/-! ## Room -/

def Full (a : Arena F) : Prop := a.maxEntities ≤ a.alive

def boundless : Host F (Arena F) :=
  { host with create := fun wanted a =>
      let (e, a) := a.allocate wanted.position wanted.emitter
      (some e, a) }

def moveWith (h : Host F (Arena F)) (b : Bullet F) : Staged (Arena F) (Bullet F) := do
  let s ← get
  if s.world.removed.contains b.entity.id then pure b
  else
    let (_, b) ← b.update h
    pure b

omit [Scalar F] in
theorem full_spawn {a : Arena F} (full : a.Full) (b : Bullet F) : (spawn b a).Full := by
  unfold Full alive spawn at *
  simp only [Array.size_push]
  omega

omit [Scalar F] in
theorem full_remove {a : Arena F} (full : a.Full) (e : Entity F) : (remove e a).Full := by
  unfold remove
  split <;> exact full

theorem parts_boundless : (host : Host F (Arena F)).Parts Full boundless where
  others := ⟨_, rfl⟩
  create free wanted := (create_of_free wanted free).symm
  created full wanted := by
    change (create wanted _).2.Full
    rw [create_of_full wanted full]
    exact full
  spawned := full_spawn
  removed := full_remove
  drawn := id

theorem boundless_parts : (boundless : Host F (Arena F)).Parts Full host where
  others := ⟨_, rfl⟩
  create free wanted := create_of_free wanted free
  created full _ := full
  spawned := full_spawn
  removed := full_remove
  drawn := id

theorem shortOf_moveAll {h h' : Host F (Arena F)} {spent : Arena F → Prop}
    (parts : h.Parts spent h') (bullets : List (Bullet F)) :
    (Link.shortOf fun s : Stage (Arena F) => spent s.world).Holds (bullets.mapM (moveWith h))
      (bullets.mapM (moveWith h')) := by
  refine (Link.shortOf _).mapM (fun b => ?_) bullets
  refine (Link.shortOf _).bind (fun _ => ⟨id, fun _ => rfl⟩) fun s => ?_
  split
  · exact (Link.shortOf _).pure _
  · exact (Link.shortOf _).bind (b.shortOf_update parts) fun _ => (Link.shortOf _).pure _

structure Reads (a w : Arena F) : Prop where
  target : w.target = a.target
  rank : w.rank = a.rank
  random : w.random = a.random

theorem impartial_boundless (a : Arena F) : boundless.Impartial a.Reads where
  target here there _ _ := here.target.trans there.target.symm
  rank here there := here.rank.trans there.rank.symm
  create {_ w'} _ _ _ := ⟨_, w'.lastId + 1, rfl, rfl⟩
  created reads _ := ⟨reads.target, reads.rank, reads.random⟩
  spawned reads _ := ⟨reads.target, reads.rank, reads.random⟩
  removed reads e := by
    change a.Reads (remove e _)
    unfold remove
    split
    · exact reads
    · exact ⟨reads.target, reads.rank, reads.random⟩

/-! ## The world after some calls -/

/-- A world after a ledger was entered in which some entities are removed for the first time. -/
def enter (a : Arena F) (l : Ledger F) (news : List Nat) : Arena F :=
  { a with
    lastId := a.lastId + l.made.length
    bullets := a.bullets ++ l.given.toArray
    removed := news ++ a.removed
    report.spawned := a.report.spawned + l.given.length
    report.removed := a.report.removed + news.length
    report.spawnedByPattern := l.given.foldl
      (fun counts b => counts.add (b.entity.spawnedAs?.getD Entity.unnamed))
      a.report.spawnedByPattern }

structure Tallied (a : Arena F) (calls : Calls F) (w : Arena F) (news : List Nat) : Prop where
  numbers : (Ledger.of calls).made = List.range' (a.lastId + 1) (Ledger.of calls).made.length
  once : news.Nodup
  removed : ∀ id, id ∈ news ↔ id ∈ (Ledger.of calls).gone ∧ id ∉ a.removed
  world : w = { a.enter (.of calls) news with random := w.random }

namespace Tallied

variable {a w : Arena F} {calls : Calls F} {news : List Nat}

omit [Scalar F] in
theorem nil (a : Arena F) : a.Tallied [] a [] where
  numbers := rfl
  once := .nil
  removed := by simp [Ledger.of]
  world := by simp [enter, Ledger.of]

omit [Scalar F] in
theorem lastId (tallied : a.Tallied calls w news) :
    w.lastId = a.lastId + (Ledger.of calls).made.length := by
  rw [tallied.world]
  rfl

omit [Scalar F] in
theorem create {e : Entity F} (tallied : a.Tallied calls w news) (wanted : Emission F)
    (next : e.id = w.lastId + 1) :
    a.Tallied (calls ++ [.create wanted (some e)]) { w with lastId := w.lastId + 1 } news where
  numbers := by
    have made : (Ledger.of (calls ++ [.create wanted (some e)])).made =
        (Ledger.of calls).made ++ [a.lastId + 1 + (Ledger.of calls).made.length] := by
      simp [Ledger.of, Ledger.enter, next, tallied.lastId]
      omega
    rw [made, List.length_append, List.length_singleton, List.range'_1_concat, ← tallied.numbers]
  once := tallied.once
  removed := by simpa [Ledger.of, Ledger.enter] using tallied.removed
  world := by
    rw [tallied.world]
    simp [enter, Ledger.of, Ledger.enter]
    omega

omit [Scalar F] in
theorem spawn (tallied : a.Tallied calls w news) (b : Bullet F) :
    a.Tallied (calls ++ [.spawn b]) (Arena.spawn b w) news where
  numbers := by simpa [Ledger.of, Ledger.enter] using tallied.numbers
  once := tallied.once
  removed := by simpa [Ledger.of, Ledger.enter] using tallied.removed
  world := by
    rw [tallied.world]
    simp [enter, Arena.spawn, Ledger.of, Ledger.enter]
    omega

omit [Scalar F] in
theorem remove (tallied : a.Tallied calls w news) (e : Entity F) :
    ∃ news, a.Tallied (calls ++ [.remove e]) (Arena.remove e w) news := by
  have removed : w.removed = news ++ a.removed := congrArg Arena.removed tallied.world
  have numbers : (Ledger.of (calls ++ [.remove e])).made = List.range' (a.lastId + 1)
      (Ledger.of (calls ++ [.remove e])).made.length := by
    simpa [Ledger.of, Ledger.enter] using tallied.numbers
  have gone : (Ledger.of (calls ++ [.remove e])).gone = (Ledger.of calls).gone ++ [e.id] := by
    simp [Ledger.of, Ledger.enter]
  unfold Arena.remove
  split
  · next noted =>
    rw [List.contains_iff_mem, removed, List.mem_append, tallied.removed] at noted
    refine ⟨news, numbers, tallied.once, fun id => ?_, ?_⟩
    · rw [tallied.removed, gone, List.mem_append, List.mem_singleton]
      grind
    · rw [tallied.world]
      simp [enter, Ledger.of, Ledger.enter]
  · next new =>
    rw [List.contains_iff_mem, removed, List.mem_append] at new
    refine ⟨e.id :: news, numbers, tallied.once.cons (mt .inl new), fun id => ?_, ?_⟩
    · rw [List.mem_cons, tallied.removed, gone, List.mem_append, List.mem_singleton]
      grind
    · rw [tallied.world]
      simp [enter, Ledger.of, Ledger.enter]
      omega

end Tallied

def Totals (a w : Arena F) (r : Recorded F (Arena F)) : Prop :=
  r.world = w ∧ ∃ news, a.Tallied r.calls w news

theorem deals_totals (a : Arena F) :
    boundless.Deals (Totals a) (Totals a) boundless.recorded := by
  have alike : boundless.Alike (Totals a) boundless.recorded := by
    refine ⟨?_, ?_, ?_⟩
    · rintro w _ ⟨rfl, -⟩ e
      rfl
    · rintro w _ ⟨rfl, -⟩
      rfl
    · rintro _ r ⟨rfl, news, tallied⟩
      refine ⟨rfl, rfl, news, tallied.numbers, tallied.once, tallied.removed, ?_⟩
      change ({ r.world with random := _ } : Arena F) = _
      rw [tallied.world]
      rfl
  exact {
    free := alike
    taken := alike
    refused := by rintro w _ ⟨rfl, -⟩ wanted ⟨⟩
    made := by
      rintro w _ ⟨rfl, news, tallied⟩ wanted e ⟨⟩
      exact ⟨rfl, rfl, news, tallied.create wanted rfl⟩
    spawn := by
      rintro w _ ⟨rfl, news, tallied⟩ b
      exact ⟨rfl, news, tallied.spawn b⟩
    giveBack := by
      rintro w _ ⟨rfl, news, tallied⟩ e
      exact ⟨rfl, tallied.remove e⟩
    remove := by
      rintro w _ ⟨rfl, news, tallied⟩ e
      exact ⟨rfl, tallied.remove e⟩ }

end Barrage.Arena
