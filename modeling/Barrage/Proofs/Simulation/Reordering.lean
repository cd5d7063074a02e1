import Barrage.Proofs.Simulation.Boundless
import Barrage.Proofs.Simulation.Rounds
import Barrage.Proofs.Task.Shots

/-!
Ticks of a simulation in any order of the bullets. As long as there is room left, the order only
shows in the numbers of the bullets that are fired, and in the order in which bullets are held.
-/

set_option autoImplicit false

namespace Barrage

variable {F : Type}

/-! ## Ledgers -/

/-- In two ledgers as many entities were made, the same bullets were given but for numbers and
order, and of the entities up to a number the same are gone. -/
structure Ledger.Evened (n : Nat) (l l' : Ledger F) : Prop where
  made : l.made.length = l'.made.length
  given : (l.given.map Bullet.blank).Perm (l'.given.map Bullet.blank)
  gone : ∀ id ≤ n, id ∈ l.gone ↔ id ∈ l'.gone

namespace Ledger.Evened

variable {n : Nat} {l l' l'' : Ledger F} {calls calls' more more' : Calls F}

theorem refl (l : Ledger F) : l.Evened n l := ⟨rfl, .refl _, fun _ _ => .rfl⟩

theorem symm (evened : l.Evened n l') : l'.Evened n l :=
  ⟨evened.made.symm, evened.given.symm, fun id old => (evened.gone id old).symm⟩

theorem trans (first : l.Evened n l') (next : l'.Evened n l'') : l.Evened n l'' :=
  ⟨first.made.trans next.made, first.given.trans next.given,
    fun id old => (first.gone id old).trans (next.gone id old)⟩

theorem append (first : (of calls).Evened n (of calls')) (next : (of more).Evened n (of more')) :
    (of (calls ++ more)).Evened n (of (calls' ++ more')) where
  made := by simp [first.made, next.made]
  given := by simpa using first.given.append next.given
  gone id old := by simp [first.gone id old, next.gone id old]

theorem comm (calls more : Calls F) : (of (calls ++ more)).Evened n (of (more ++ calls)) where
  made := by simp [Nat.add_comm]
  given := by simpa using List.perm_append_comm
  gone id _ := by simp [or_comm]

theorem flatMap {γ : Type} {cs cs' : List γ} (part : γ → Calls F) (reordered : cs.Perm cs') :
    (of (cs.flatMap part)).Evened n (of (cs'.flatMap part)) := by
  induction reordered with
  | nil => exact .refl _
  | cons c _ ih => exact .append (.refl _) ih
  | swap c d cs =>
    simp only [List.flatMap_cons, ← List.append_assoc]
    exact .append (.comm _ _) (.refl _)
  | trans _ _ ih ih' => exact ih.trans ih'

end Ledger.Evened

section Ledgers

variable (log : Calls F) (wanted : Emission F) (e gone : Entity F) (b : Bullet F)

theorem Ledger.of_fired : of (log ++ [.create wanted (some e), .spawn b]) =
    ⟨(of log).made ++ [e.id], (of log).given ++ [b], (of log).gone⟩ := of_append _ _

theorem Ledger.of_lost : of (log ++ [.create wanted (some e), .remove gone]) =
    ⟨(of log).made ++ [e.id], (of log).given, (of log).gone ++ [gone.id]⟩ := of_append _ _

theorem Ledger.of_vanished : of (log ++ [.remove gone]) =
    ⟨(of log).made, (of log).given, (of log).gone ++ [gone.id]⟩ := of_append _ _

end Ledgers

theorem NameCounts.add_comm (x y : String) (counts : NameCounts) :
    (counts.add x).add y = (counts.add y).add x := by
  induction counts with
  | nil => grind [NameCounts.add]
  | cons head rest ih =>
    obtain ⟨k, n⟩ := head
    grind [NameCounts.add]

theorem Ledger.Evened.names {n : Nat} {l l' : Ledger F} (evened : l.Evened n l')
    (counts : NameCounts) :
    l.given.foldl (fun counts b => counts.add (b.entity.spawnedAs?.getD Entity.unnamed)) counts =
      l'.given.foldl (fun counts b => counts.add (b.entity.spawnedAs?.getD Entity.unnamed))
        counts := by
  have same := evened.given.foldl_eq'
    (f := fun counts b => NameCounts.add (b.entity.spawnedAs?.getD Entity.unnamed) counts)
    (fun b _ b' _ counts => NameCounts.add_comm _ _ _) counts
  rwa [List.foldl_map, List.foldl_map] at same

namespace Dealt

open Ledger

variable {own : Nat → Prop} {n : Nat} {calls calls' : Calls F}

theorem gone (dealt : Dealt own calls calls') :
    ∀ id ∈ (of calls').gone, own id ∨ id ∈ (of calls').made := by
  induction dealt with
  | nil => simp [of]
  | fired => grind [of_fired]
  | lost => grind [of_lost]
  | vanished => grind [of_vanished]

theorem evened (dealt : Dealt own calls calls') (new : ∀ id ∈ (of calls).made, n < id)
    (new' : ∀ id ∈ (of calls').made, n < id) : (of calls).Evened n (of calls') := by
  induction dealt with
  | nil => exact .refl _
  | fired _ _ ih =>
    rw [of_fired] at new new' ⊢
    rw [of_fired]
    obtain ⟨made, given, gone⟩ := ih (List.forall_mem_append.1 new).1
      (List.forall_mem_append.1 new').1
    exact ⟨by simp [made], by simpa [Bullet.blank, Entity.blank] using given.append_right _, gone⟩
  | @lost _ _ _ e lost number _ same ih =>
    rw [of_lost] at new new' ⊢
    rw [of_lost]
    obtain ⟨before, last⟩ := List.forall_mem_append.1 new
    obtain ⟨before', lastNew⟩ := List.forall_mem_append.1 new'
    obtain ⟨made, given, gone⟩ := ih before before'
    refine ⟨by simp [made], given, fun id old => ?_⟩
    have first : n < e.id := last _ (List.mem_singleton_self _)
    have other : n < number := lastNew _ (List.mem_singleton_self _)
    have known : id ≠ lost.id ∧ id ≠ number := by omega
    simp [gone id old, known]
  | vanished _ _ ih =>
    rw [of_vanished] at new new'
    exact (ih new new').append (.refl _)

theorem returned (dealt : Dealt own calls calls') (new : ∀ id ∈ (of calls').made, n < id)
    (old : ∀ id, own id → id ≤ n) :
    (ids (of calls').given ++ (of calls').gone.filter (n < ·)).Perm (of calls').made := by
  induction dealt with
  | nil => rfl
  | fired _ same ih =>
    rw [of_fired] at new ⊢
    have before := ih (List.forall_mem_append.1 new).1
    simp only [ids_append, List.append_assoc]
    exact (List.perm_append_comm.append_left _).trans
      (List.append_assoc .. ▸ before.append_right _)
  | lost _ same ih =>
    rw [of_lost] at new ⊢
    obtain ⟨before, last⟩ := List.forall_mem_append.1 new
    have kept := List.filter_eq_self.2 fun id inside => decide_eq_true (last id inside)
    simp only [List.filter_append, ← List.append_assoc]
    rw [kept]
    exact (ih before).append_right _
  | @vanished _ _ e _ mine ih =>
    rw [of_vanished] at new ⊢
    have known : ¬ n < e.id := Nat.not_lt.2 (old _ mine)
    simpa [known] using ih new

end Dealt

/-! ## Moving bullets -/

namespace Arena

section Tallies

variable {a w w' : Arena F} {calls calls' : Calls F} {news news' : List Nat}

theorem Tallied.new (tallied : a.Tallied calls w news) :
    ∀ id ∈ (Ledger.of calls).made, a.lastId < id := by
  rw [tallied.numbers]
  intro id inside
  have bounds := List.mem_range'_1.1 inside
  omega

theorem Tallied.removed_eq (tallied : a.Tallied calls w news) : w.removed = news ++ a.removed :=
  congrArg Arena.removed tallied.world

end Tallies

variable [Scalar F] {s t : Stage (Arena F)} {p : Pattern} {bullets : List (Bullet F)}

def afterwards (s : Stage (Arena F)) (b : Bullet F) : Bullet F :=
  (reference (Bullet.update boundless.recorded) s b).1.2

def asked (s : Stage (Arena F)) (b : Bullet F) : Calls F :=
  (reference (Bullet.update boundless.recorded) s b).2

structure Moved (s : Stage (Arena F)) (bullets : List (Bullet F)) (t : Stage (Arena F))
    (calls : Calls F) (news : List Nat) : Prop extends Tallied s.world calls t.world news where
  ran : (bullets.mapM (moveWith boundless)).run s = (bullets.map (afterwards s), t)
  reads : s.world.Reads t.world
  dealt : Dealt (· ∈ ids bullets) (bullets.flatMap (asked s)) calls

theorem exists_moved (steady : p.Steady) (lives : ∀ b ∈ bullets, b.Lives p)
    (distinct : (ids bullets).Nodup) (known : ∀ id ∈ ids bullets, id ≤ s.world.lastId)
    (here : ∀ id ∈ ids bullets, id ∉ s.world.removed) :
    ∃ t calls news, Moved s bullets t calls news := by
  induction bullets using List.reverseRecOn with
  | nil => exact ⟨s, [], [], .nil _, rfl, ⟨rfl, rfl, rfl⟩, .nil⟩
  | append_singleton bullets b ih =>
    simp only [ids_append, List.forall_mem_append] at lives known here
    obtain ⟨distinct, -, apart⟩ := List.nodup_append.1 (ids_append .. ▸ distinct)
    obtain ⟨t, calls, news, moved⟩ := ih lives.1 distinct known.1 here.1
    have own : b.entity.id ∈ ids [b] := List.mem_singleton_self _
    -- none of the bullets that were moved before has removed this one
    have stays : b.entity.id ∉ t.world.removed := by
      rw [moved.removed_eq, List.mem_append, moved.removed]
      rintro (⟨gone, -⟩ | removed)
      · rcases moved.dealt.gone _ gone with other | made
        · exact apart _ other _ own rfl
        · exact Nat.lt_irrefl _ (Nat.lt_of_lt_of_le (moved.new _ made) (known.2 _ own))
      · exact here.2 _ own removed
    have impartially := Bullet.impartially_update (impartial_boundless s.world) steady
      (lives.2 b (List.mem_singleton_self _))
    obtain ⟨calls', t', ran, told, dealt, reads⟩ :=
      impartially.settled ⟨rfl, rfl, rfl⟩ moved.reads calls
    obtain ⟨-, ⟨-, news', tallied⟩, -⟩ := Bullet.together_update (deals_totals s.world) b t
      (t.noting calls) ⟨⟨rfl, news, moved.toTallied⟩, rfl⟩
    rw [told] at tallied
    rw [ran] at tallied
    refine ⟨t', calls ++ calls', news', tallied, ?_, reads, ?_⟩
    · have moves : (moveWith boundless b).run t = (afterwards s b, t') := by
        unfold moveWith
        rw [run_bind_eq]
        change (if t.world.removed.contains b.entity.id then pure b else _ : Staged _ _).run t = _
        rw [if_neg (mt List.contains_iff_mem.1 stays), run_bind_eq, ran]
        rfl
      rw [List.mapM_append, run_bind_eq, moved.ran, run_bind_eq, List.mapM_cons, run_bind_eq, moves,
        List.map_append]
      rfl
    · rw [List.flatMap_append, List.flatMap_singleton, ids_append]
      exact (moved.dealt.mono fun _ => List.mem_append_left _).append
        (dealt.mono fun _ same => List.mem_append_right _ (same ▸ own))

def anonymous (n : Nat) (b : Bullet F) : Bullet F := if n < b.entity.id then b.blank else b

/-- Bullets that are held in a world, or were taken out of it, and go on: they have numbers of their
own, and neither they nor the emitter's entity are about to go. -/
structure Fit (p : Pattern) (bullets : List (Bullet F)) (a : Arena F) : Prop where
  lives : ∀ b ∈ bullets, b.Lives p
  distinct : (ids bullets).Nodup
  known : ∀ id ∈ ids bullets, id ≤ a.lastId
  here : ∀ id ∈ ids bullets, id ∉ a.removed
  old : ∀ id ∈ a.removed, id ≤ a.lastId
  root : ∀ id ∈ a.root?, id ≤ a.lastId ∧ id ∉ ids bullets

/-- Two worlds only differ in the order in which they hold bullets, and in the numbers of those
above some number. -/
structure Rearranged (n : Nat) (a a' : Arena F) : Prop where
  others : { a with bullets := #[] } = { a' with bullets := #[] }
  bullets : (a.bullets.toList.map (anonymous n)).Perm (a'.bullets.toList.map (anonymous n))

theorem Kept.fit {root : Nat} {log : Calls F} {a : Arena F} (kept : Kept p root log [] [] a)
    (lives : ∀ b ∈ a.bullets.toList, b.Lives p) : Fit p a.bullets.toList a where
  lives := lives
  distinct := kept.nodup
  known id inside :=
    kept.fresh id (List.mem_cons_of_mem _ (kept.given id (kept.of_held id inside).1))
  here id inside removed := List.not_mem_nil (kept.pending id removed (kept.of_held id inside).1)
  old id removed := kept.fresh id (kept.gone id (kept.noted id removed))
  root id held := by
    obtain rfl := kept.rootKnown id held
    exact ⟨kept.fresh id List.mem_cons_self,
      fun inside => kept.root_not_given (kept.of_held id inside).1⟩

theorem afterwards_id (s : Stage (Arena F)) (b : Bullet F) :
    (afterwards s b).entity.id = b.entity.id := by
  obtain ⟨calls, same, later, -⟩ := b.records_update boundless s []
  change ((b.update boundless.recorded).run (s.noting [])).1.2.entity.id = _
  rw [same]
  exact later.id

theorem ids_afterwards (s : Stage (Arena F)) (bullets : List (Bullet F)) :
    ids (bullets.map (afterwards s)) = ids bullets := by
  simp [ids, afterwards_id]

theorem asked_new (s : Stage (Arena F)) (bullets : List (Bullet F)) :
    ∀ id ∈ (Ledger.of (bullets.flatMap (asked s))).made, s.world.lastId < id := by
  induction bullets with
  | nil => simp [Ledger.of]
  | cons b bullets ih =>
    rw [List.flatMap_cons, Ledger.made_append, List.forall_mem_append]
    obtain ⟨-, ⟨-, news, tallied⟩, -⟩ := Bullet.together_update (deals_totals s.world) b s
      (s.noting []) ⟨⟨rfl, [], .nil _⟩, rfl⟩
    exact ⟨tallied.new, ih⟩

namespace Moved

variable {t' : Stage (Arena F)} {bullets' : List (Bullet F)} {calls calls' : Calls F}
  {news news' : List Nat} (moved : Moved s bullets t calls news)
  (moved' : Moved s bullets' t' calls' news')

include moved

theorem world_eq : t.world = s.world.enter (.of calls) news := by
  rw [moved.world, moved.reads.random]
  rfl

variable (fit : Fit p bullets s.world)

include fit

theorem returned : (ids (Ledger.of calls).given ++
    (Ledger.of calls).gone.filter (s.world.lastId < ·)).Perm (Ledger.of calls).made :=
  moved.dealt.returned moved.new fit.known

theorem returned_once : (ids (Ledger.of calls).given ++
    (Ledger.of calls).gone.filter (s.world.lastId < ·)).Nodup := by
  rw [(moved.returned fit).nodup_iff, moved.numbers]
  exact List.nodup_range'

/-- Removals of entities that were made meanwhile are as many as of these were not given off. -/
theorem length_lost : (news.filter (s.world.lastId < ·)).length + (Ledger.of calls).given.length =
    (Ledger.of calls).made.length := by
  have lost : (news.filter (s.world.lastId < ·)).Perm
      ((Ledger.of calls).gone.filter (s.world.lastId < ·)) := by
    have once := (List.nodup_append.1 (moved.returned_once fit)).2.1
    refine (List.perm_ext_iff_of_nodup (moved.once.filter _) once).2 fun id => ?_
    have old := fit.old id
    simp only [List.mem_filter, moved.removed, decide_eq_true_eq]
    grind
  have length := (moved.returned fit).length_eq
  simp only [List.length_append, ids, List.length_map] at length
  rw [lost.length_eq]
  omega

theorem given_stays : ∀ b ∈ (Ledger.of calls).given, s.world.lastId < b.entity.id ∧
    b.entity.id ∉ t.world.removed := by
  intro b inside
  have given : b.entity.id ∈ ids (Ledger.of calls).given := List.mem_map_of_mem inside
  have new := moved.new _ ((moved.returned fit).subset (List.mem_append_left _ given))
  refine ⟨new, ?_⟩
  rw [moved.removed_eq, List.mem_append, moved.removed]
  rintro (⟨gone, -⟩ | removed)
  · exact (List.nodup_append.1 (moved.returned_once fit)).2.2 _ given _
      (List.mem_filter.2 ⟨gone, decide_eq_true new⟩) rfl
  · exact absurd (fit.old _ removed) (Nat.not_le.2 new)

theorem given_anonymous : (Ledger.of calls).given.map (anonymous s.world.lastId) =
    (Ledger.of calls).given.map Bullet.blank :=
  List.map_congr_left fun b inside => if_pos (moved.given_stays fit b inside).1

theorem left : (news.filter fun id => some id = s.world.root?) = [] := by
  refine List.filter_eq_nil_iff.2 fun id inside same => ?_
  have same := of_decide_eq_true same
  obtain ⟨old, other⟩ := fit.root id same.symm
  rcases moved.dealt.gone _ ((moved.removed id).1 inside).1 with own | made
  · exact other own
  · exact Nat.lt_irrefl _ (Nat.lt_of_lt_of_le (moved.new _ made) old)

theorem putBack_others (after : List (Bullet F)) :
    { putBack after t.world with bullets := #[] } =
      ({ s.world with
        lastId := s.world.lastId + (Ledger.of calls).made.length
        bullets := #[]
        moving := 0
        removed := s.world.removed.filter fun id => some id = s.world.root?
        report.spawned := s.world.report.spawned + (Ledger.of calls).given.length
        report.removed := s.world.report.removed + news.length
        report.spawnedByPattern := (Ledger.of calls).given.foldl
          (fun counts b => counts.add (b.entity.spawnedAs?.getD Entity.unnamed))
          s.world.report.spawnedByPattern } : Arena F) := by
  rw [moved.world_eq]
  simp only [putBack, enter, List.filter_append, Arena.mk.injEq, true_and, and_true]
  exact congrArg (· ++ _) (moved.left fit)

theorem putBack_bullets (empty : s.world.bullets = #[]) :
    (putBack (bullets.map (afterwards s)) t.world).bullets.toList =
      ((bullets.map (afterwards s)).filter fun b => b.entity.id ∉ t.world.removed) ++
        (Ledger.of calls).given := by
  have given : t.world.bullets.toList = (Ledger.of calls).given := by
    rw [moved.world_eq, enter, empty, Array.empty_append]
  rw [Kept.putBack_bullets, List.filter_append, given]
  refine congrArg _ (List.filter_eq_self.2 fun b inside => decide_eq_true ?_)
  exact (moved.given_stays fit b inside).2

variable (fit' : Fit p bullets' s.world) (reordered : bullets.Perm bullets')

include moved' fit' reordered

omit fit fit' in
theorem evened : (Ledger.of calls).Evened s.world.lastId (Ledger.of calls') :=
  ((moved.dealt.evened (asked_new s bullets) moved.new).symm.trans (.flatMap _ reordered)).trans
    (moved'.dealt.evened (asked_new s bullets') moved'.new)

theorem length_news : news.length = news'.length := by
  have evened := moved.evened moved' reordered
  have lost := moved.length_lost fit
  have lost' := moved'.length_lost fit'
  have given := evened.given.length_eq
  have known : (news.filter fun id => ! decide (s.world.lastId < id)).Perm
      (news'.filter fun id => ! decide (s.world.lastId < id)) := by
    refine (List.perm_ext_iff_of_nodup (moved.once.filter _) (moved'.once.filter _)).2 fun id => ?_
    have gone := evened.gone id
    simp only [List.mem_filter, moved.removed, moved'.removed]
    grind
  have made := evened.made
  have split := List.length_eq_length_filter_add (l := news) (s.world.lastId < ·)
  have split' := List.length_eq_length_filter_add (l := news') (s.world.lastId < ·)
  have same := known.length_eq
  simp only [List.length_map] at given
  omega

omit fit in
theorem filter_stay :
    ((bullets'.map (afterwards s)).filter fun b => b.entity.id ∉ t'.world.removed) =
      (bullets'.map (afterwards s)).filter fun b => b.entity.id ∉ t.world.removed := by
  refine List.filter_congr fun b inside => ?_
  have member : b.entity.id ∈ ids bullets' :=
    ids_afterwards s bullets' ▸ List.mem_map_of_mem inside
  have gone := (moved.evened moved' reordered).gone _ (fit'.known _ member)
  rw [moved.removed_eq, moved'.removed_eq, decide_eq_decide, List.mem_append, List.mem_append,
    moved.removed, moved'.removed, gone]

theorem rearranged (empty : s.world.bullets = #[]) :
    (putBack (bullets.map (afterwards s)) t.world).Rearranged s.world.lastId
      (putBack (bullets'.map (afterwards s)) t'.world) where
  others := by
    have evened := moved.evened moved' reordered
    have given := evened.given.length_eq
    have length := moved.length_news moved' fit fit' reordered
    have names := evened.names s.world.report.spawnedByPattern
    simp only [List.length_map] at given
    rw [moved.putBack_others fit, moved'.putBack_others fit', evened.made, given, length, names]
  bullets := by
    have evened := moved.evened moved' reordered
    simp only [moved.putBack_bullets fit empty, moved'.putBack_bullets fit' empty, List.map_append]
    refine .append ?_ ?_
    · rw [moved.filter_stay moved' fit' reordered]
      exact ((reordered.map _).filter _).map _
    · rw [moved.given_anonymous fit, moved'.given_anonymous fit']
      exact evened.given

end Moved

/-! ## Ticks -/

theorem Fit.perm {a : Arena F} {bullets' : List (Bullet F)} (fit : Fit p bullets a)
    (reordered : bullets.Perm bullets') : Fit p bullets' a := by
  have numbers : (ids bullets).Perm (ids bullets') := reordered.map _
  refine ⟨?_, numbers.nodup_iff.1 fit.distinct, ?_, ?_, fit.old, ?_⟩
  · exact fun b inside => fit.lives b (reordered.mem_iff.2 inside)
  · exact fun id inside => fit.known id (numbers.mem_iff.2 inside)
  · exact fun id inside => fit.here id (numbers.mem_iff.2 inside)
  · exact fun id root => (fit.root id root).imp_right (mt numbers.mem_iff.2)

structure Grown (a w : Arena F) : Prop where
  moving : w.moving = a.moving
  limit : w.maxEntities = a.maxEntities
  bullets : w.bullets.size + a.report.spawned = a.bullets.size + w.report.spawned

theorem parts_grown (a : Arena F) : host.Parts (Grown a) host where
  others := ⟨_, rfl⟩
  create _ _ := rfl
  created {w} grown wanted := by
    change Grown a (create wanted w).2
    by_cases full : w.maxEntities ≤ w.alive
    · rw [create_of_full wanted full]
      exact { grown with }
    · rw [create_of_free wanted full]
      exact { grown with }
  spawned {w} grown b := by
    have bullets := grown.bullets
    refine ⟨grown.moving, grown.limit, ?_⟩
    change (w.bullets.push b).size + _ = _ + (w.report.spawned + 1)
    rw [Array.size_push]
    omega
  removed {w} grown e := by
    change Grown a (remove e w)
    unfold remove
    split
    · exact grown
    · exact { grown with }
  drawn grown := { grown with }

omit [Scalar F] in
theorem Grown.full_iff {a w : Arena F} (grown : (takeOut a).2.Grown w) :
    w.Full ↔ a.maxEntities ≤ a.bullets.size + (w.report.spawned - a.report.spawned) := by
  have moving : w.moving = a.bullets.size := grown.moving
  have limit : w.maxEntities = a.maxEntities := grown.limit
  have bullets : w.bullets.size + a.report.spawned = 0 + w.report.spawned := grown.bullets
  unfold Full alive
  omega

theorem run_tick (a : Arena F) (j : Journal) : (tick.run ⟨a, j⟩).2.world =
    let r := (a.bullets.toList.mapM (moveWith host)).run ⟨(takeOut a).2, j⟩
    putBack r.1 r.2.world := rfl

/-- As long as there is room left, a tick comes to the same in whatever order the bullets are held,
but for the numbers of those that are fired. -/
theorem rearranged_tick (steady : p.Steady) {a : Arena F} (fit : Fit p a.bullets.toList a)
    (reordered : a.bullets.toList.Perm bullets) (j : Journal) :
    let t := (tick.run ⟨a, j⟩).2.world
    let t' := (tick.run ⟨{ a with bullets := bullets.toArray }, j⟩).2.world
    a.bullets.size + (t.report.spawned - a.report.spawned) < a.maxEntities →
      t.Rearranged a.lastId t' := by
  intro t t' below
  let s : Stage (Arena F) := ⟨(takeOut a).2, j⟩
  have before : Fit p a.bullets.toList s.world := { fit with }
  have before' := before.perm reordered
  obtain ⟨u, calls, news, moved⟩ := exists_moved steady before.lives before.distinct before.known
    before.here
  obtain ⟨u', calls', news', moved'⟩ := exists_moved steady before'.lives before'.distinct
    before'.known before'.here
  have first : t = _ := run_tick a j
  have other : t' = _ := run_tick { a with bullets := bullets.toArray } j
  have same : (takeOut { a with bullets := bullets.toArray }).2 = (takeOut a).2 := by
    simp [takeOut, ← reordered.length_eq]
  rw [same] at other
  -- there is room left, so all goes as if there always were
  have room : ¬ ((a.bullets.toList.mapM (moveWith host)).run s).2.world.Full := by
    rw [((shortOf_moveAll (parts_grown s.world) a.bullets.toList s).1 ⟨rfl, rfl, rfl⟩).full_iff]
    rw [first] at below
    exact Nat.not_le.2 below
  have ran := (shortOf_moveAll parts_boundless a.bullets.toList s).2 room
  rw [moved.ran] at ran
  rw [← ran] at room first
  have room' : ¬ u'.world.Full := by
    have given := (moved.evened moved' reordered).given.length_eq
    have alike : u'.world.Full ↔ u.world.Full := by
      rw [moved.world_eq, moved'.world_eq]
      simp_all [Full, alive, enter]
    exact mt alike.1 room
  have ran' := (shortOf_moveAll boundless_parts bullets s).2 (by rwa [moved'.ran])
  rw [moved'.ran] at ran'
  have other : t' = putBack (bullets.map (afterwards s)) u'.world := by
    refine other.trans ?_
    change (let r := (bullets.mapM (moveWith host)).run s; putBack r.1 r.2.world) = _
    rw [ran']
  rw [first, other]
  exact moved.rearranged moved' before before' reordered rfl

end Arena

variable [Scalar F] {p : Pattern}

open Arena in
/-- Without random numbers, bullets do not see each other. Where a host treats all alike, each comes
to the same in whatever order they are moved, and the host is asked for the same but for numbers
and order. So in a simulation, as long as there is room left, a tick does not depend on the order
in which the bullets are held. -/
theorem Pattern.Steady.any_order (steady : p.Steady) :
    (∀ {σ : Type} {among : σ → Prop} {h : Host F σ}, h.Impartial among →
      ∀ {bullets bullets' : List (Bullet F)}, (∀ b ∈ bullets, b.Lives p) →
      bullets.Perm bullets' → ∀ {s s' : Stage σ}, among s.world → among s'.world →
        AnyOrder (Bullet.step h) (Bullet.step h.recorded) bullets bullets' s s' ∧
        AnyOrder (Bullet.update h) (Bullet.update h.recorded) bullets bullets' s s') ∧
    ∀ {a : Arena F} {bullets : List (Bullet F)}, Fit p a.bullets.toList a →
      a.bullets.toList.Perm bullets → ∀ j,
        let t := (tick.run ⟨a, j⟩).2.world
        let t' := (tick.run ⟨{ a with bullets := bullets.toArray }, j⟩).2.world
        a.bullets.size + (t.report.spawned - a.report.spawned) < a.maxEntities →
          t.Rearranged a.lastId t' := by
  refine ⟨fun impartial _ _ lives reordered _ _ here there => ⟨?_, ?_⟩, fun fit reordered j =>
    rearranged_tick steady fit reordered j⟩
  · exact Impartially.anyOrder
      (fun b inside => Bullet.impartially_step impartial steady (lives b inside)) reordered here
      there
  · exact Impartially.anyOrder
      (fun b inside => Bullet.impartially_update impartial steady (lives b inside)) reordered here
      there

/-! ## Two small bullets -/

namespace Sample

def soon (id : Nat) : Bullet Int :=
  { bullet with entity := { bullet.entity with id, timeScale := 5 } }

def numbered (id : Nat) : Bullet Int := { fan with entity := { fan.entity with id } }

def arena : Arena Int where
  lastId := 2
  target := ⟨0, 0⟩
  rank := 0
  maxEntities := 8
  random := .ofList []
  bullets := #[soon 1, soon 2]

theorem lives_soon (id : Nat) : (soon id).Lives pattern :=
  ⟨bullet, [], bound, rfl, .write (.refl bullet) _⟩

theorem lives_numbered (id : Nat) : (numbered id).Lives fanPattern :=
  ⟨fan, [], bound_fan, rfl, .write (.refl fan) _⟩

theorem fit_arena : Arena.Fit pattern arena.bullets.toList arena where
  lives b inside := by
    have either : b = soon 1 ∨ b = soon 2 := by simpa [arena] using inside
    rcases either with rfl | rfl <;> exact lives_soon _
  distinct := by decide
  known := by decide
  here := by decide
  old := by decide
  root := nofun

end Sample

open scoped Sample in
open Sample in
/-- Two bullets that fire do not see each other where there always is room. In a simulation two
bullets that are done may be held in either order. -/
theorem Pattern.Steady.any_order_of_two :
    fanPattern.Steady ∧
    AnyOrder (Bullet.update Arena.boundless) (Bullet.update Arena.boundless.recorded)
      [numbered 1, numbered 2] [numbered 2, numbered 1] ⟨arena, {}⟩ ⟨arena, {}⟩ ∧
    pattern.Steady ∧ Arena.Fit pattern arena.bullets.toList arena ∧
    (Arena.tick.run ⟨arena, {}⟩).2.world.Rearranged 2
      (Arena.tick.run ⟨{ arena with bullets := #[soon 2, soon 1] }, {}⟩).2.world := by
  have steady : pattern.Steady := by unfold Pattern.Steady; decide
  have steady' : fanPattern.Steady := by unfold Pattern.Steady; decide
  refine ⟨steady', ?_, steady, fit_arena, ?_⟩
  · have lives : ∀ b ∈ [numbered 1, numbered 2], b.Lives fanPattern := by
      intro b inside
      have either : b = numbered 1 ∨ b = numbered 2 := by simpa using inside
      rcases either with rfl | rfl <;> exact lives_numbered _
    have once := Arena.impartial_boundless arena
    exact ((any_order steady').1 once lives (.swap _ _ _) ⟨rfl, rfl, rfl⟩ ⟨rfl, rfl, rfl⟩).2
  · exact (any_order steady).2 fit_arena (.swap _ _ _) {} (by decide +kernel)

end Barrage
