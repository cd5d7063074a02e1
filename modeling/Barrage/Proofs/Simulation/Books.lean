import Barrage.Proofs.Simulation.Ledger

/-!
The books of a simulation agree with its world, call by call. Bullets are moved one after the other:
some were moved and others wait for it. What is removed and not gone yet is the emitter's entity, an
entity for which there is no bullet, or that of a bullet that was moved in this tick.
-/

set_option autoImplicit false

namespace Barrage

variable {F : Type}

def NameCounts.total : NameCounts → Nat
  | [] => 0
  | (_, n) :: rest => n + NameCounts.total rest

theorem NameCounts.total_add (name : String) (counts : NameCounts) :
    (counts.add name).total = counts.total + 1 := by
  induction counts with
  | nil => rfl
  | cons head rest ih =>
    obtain ⟨k, n⟩ := head
    unfold NameCounts.add
    split
    · exact Nat.add_comm 1 _
    split
    · exact Nat.add_right_comm n 1 _
    · exact congrArg (n + ·) ih

namespace Arena

/-- The books agree with the world, while some bullets were moved and others wait to be moved. -/
structure Booked (p : Pattern) (root : Nat) (l : Ledger F) (moved waiting : List (Bullet F))
    (a : Arena F) : Prop where
  fresh : ∀ id ∈ root :: l.made, id ≤ a.lastId
  distinct : (root :: l.made).Nodup
  once : (ids l.given).Nodup
  given : ∀ id ∈ ids l.given, id ∈ l.made
  gone : ∀ id ∈ l.gone, id ∈ root :: l.made
  noted : ∀ id ∈ a.removed, id ∈ l.gone
  notedOnce : a.removed.Nodup
  pending : ∀ id ∈ a.removed, id ∈ ids l.given → id ∈ ids moved
  rootNoted : a.root? ≠ none → root ∈ l.gone → root ∈ a.removed
  rootKnown : ∀ id ∈ a.root?, id = root
  holds : ids (moved ++ waiting ++ a.bullets.toList) =
    (ids l.given).filter fun id => id ∈ a.removed ∨ id ∉ l.gone
  alike : ∀ b ∈ moved ++ waiting ++ a.bullets.toList, b.pattern = p ∧ b.emitter = emitterId
  spawned : a.report.spawned = l.given.length
  counted : a.report.removed = l.gone.toFinset.card
  named : a.report.spawnedByPattern.total = a.report.spawned

structure Loose (l : Ledger F) (id : Nat) : Prop where
  made : id ∈ l.made
  free : id ∉ ids l.given
  here : id ∉ l.gone

structure Removable (root : Nat) (l : Ledger F) (moved : List (Bullet F)) (a : Arena F)
    (id : Nat) : Prop where
  known : id ∈ root :: l.made
  noted : id ∈ l.gone → id ∈ a.removed
  moved : id ∈ ids l.given → id ∈ ids moved

variable {p : Pattern} {root id : Nat} {l : Ledger F} {moved waiting : List (Bullet F)}
  {a : Arena F}

/-! ## One call -/

theorem exists_remove (e : Entity F) (a : Arena F) : ∃ removed count,
    remove e a = { a with removed, report.removed := count } ∧
      (∀ id, id ∈ removed ↔ id = e.id ∨ id ∈ a.removed) ∧ (a.removed.Nodup → removed.Nodup) ∧
      count = a.report.removed + if e.id ∈ a.removed then 0 else 1 := by
  unfold remove
  by_cases noted : e.id ∈ a.removed
  · rw [if_pos (List.contains_iff_mem.2 noted), if_pos noted]
    refine ⟨a.removed, a.report.removed, rfl, fun id => ?_, id, rfl⟩
    exact (or_iff_right_of_imp fun same => same ▸ noted).symm
  · rw [if_neg (mt List.contains_iff_mem.1 noted), if_neg noted]
    exact ⟨_, _, rfl, fun id => List.mem_cons, List.nodup_cons.2 ∘ .intro noted, rfl⟩

theorem Loose.removable (loose : Loose l id) : Removable root l moved a id where
  known := List.mem_cons_of_mem _ loose.made
  noted gone := absurd gone loose.here
  moved inside := absurd inside loose.free

theorem of_create [Scalar F] {wanted : Emission F} {e : Entity F}
    (answer : (create wanted a).1 = some e) :
    ¬ a.maxEntities ≤ a.alive ∧ e.id = a.lastId + 1 ∧ e.emitter? = some wanted.emitter := by
  by_cases full : a.maxEntities ≤ a.alive
  · rw [create_of_full wanted full] at answer
    cases answer
  · rw [create_of_free wanted full] at answer
    cases answer
    exact ⟨full, rfl, rfl⟩

namespace Removable

variable {own : Nat}

theorem spawn {b : Bullet F} (removable : Removable root l moved a own)
    (other : own ≠ b.entity.id) :
    Removable root { l with given := l.given ++ [b] } moved (Arena.spawn b a) own where
  known := removable.known
  noted := removable.noted
  moved inside := by
    have either : own ∈ ids l.given ∨ own = b.entity.id := by simpa [ids] using inside
    exact removable.moved (either.resolve_right other)

theorem remove (removable : Removable root l moved a own) (e : Entity F) :
    Removable root { l with gone := l.gone ++ [e.id] } moved (Arena.remove e a) own where
  known := removable.known
  noted gone := by
    obtain ⟨removed, count, same, mem, -⟩ := exists_remove e a
    rw [same]
    refine (mem own).2 ?_
    rcases List.mem_append.1 gone with gone | own
    · exact .inr (removable.noted gone)
    · exact .inl (List.mem_singleton.1 own)
  moved := removable.moved

end Removable

namespace Booked

theorem spawn (booked : Booked p root l moved waiting a) {b : Bullet F}
    (loose : Loose l b.entity.id) (pattern : b.pattern = p) (belongs : b.emitter = emitterId) :
    Booked p root { l with given := l.given ++ [b] } moved waiting (Arena.spawn b a) := by
  have pushed : moved ++ waiting ++ (Arena.spawn b a).bullets.toList =
      moved ++ waiting ++ a.bullets.toList ++ [b] := by
    rw [Arena.spawn, Array.toList_push, ← List.append_assoc]
  have longer : ids (l.given ++ [b]) = ids l.given ++ [b.entity.id] := ids_append _ _
  have either : ∀ {id}, id ∈ ids (l.given ++ [b]) → id ∈ ids l.given ∨ id = b.entity.id := by
    intro id inside
    rwa [longer, List.mem_append, List.mem_singleton] at inside
  exact { booked with
    once := by
      rw [longer, ← List.concat_eq_append]
      exact booked.once.concat loose.free
    given := by
      intro id inside
      rcases either inside with inside | rfl
      · exact booked.given id inside
      · exact loose.made
    pending := by
      intro id removed inside
      rcases either inside with inside | rfl
      · exact booked.pending id removed inside
      · exact absurd (booked.noted _ removed) loose.here
    holds := by
      rw [pushed, ids_append, booked.holds, longer, List.filter_append]
      congr 1
      exact (List.filter_eq_self.2 (by simpa [ids] using .inr loose.here)).symm
    alike := by
      intro b' inside
      rw [pushed, List.mem_append, List.mem_singleton] at inside
      rcases inside with inside | rfl
      · exact booked.alike b' inside
      · exact ⟨pattern, belongs⟩
    spawned := by
      rw [List.length_append]
      exact congrArg (· + 1) booked.spawned
    named := (NameCounts.total_add _ _).trans (congrArg (· + 1) booked.named) }

theorem remove (booked : Booked p root l moved waiting a) {e : Entity F}
    (removable : Removable root l moved a e.id) :
    Booked p root { l with gone := l.gone ++ [e.id] } moved waiting (Arena.remove e a) := by
  obtain ⟨removed, count, same, mem, once, counted⟩ := exists_remove e a
  have either : ∀ {id}, id ∈ l.gone ++ [e.id] ↔ id ∈ l.gone ∨ id = e.id := by
    simp
  rw [same]
  exact { booked with
    gone := by
      intro id gone
      rcases either.1 gone with gone | rfl
      · exact booked.gone id gone
      · exact removable.known
    noted := by
      intro id inside
      rcases (mem id).1 inside with rfl | inside
      · exact either.2 (.inr rfl)
      · exact either.2 (.inl (booked.noted id inside))
    notedOnce := once booked.notedOnce
    pending := by
      intro id inside
      rcases (mem id).1 inside with rfl | inside
      · exact removable.moved
      · exact booked.pending id inside
    rootNoted := by
      intro held gone
      rcases either.1 gone with gone | rfl
      · exact (mem root).2 (.inr (booked.rootNoted held gone))
      · exact (mem _).2 (.inl rfl)
    holds := by
      refine booked.holds.trans (List.filter_congr fun id _ => ?_)
      rw [decide_eq_decide, mem, either]
      by_cases own : id = e.id
      · subst own
        have kept : e.id ∈ a.removed ∨ e.id ∉ l.gone := by
          by_cases gone : e.id ∈ l.gone
          · exact .inl (removable.noted gone)
          · exact .inr gone
        exact iff_of_true kept (.inl (.inl rfl))
      · simp [own]
    counted := by
      have grown : (l.gone ++ [e.id]).toFinset = insert e.id l.gone.toFinset := by
        ext id
        simp
      rw [grown, counted, booked.counted]
      by_cases noted : e.id ∈ a.removed
      · rw [if_pos noted, Finset.insert_eq_of_mem (List.mem_toFinset.2 (booked.noted _ noted))]
        rfl
      -- a removal that is not noted is the first one, for what is gone cannot be removed again
      · rw [if_neg noted, Finset.card_insert_of_notMem fun gone =>
          noted (removable.noted (List.mem_toFinset.1 gone))] }

variable [Scalar F] {wanted : Emission F}

theorem refused (booked : Booked p root l moved waiting a) (full : a.maxEntities ≤ a.alive) :
    Booked p root l moved waiting (Arena.create wanted a).2 := by
  rw [create_of_full wanted full]
  exact { booked with }

theorem fresh_of_create (booked : Booked p root l moved waiting a) {e : Entity F}
    (answer : (Arena.create wanted a).1 = some e) : e.id ∉ root :: l.made := by
  intro known
  have before := booked.fresh _ known
  rw [(of_create answer).2.1] at before
  exact absurd before (Nat.not_succ_le_self _)

theorem made (booked : Booked p root l moved waiting a) {e : Entity F}
    (answer : (Arena.create wanted a).1 = some e) :
    Booked p root { l with made := l.made ++ [e.id] } moved waiting (Arena.create wanted a).2 := by
  obtain ⟨free, number, -⟩ := of_create answer
  have new := booked.fresh_of_create answer
  rw [number] at new ⊢
  rw [create_of_free wanted free]
  exact { booked with
    fresh := by
      intro id known
      rw [← List.cons_append, List.mem_append, List.mem_singleton] at known
      rcases known with known | rfl
      · exact Nat.le_succ_of_le (booked.fresh id known)
      · exact Nat.le_refl _
    distinct := by
      rw [← List.cons_append, ← List.concat_eq_append]
      exact booked.distinct.concat new
    given := fun id inside => List.mem_append_left _ (booked.given id inside)
    gone := by
      intro id gone
      rw [← List.cons_append]
      exact List.mem_append_left _ (booked.gone id gone) }

theorem loose (booked : Booked p root l moved waiting a) {e : Entity F}
    (answer : (Arena.create wanted a).1 = some e) :
    Loose { l with made := l.made ++ [e.id] } e.id where
  made := by simp
  free inside :=
    booked.fresh_of_create answer (List.mem_cons_of_mem _ (booked.given _ inside))
  here gone := booked.fresh_of_create answer (booked.gone _ gone)

end Booked

/-! ## Dealings -/

section Dealings

variable [Scalar F] {own : Nat} {wanted : Emission F} {log part : Calls F}

theorem create_removed (wanted : Emission F) (a : Arena F) :
    (create wanted a).2.removed = a.removed := by
  by_cases full : a.maxEntities ≤ a.alive
  · rw [create_of_full wanted full]
  · rw [create_of_free wanted full]

theorem Removable.made (removable : Removable root l moved a own) :
    Removable root { l with made := l.made ++ [id] } moved (create wanted a).2 own where
  known := by
    rw [← List.cons_append]
    exact List.mem_append_left _ removable.known
  noted gone := create_removed wanted a ▸ removable.noted gone
  moved := removable.moved

/-- An entity that could not be bound was removed as soon as it was made. -/
def Failed (p : Pattern) (log : Calls F) (id : Nat) : Prop :=
  ∃ wanted made e, [.create wanted (some made), .remove e] <:+: log ∧ made.id = id ∧ e.id = id ∧
    Bullet.Unbindable host p emitterId e

theorem Failed.mono {more : Calls F} (failed : Failed p log id) (part : log <:+: more) :
    Failed p more id := by
  obtain ⟨wanted, made, e, inside, rest⟩ := failed
  exact ⟨wanted, made, e, inside.trans part, rest⟩

theorem Failed.gone (failed : Failed p log id) : id ∈ (Ledger.of log).gone := by
  obtain ⟨wanted, made, e, inside, -, same, -⟩ := failed
  exact Ledger.mem_gone.2 ⟨e, inside.subset (by simp), same⟩

/-- Entities that were made came back in bullets or could not be bound. -/
def Settled (p : Pattern) (log : Calls F) : Prop :=
  ∀ id ∈ (Ledger.of log).made, id ∈ ids (Ledger.of log).given ∨ Failed p log id

theorem Settled.nil (p : Pattern) : Settled p ([] : Calls F) := nofun

theorem Settled.append {more : Calls F} (first : Settled p log) (next : Settled p more) :
    Settled p (log ++ more) := by
  intro id made
  rw [Ledger.given_append, ids_append, List.mem_append]
  rcases List.mem_append.1 (Ledger.made_append log more ▸ made) with made | made
  · exact (first id made).imp .inl (Failed.mono · (List.prefix_append log more).isInfix)
  · exact (next id made).imp .inr (Failed.mono · (List.suffix_append log more).isInfix)

theorem Settled.of_dealing (dealing : Dealing host p emitterId own part)
    (answers : a.Answers part) : Settled p part := by
  cases dealing with
  | refused | removed => nofun
  | detached detached => exact absurd (of_create answers.1).2.2 detached
  | @unbound wanted made e same unbindable =>
    intro id inside
    obtain rfl : id = made.id := by simpa [Ledger.of, Ledger.enter] using inside
    exact .inr ⟨wanted, made, e, List.infix_rfl, rfl, same, unbindable⟩
  | @given _ made b same =>
    intro id inside
    obtain rfl : id = made.id := by simpa [Ledger.of, Ledger.enter] using inside
    exact .inl (by simp [Ledger.of, Ledger.enter, ids, same])

/-- The books agree with the world after a dealing, and the own entity of whoever deals may still be
removed. -/
theorem Booked.dealing (booked : Booked p root l moved waiting a)
    (removable : Removable root l moved a own) (dealing : Dealing host p emitterId own part)
    (answers : a.Answers part) : Booked p root (part.foldl Ledger.enter l) moved waiting
      (part.foldl obey a) ∧
      Removable root (part.foldl Ledger.enter l) moved (part.foldl obey a) own := by
  cases dealing with
  | refused wanted =>
    have full : a.maxEntities ≤ a.alive := by
      by_contra free
      have answer := answers.1
      rw [AnswersOne, create_of_free wanted free] at answer
      cases answer
    refine ⟨booked.refused full, removable.known, fun gone => ?_, removable.moved⟩
    exact (create_removed wanted a).symm ▸ removable.noted gone
  | detached detached => exact absurd (of_create answers.1).2.2 detached
  | @unbound wanted made e same _ =>
    have loose := booked.loose answers.1
    rw [← same] at loose
    have after := (booked.made answers.1).remove (e := e) (same ▸ loose.removable)
    exact ⟨after, removable.made.remove e⟩
  | @given wanted made b same pattern belongs =>
    have loose := booked.loose answers.1
    have other : own ≠ b.entity.id := by
      rintro rfl
      exact booked.fresh_of_create answers.1 (same ▸ removable.known)
    exact ⟨(booked.made answers.1).spawn (same ▸ loose) pattern belongs,
      removable.made.spawn other⟩
  | @removed e same => exact ⟨booked.remove (same ▸ removable), removable.remove e⟩

theorem Booked.dealings (booked : Booked p root l moved waiting a)
    (removable : Removable root l moved a own) {calls : Calls F}
    (dealings : Dealings host p emitterId own calls) (answers : a.Answers calls) :
    Booked p root (calls.foldl Ledger.enter l) moved waiting (calls.foldl obey a) := by
  -- dealing by dealing, with the own entity of whoever deals still removable after each of them
  obtain ⟨parts, rfl, each⟩ := dealings
  induction parts generalizing l a with
  | nil => exact booked
  | cons part parts ih =>
    rw [List.flatten_cons, answers_append] at answers
    obtain ⟨booked, removable⟩ := booked.dealing removable (each part List.mem_cons_self) answers.1
    rw [List.flatten_cons, List.foldl_append, List.foldl_append]
    exact ih booked removable (fun part member => each part (List.mem_cons_of_mem _ member))
      answers.2

theorem Settled.of_dealings {calls : Calls F} (dealings : Dealings host p emitterId own calls)
    (answers : a.Answers calls) : Settled p calls := by
  obtain ⟨parts, rfl, each⟩ := dealings
  induction parts generalizing a with
  | nil => exact .nil p
  | cons part parts ih =>
    rw [List.flatten_cons, answers_append] at answers
    rw [List.flatten_cons]
    exact (Settled.of_dealing (each part List.mem_cons_self) answers.1).append
      (ih (fun part member => each part (List.mem_cons_of_mem _ member)) answers.2)

/-! ## A computation -/

theorem obey_bullets (a : Arena F) (c : Call F) :
    (a.obey c).bullets.toList = a.bullets.toList ++ (Ledger.of [c]).given ∧
      (a.obey c).root? = a.root? := by
  rcases c with ⟨wanted, made?⟩ | b | e
  · have same : (create wanted a).2.bullets = a.bullets ∧ (create wanted a).2.root? = a.root? := by
      by_cases full : a.maxEntities ≤ a.alive
      · rw [create_of_full wanted full]
        exact ⟨rfl, rfl⟩
      · rw [create_of_free wanted full]
        exact ⟨rfl, rfl⟩
    rw [obey, same.1, same.2]
    cases made? <;> simp [Ledger.of, Ledger.enter]
  · simp [obey, spawn, Ledger.of, Ledger.enter]
  · obtain ⟨removed, count, same, -⟩ := exists_remove e a
    rw [obey, same]
    simp [Ledger.of, Ledger.enter]

theorem foldl_obey_bullets (a : Arena F) (calls : Calls F) :
    (calls.foldl obey a).bullets.toList = a.bullets.toList ++ (Ledger.of calls).given ∧
      (calls.foldl obey a).root? = a.root? := by
  induction calls generalizing a with
  | nil => exact ⟨(List.append_nil _).symm, rfl⟩
  | cons c calls ih =>
    rw [List.foldl_cons, (ih _).1, (ih _).2, (obey_bullets a c).1, (obey_bullets a c).2,
      List.append_assoc, ← Ledger.given_append]
    exact ⟨rfl, rfl⟩

namespace Follows

variable {a' : Arena F} {calls : Calls F}

theorem bullets (follows : a.Follows calls a') :
    a'.bullets.toList = a.bullets.toList ++ (Ledger.of calls).given := by
  rw [← (foldl_obey_bullets a calls).1, ← follows.world]

theorem root? (follows : a.Follows calls a') : a'.root? = a.root? := by
  rw [← (foldl_obey_bullets a calls).2, ← follows.world]

theorem booked (follows : a.Follows calls a')
    (booked : Booked p root (Ledger.of log) moved waiting a)
    (removable : Removable root (Ledger.of log) moved a own)
    (dealings : Dealings host p emitterId own calls) :
    Booked p root (Ledger.of (log ++ calls)) moved waiting a' := by
  have after := booked.dealings removable dealings follows.answers
  rw [← Ledger.of_append, ← follows.world] at after
  exact { after with }

end Follows

end Dealings

end Arena

end Barrage
