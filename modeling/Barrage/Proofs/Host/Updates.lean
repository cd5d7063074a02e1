import Barrage.Proofs.Host.Custody

/-!
What updates ask, by the numbers of entities. Whatever is asked when a bullet or an emitter is
updated, or an emitter is made, falls into dealings with one entity each: the bullet's own one is
removed, or a new one is refused, given off in a bullet, or removed because it is not attached to
the emitter or because there is no plan for it.
-/

set_option autoImplicit false

namespace Barrage

variable {F σ : Type} [Scalar F]

structure Bullet.Later (b b' : Bullet F) : Prop where
  id : b'.entity.id = b.entity.id
  pattern : b'.pattern = b.pattern
  emitter : b'.emitter = b.emitter

def Bullet.Unbindable (h : Host F σ) (p : Pattern) (emitter : EmitterId) (e : Entity F) : Prop :=
  ∃ node scope? s error, ((Bullet.bind h e p node scope? emitter).run s).1 = .error error

theorem Bullet.unbindable_of_fails {h : Host F σ} {p : Pattern} {scope : Frames F} {node : NodeId}
    (noPlan : Plan.Fails h p scope node) (emitter : EmitterId) (e : Entity F) :
    Unbindable h p emitter e := by
  obtain ⟨s, error, s', built⟩ := noPlan
  refine ⟨node, some scope, s, error, ?_⟩
  rw [Bullet.bind, run_bind_eq]
  simp only [Option.getD_some, built]
  rfl

/-- What is asked about one entity by a bullet whose own entity has a number. -/
inductive Dealing (h : Host F σ) (p : Pattern) (emitter : EmitterId) (own : Nat) :
    Calls F → Prop where
  | refused (wanted : Emission F) : Dealing h p emitter own [.create wanted none]
  | detached {wanted : Emission F} {made : Entity F}
      (detached : made.emitter? ≠ some wanted.emitter) :
      Dealing h p emitter own [.create wanted (some made), .remove made]
  | unbound {wanted : Emission F} {made e : Entity F} (same : e.id = made.id)
      (unbindable : Bullet.Unbindable h p emitter e) :
      Dealing h p emitter own [.create wanted (some made), .remove e]
  | given {wanted : Emission F} {made : Entity F} {b : Bullet F} (same : b.entity.id = made.id)
      (pattern : b.pattern = p) (belongs : b.emitter = emitter) :
      Dealing h p emitter own [.create wanted (some made), .spawn b]
  | removed {e : Entity F} (same : e.id = own) : Dealing h p emitter own [.remove e]

def Dealings (h : Host F σ) (p : Pattern) (emitter : EmitterId) (own : Nat) (calls : Calls F) :
    Prop :=
  ∃ parts : List (Calls F), calls = parts.flatten ∧ ∀ part ∈ parts, Dealing h p emitter own part

variable {h : Host F σ} {p : Pattern} {emitter : EmitterId} {own : Nat}

theorem Dealings.single {part : Calls F} (dealing : Dealing h p emitter own part) :
    Dealings h p emitter own part := by
  refine ⟨[part], List.flatten_singleton.symm, ?_⟩
  intro part' member
  rwa [List.mem_singleton.1 member]

theorem Deal.dealing {b : Bullet F} {frames : Frames F} {q : Plan F} {now : Entity F}
    {part : Calls F} (deal : Deal (b.env h) frames q now part) (same : b.entity.Same now) :
    Dealing h b.pattern b.emitter b.entity.id part := by
  cases deal with
  | refused => exact .refused _
  | detached _ detached => exact .detached detached
  | unbound _ _ same _ noPlan => exact .unbound same.id (Bullet.unbindable_of_fails noPlan _ _)
  | fired _ _ same shot => exact .given same.id shot.pattern shot.emitter
  | vanished => exact .removed same.id

theorem Emitter.EntryDeal.dealing {position : Vec F} {entry : NodeId} {part : Calls F}
    (deal : EntryDeal h emitter p position entry part) (own : Nat) :
    Dealing h p emitter own part := by
  cases deal with
  | refused => exact .refused _
  | bound _ binds => exact .given binds.same.id binds.pattern binds.emitter
  | failed _ noPlan =>
    exact .unbound rfl (Bullet.unbindable_of_fails ⟨_, _, _, noPlan⟩ _ _)

/-! ## Updates -/

theorem Bullet.records_update (h : Host F σ) (b : Bullet F) :
    Records Stage.noting (b.update h) (b.update h.recorded) fun _ r _ calls =>
      b.Later r.2 ∧ Dealings h b.pattern b.emitter b.entity.id calls := by
  refine (b.records_step h).followed fun ⟨status, b'⟩ => ?_
  refine (Silent.pure _).records.mono ?_
  rintro _ _ _ _ ⟨⟨⟩, rfl⟩ _ calls ⟨cell, entity, rfl, same, parts, rfl, deals⟩
  rw [List.append_nil]
  refine ⟨⟨same.id, rfl, rfl⟩, parts, rfl, fun part member => ?_⟩
  obtain ⟨now, same, _, _, -, deal⟩ := deals part member
  exact deal.dealing same

inductive Emitter.Updated (h : Host F σ) (e : Emitter F) : Emitter F → Calls F → Prop where
  | unbound (noRoot : e.root? = none) : Updated h e e []
  | bound {b b' : Bullet F} {calls : Calls F} (root : e.root? = some b) (later : b.Later b')
      (dealings : Dealings h b.pattern b.emitter b.entity.id calls) :
      Updated h e { e with root? := some b' } calls

theorem Emitter.records_update (h : Host F σ) (position : Vec F) (e : Emitter F) :
    Records Stage.noting (e.update h position) (e.update h.recorded position) fun _ r _ calls =>
      e.Updated h r.2 calls := by
  unfold Emitter.update
  split
  · next noRoot =>
    refine (Silent.pure _).records.mono ?_
    rintro _ _ _ _ ⟨⟨⟩, rfl⟩
    exact .unbound noRoot
  · next b root =>
    refine (Bullet.records_update h { b with entity.position := position }).followed
      fun ⟨status, b'⟩ => ?_
    refine (Silent.pure _).records.mono ?_
    rintro _ _ _ _ ⟨⟨⟩, rfl⟩ _ calls ⟨⟨id, pattern, emitter⟩, dealings⟩
    rw [List.append_nil]
    exact .bound root ⟨id, pattern, emitter⟩ dealings

/-- What comes of making an emitter, and what was asked: the entity is removed, or it is the
emitter's. -/
theorem Emitter.Outcome.dealings {entity : Entity F} {outcome : Except RunError (Emitter F)}
    {calls : Calls F} (made : Outcome h emitter entity p outcome calls) :
    Dealings h p emitter entity.id calls ∧ ∀ e, outcome = .ok e → ∀ b ∈ e.root?,
      b.entity.id = entity.id ∧ b.pattern = p ∧ b.emitter = emitter := by
  cases made with
  | inactive =>
    refine ⟨.single (.removed rfl), ?_⟩
    rintro _ ⟨⟩ _ ⟨⟩
  | failed => exact ⟨.single (.removed rfl), nofun⟩
  | active entries binds others =>
    refine ⟨⟨_, rfl, fun part member => ?_⟩, ?_⟩
    · obtain ⟨_, -, deal⟩ := exists_of_mem_forall₂ others member
      exact deal.dealing _
    · rintro _ ⟨⟩ _ ⟨⟩
      exact ⟨binds.same.id, binds.pattern, binds.emitter⟩

end Barrage
