import Barrage.Proofs.Host.Ticks

/-!
Who has the entities. An entity that a host makes on request goes back to it at once, in a bullet or
to be removed; an entity that is given to an emitter or a bullet is kept, or removed once.
-/

set_option autoImplicit false

namespace Barrage

variable {F σ : Type} [Scalar F]

/-! ## Emitters -/

namespace Emitter

inductive EntryDeal (h : Host F σ) (id : EmitterId) (p : Pattern) (position : Vec F)
    (entry : NodeId) : Calls F → Prop where
  | refused : EntryDeal h id p position entry [.create ⟨id, position⟩ none]
  | bound {made : Entity F} {b : Bullet F} {w : σ}
      (supplied : (h.create ⟨id, position⟩ w).1 = some made)
      (binds : b.Binds { made with position } p entry none id) :
      EntryDeal h id p position entry [.create ⟨id, position⟩ (some made), .spawn b]
  | failed {made : Entity F} {w : σ} {e : RunError} {s s' : Stage σ}
      (supplied : (h.create ⟨id, position⟩ w).1 = some made)
      (noPlan : (Plan.build h p [] entry).run s = (.error e, s')) :
      EntryDeal h id p position entry
        [.create ⟨id, position⟩ (some made), .remove { made with position }]

/-- What becomes of the entity that an emitter is made for, and what is asked meanwhile. -/
inductive Outcome (h : Host F σ) (id : EmitterId) (entity : Entity F) (p : Pattern) :
    Except RunError (Emitter F) → Calls F → Prop where
  | inactive (noEntry : p.entryPoints = []) :
      Outcome h id entity p (.ok { id, pattern := p, root? := none }) [.remove entity]
  | failed {first : NodeId} {further : List NodeId} {e : RunError} {s s' : Stage σ}
      (entries : p.entryPoints = first :: further)
      (noPlan : (Plan.build h p [] first).run s = (.error e, s')) :
      Outcome h id entity p (.error e) [.remove entity]
  | active {first : NodeId} {further : List NodeId} {root : Bullet F} {deals : List (Calls F)}
      (entries : p.entryPoints = first :: further) (binds : root.Binds entity p first none id)
      (others : List.Forall₂ (EntryDeal h id p entity.position) further deals) :
      Outcome h id entity p (.ok { id, pattern := p, root? := some root }) deals.flatten

variable (h : Host F σ) (id : EmitterId) (p : Pattern)

theorem records_addEntry (position : Vec F) (entry : NodeId) :
    Records Stage.noting (addEntry h id p position entry) (addEntry h.recorded id p position entry)
      fun _ _ _ calls => EntryDeal h id p position entry calls := by
  refine (Env.records_create h ⟨id, position⟩).followed fun made? => ?_
  cases made? with
  | none =>
    refine fun _ _ => ⟨[], by rw [List.append_nil]; rfl, ?_⟩
    rintro _ _ ⟨rfl, -⟩
    exact .refused
  | some made =>
    refine (Bullet.records_bind h { made with position } p entry none id).followed fun outcome => ?_
    cases outcome with
    | error e =>
      refine fun _ _ => ⟨[], by rw [List.append_nil]; rfl, ?_⟩
      rintro _ _ (_ | ⟨noPlan⟩) _ _ ⟨rfl, supplied⟩
      exact .failed supplied noPlan
    | ok b =>
      refine fun _ _ => ⟨[.spawn b], rfl, ?_⟩
      rintro _ _ ⟨binds⟩ _ _ ⟨rfl, supplied⟩
      exact .bound supplied binds

theorem records_further (position : Vec F) (entries : List NodeId) :
    Records Stage.noting (entries.forM (addEntry h id p position))
      (entries.forM (addEntry h.recorded id p position)) fun _ _ _ calls =>
        ∃ deals : List (Calls F), calls = deals.flatten ∧
          List.Forall₂ (EntryDeal h id p position) entries deals := by
  induction entries with
  | nil => exact (Silent.pure ()).records.mono fun _ _ _ _ ⟨_, silent⟩ => ⟨[], silent, .nil⟩
  | cons entry entries ih =>
    refine (records_addEntry h id p position entry).bind (fun _ => ih) ?_
    rintro _ _ _ _ _ calls _ deal ⟨deals, rfl, others⟩
    exact ⟨calls :: deals, rfl, .cons deal others⟩

theorem records_make (entity : Entity F) :
    Records Stage.noting (make h id entity p) (make h.recorded id entity p)
      fun _ outcome _ calls => Outcome h id entity p outcome calls := by
  unfold make
  split
  · next noEntry => exact fun _ _ => ⟨[.remove entity], rfl, .inactive noEntry⟩
  · next first further entries =>
    refine (Bullet.records_bind h entity p first none id).followed fun outcome => ?_
    cases outcome with
    -- if there is no plan for the first entry point, no further one is tried
    | error e =>
      refine fun _ _ => ⟨[], by rw [List.append_nil]; rfl, ?_⟩
      rintro _ _ (_ | ⟨noPlan⟩)
      exact .failed entries noPlan
    | ok root =>
      refine (records_further h id p entity.position further).followed fun _ => ?_
      refine fun _ _ => ⟨[], by rw [List.append_nil]; rfl, ?_⟩
      rintro _ _ ⟨deals, rfl, others⟩ _ _ ⟨binds⟩
      rw [List.append_nil]
      exact .active entries binds others

end Emitter

/-! ## Entities come back -/

/-- A dealing after which a host has back what it made, if it made anything. -/
inductive Returned : Calls F → Prop where
  | refused (wanted : Emission F) : Returned [.create wanted none]
  | spawned {wanted : Emission F} {made : Entity F} {b : Bullet F} (bound : b.Bound)
      (same : made.Same b.entity) : Returned [.create wanted (some made), .spawn b]
  | removed {wanted : Emission F} {made e : Entity F} (same : made.Same e) :
      Returned [.create wanted (some made), .remove e]

theorem Deal.returned {env : Env F σ} {frames : Frames F} {q : Plan F} {now : Entity F}
    {part : Calls F} (deal : Deal env frames q now part) :
    Returned part ∨ q.work = .vanish ∧ part = [.remove now] := by
  cases deal with
  | refused => exact .inl (.refused _)
  | detached => exact .inl (.removed (.refl _))
  | unbound _ _ same _ _ => exact .inl (.removed same)
  | fired _ _ same shot => exact .inl (.spawned shot.bound same)
  | vanished vanishes => exact .inr ⟨vanishes, rfl⟩

theorem Emitter.EntryDeal.returned {h : Host F σ} {id : EmitterId} {p : Pattern} {position : Vec F}
    {entry : NodeId} {part : Calls F} (deal : EntryDeal h id p position entry part) :
    Returned part := by
  cases deal with
  | refused => exact .refused _
  | bound _ binds => exact .spawned binds.bound (.trans (.moved_to _ _) binds.same)
  | failed => exact .removed (.moved_to _ _)

/-- Every entity that a host makes in a tick of a bullet or for an emitter is handed back at once
and once, in a bullet or to be removed. All else that is asked in a tick is to remove the bullet's
own entity where a task vanishes. An entity that is given away to be bound is kept in what is made
of it, or else removed once. -/
theorem Host.entities_come_back (h : Host F σ) :
    (∀ b : Bullet F, Records Stage.noting (b.step h) (b.step h.recorded) fun _ r _ calls =>
      b.entity.Same r.2.entity ∧ ∃ parts : List (Calls F), calls = parts.flatten ∧
        ∀ part ∈ parts, Returned part ∨ ∃ frames q now, b.plan.Holds b.scope frames q ∧
          q.work = .vanish ∧ b.entity.Same now ∧ part = [.remove now]) ∧
    (∀ entity p node scope? id, Records Stage.noting (Bullet.bind h entity p node scope? id)
      (Bullet.bind h.recorded entity p node scope? id) fun _ outcome _ calls =>
        match outcome with
        | .ok b => entity.Same b.entity ∧ calls = []
        | .error _ => calls = [.remove entity]) ∧
    (∀ id entity p, Records Stage.noting (Emitter.make h id entity p)
      (Emitter.make h.recorded id entity p) fun _ outcome _ calls =>
        match outcome.map Emitter.root? with
        | .ok (some root) => entity.Same root.entity ∧ ∃ parts : List (Calls F),
            calls = parts.flatten ∧ ∀ part ∈ parts, Returned part
        | .ok none | .error _ => calls = [.remove entity]) := by
  refine ⟨fun b => ?_, fun entity p node scope? id => ?_, fun id entity p => ?_⟩
  · refine (b.records_step h).mono ?_
    rintro _ ⟨_, _⟩ _ _ ⟨cell, entity, rfl, kept, parts, rfl, deals⟩
    refine ⟨kept, parts, rfl, fun part member => ?_⟩
    obtain ⟨now, same, frames, q, holds, deal⟩ := deals part member
    refine deal.returned.imp id ?_
    rintro ⟨vanishes, rfl⟩
    exact ⟨frames, q, now, holds, vanishes, same, rfl⟩
  · refine (Bullet.records_bind h entity p node scope? id).mono ?_
    rintro _ _ _ _ (⟨binds⟩ | ⟨-⟩)
    · exact ⟨binds.same, rfl⟩
    · rfl
  · refine (Emitter.records_make h id p entity).mono ?_
    rintro _ _ _ _ (⟨-⟩ | ⟨-⟩ | ⟨-, binds, others⟩)
    · rfl
    · rfl
    · refine ⟨binds.same, _, rfl, fun part member => ?_⟩
      obtain ⟨entry, -, deal⟩ := exists_of_mem_forall₂ others member
      exact deal.returned

/-! ## Attached entities -/

omit [Scalar F] in
theorem exists_dealing_around {parts : List (Calls F)} {before after : Calls F} {c : Call F}
    (same : parts.flatten = before ++ c :: after) :
    ∃ part ∈ parts, ∃ ahead behind, part = ahead ++ c :: behind ∧ behind <+: after := by
  induction parts generalizing before with
  | nil => simp at same
  | cons part parts ih =>
    rcases append_eq_split.1 same with ⟨behind, inside, rfl⟩ | ⟨before, -, rest⟩
    · exact ⟨part, List.mem_cons_self, before, behind, inside, List.prefix_append _ _⟩
    · obtain ⟨found, member, around⟩ := ih rest
      exact ⟨found, List.mem_cons_of_mem _ member, around⟩

omit [Scalar F] in
theorem split_of_two {first last c : Call F} {ahead behind : Calls F}
    (same : [first, last] = ahead ++ c :: behind) (notLast : c ≠ last) :
    c = first ∧ behind = [last] := by
  match ahead, same with
  | [], same =>
    cases same
    exact ⟨rfl, rfl⟩
  | [_], same =>
    cases same
    exact absurd rfl notLast
  | _ :: _ :: _, same => simp at same

/-- A deal about an entity that was made is for the emitter, and it is to remove an entity that is
not attached to it. -/
theorem Deal.made {env : Env F σ} {frames : Frames F} {q : Plan F} {now made : Entity F}
    {wanted : Emission F} {ahead behind : Calls F}
    (deal : Deal env frames q now (ahead ++ .create wanted (some made) :: behind)) :
    wanted.emitter = env.emitter ∧
      (made.emitter? ≠ some env.emitter → behind = [.remove made]) := by
  generalize same : ahead ++ .create wanted (some made) :: behind = part at deal
  -- nothing goes before the entity is made, and one call comes after it
  cases deal with
  | refused | vanished => cases ahead <;> simp at same
  | detached fires detached =>
    obtain ⟨first, rfl⟩ := split_of_two same.symm nofun
    cases first
    exact ⟨rfl, fun _ => rfl⟩
  | unbound fires attached | fired fires attached =>
    obtain ⟨first, rfl⟩ := split_of_two same.symm nofun
    cases first
    exact ⟨rfl, fun detached => absurd attached detached⟩

/-- What is asked for a further entry point after an entity was made for it, or was not. -/
theorem Emitter.EntryDeal.answered {h : Host F σ} {id : EmitterId} {p : Pattern} {position : Vec F}
    {entry : NodeId} {deal : Calls F} (asked : EntryDeal h id p position entry deal) :
    deal = [.create ⟨id, position⟩ none] ∨ ∃ made rest,
      deal = .create ⟨id, position⟩ (some made) :: rest ∧
      ((∃ b : Bullet F, rest = [.spawn b] ∧ b.node = entry ∧ b.emitter = id ∧
          b.entity.emitter? = made.emitter?) ∨
        rest = [.remove { made with position }] ∧
          ∃ s e s', (Plan.build h p [] entry).run s = (.error e, s')) := by
  cases asked with
  | refused => exact .inl rfl
  | @bound made b _ _ binds =>
    exact .inr ⟨made, _, rfl, .inl ⟨b, rfl, binds.node, binds.emitter, binds.same.emitter?⟩⟩
  | @failed made _ _ _ _ _ noPlan => exact .inr ⟨made, _, rfl, .inr ⟨rfl, _, _, _, noPlan⟩⟩

/-- A fire has an entity removed that the host did not attach to the emitter, so all bullets that
are fired have attached ones. For each further entry point of a pattern one entity is wanted, and
what the host makes is given off whatever emitter it is attached to, unless there is no plan. -/
theorem Host.only_fires_test_attachment (h : Host F σ) :
    (∀ b : Bullet F, Records Stage.noting (b.step h) (b.step h.recorded) fun _ _ _ calls =>
      (∀ b', .spawn b' ∈ calls → b'.emitter = b.emitter ∧
        b'.entity.emitter? = some b.emitter) ∧
      ∀ before wanted made after, calls = before ++ .create wanted (some made) :: after →
        wanted.emitter = b.emitter ∧
          (made.emitter? ≠ some b.emitter → [.remove made] <+: after)) ∧
    (∀ id entity p, Records Stage.noting (Emitter.make h id entity p)
      (Emitter.make h.recorded id entity p) fun _ outcome _ calls =>
        match outcome.map Emitter.root? with
        | .ok (some _) => ∃ deals : List (Calls F), calls = deals.flatten ∧
            List.Forall₂ (fun entry deal =>
              deal = [.create ⟨id, entity.position⟩ none] ∨ ∃ made rest,
                deal = .create ⟨id, entity.position⟩ (some made) :: rest ∧
                ((∃ b : Bullet F, rest = [.spawn b] ∧ b.node = entry ∧ b.emitter = id ∧
                    b.entity.emitter? = made.emitter?) ∨
                  rest = [.remove { made with position := entity.position }] ∧
                    ∃ s e s', (Plan.build h p [] entry).run s = (.error e, s')))
              p.entryPoints.tail deals
        | .ok none | .error _ => calls = [.remove entity]) := by
  refine ⟨fun b => (b.records_step h).mono ?_, fun id entity p =>
    (Emitter.records_make h id p entity).mono ?_⟩
  · rintro _ _ _ _ ⟨-, -, -, -, parts⟩
    refine ⟨fun b' spawned => ?_, fun before wanted made after same => ?_⟩
    · obtain ⟨_, _, -, -, attached, shot⟩ := exists_shot_of_spawn parts spawned
      exact ⟨shot.emitter, attached⟩
    · obtain ⟨parts, rfl, deals⟩ := parts
      obtain ⟨part, member, ahead, behind, rfl, follows⟩ := exists_dealing_around same
      obtain ⟨now, -, frames, q, -, deal⟩ := deals _ member
      obtain ⟨wanted', removed⟩ := deal.made
      exact ⟨wanted', fun detached => removed detached ▸ follows⟩
  · rintro _ _ _ _ (⟨-⟩ | ⟨-⟩ | ⟨entries, -, others⟩)
    · rfl
    · rfl
    · rw [entries]
      exact ⟨_, rfl, others.imp fun _ _ asked => asked.answered⟩

end Barrage
