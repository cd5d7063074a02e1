import Barrage.Proofs.Host.CoupledTicks

/-!
Hosts that part. Two hosts only differ in how they make entities, and only once something is the
case, which then stays so. Short of that, bullets do the same with both.
-/

set_option autoImplicit false

namespace Barrage

variable {F σ α : Type} {spent : σ → Prop} {h h' : Host F σ}

/-- Two hosts answer and do the same, but for making entities once something is the case. -/
structure Host.Parts (spent : σ → Prop) (h h' : Host F σ) : Prop where
  others : ∃ create, h' = { h with create }
  create : ∀ {w}, ¬ spent w → ∀ wanted, h'.create wanted w = h.create wanted w
  created : ∀ {w}, spent w → ∀ wanted, spent (h.create wanted w).2
  spawned : ∀ {w}, spent w → ∀ b, spent (h.spawn b w)
  removed : ∀ {w}, spent w → ∀ e, spent (h.remove e w)
  drawn : ∀ {w}, spent w → spent (h.random w).2

/-- Worlds that are the same, and where something is the case if it was at some earlier time. -/
def Meanwhile (spent : σ → Prop) (earlier : Prop) (w w' : σ) : Prop :=
  w = w' ∧ (earlier → spent w)

theorem Host.Parts.settles (parts : h.Parts spent h') (earlier : Prop) :
    h.Settles (Meanwhile spent earlier) (Meanwhile spent earlier) h' := by
  obtain ⟨⟨create, rfl⟩, -, -, spawned, removed, drawn⟩ := parts
  refine ⟨⟨?_, ?_, ?_⟩, ?_, ?_⟩
  all_goals rintro w _ ⟨rfl, now⟩
  · exact fun _ => rfl
  · rfl
  · exact ⟨rfl, rfl, fun before => drawn (now before)⟩
  · exact fun b => ⟨rfl, fun before => spawned (now before) b⟩
  · exact fun e => ⟨rfl, fun before => removed (now before) e⟩

/-! ## Short of that -/

theorem Stage.shortOf {x x' : Staged σ α}
    (together : ∀ earlier, Together (Stage.Related (Meanwhile spent earlier)) x x') :
    (Link.shortOf fun s : Stage σ => spent s.world).Holds x x' := by
  intro s
  obtain ⟨result, ⟨world, stays⟩, journal⟩ := together (spent s.world) s s ⟨⟨rfl, id⟩, rfl⟩
  have stage : (x'.run s).2 = (x.run s).2 := congrArg₂ Stage.mk world.symm journal.symm
  exact ⟨stays, fun _ => Prod.ext result.symm stage⟩

theorem Actor.shortOf {x x' : Acting F σ α}
    (together : ∀ earlier, Together (Actor.Both (Meanwhile spent earlier)) x x') :
    (Link.shortOf fun a : Actor F σ => spent a.world).Holds x x' := by
  intro a
  obtain ⟨result, _, ⟨⟨world, stays⟩, journal⟩, own, other⟩ :=
    together (spent a.world) a a ⟨a.entity, ⟨⟨rfl, id⟩, rfl⟩, rfl, rfl⟩
  have after : (x'.run a).2 = (x.run a).2 :=
    congrArg₂ Actor.mk (congrArg₂ Stage.mk world.symm journal.symm) (other.trans own.symm)
  exact ⟨stays, fun _ => Prod.ext result.symm after⟩

theorem Actor.shortOf_staged {x x' : Staged σ α}
    (short : (Link.shortOf fun s : Stage σ => spent s.world).Holds x x') :
    (Link.shortOf fun a : Actor F σ => spent a.world).Holds (staged x) (staged x') := by
  intro a
  obtain ⟨stays, same⟩ := short a.toStage
  refine ⟨stays, fun not => ?_⟩
  change (((x'.run a.toStage).1, { toStage := (x'.run a.toStage).2, entity := a.entity }) :
    α × Actor F σ) = ((x.run a.toStage).1, { toStage := (x.run a.toStage).2, entity := a.entity })
  rw [same not]

theorem Host.Parts.shortOf_create (parts : h.Parts spent h') (wanted : Emission F) :
    (Link.shortOf fun s : Stage σ => spent s.world).Holds (Stage.ask (h.create wanted))
      (Stage.ask (h'.create wanted)) := by
  intro s
  refine ⟨fun before => parts.created before wanted, fun not => ?_⟩
  have free : ¬ spent s.world := fun before => not (parts.created before wanted)
  change (((h'.create wanted s.world).1, ⟨(h'.create wanted s.world).2, s.journal⟩) : _ × Stage σ) =
    ((h.create wanted s.world).1, ⟨(h.create wanted s.world).2, s.journal⟩)
  rw [parts.create free]

variable [Scalar F]

/-! ## Ticks -/

namespace Env

variable {env env' : Env F σ}

theorem shortOf_spawn (parts : env.host.Parts spent env'.host)
    (pattern : env.pattern = env'.pattern) (emitter : env.emitter = env'.emitter) (fire : NodeId)
    (bullet? : Option (Ammunition F)) (position : Vec F) (direction speed : F) :
    (Link.shortOf fun s : Stage σ => spent s.world).Holds
      (env.spawn fire bullet? position direction speed)
      (env'.spawn fire bullet? position direction speed) := by
  unfold spawn
  cases bullet? with
  | none => exact Stage.shortOf fun _ => Stage.together_log _
  | some bullet =>
    dsimp only
    rw [← emitter]
    refine (Link.shortOf _).bind (parts.shortOf_create _) fun entity? => ?_
    cases entity? with
    | none => exact Stage.shortOf fun _ => Stage.together_log _
    | some entity =>
      refine Stage.shortOf fun earlier => ?_
      have settles := parts.settles earlier
      dsimp only
      split
      · exact leads_launch settles pattern emitter _ _ _
      · exact (Stage.together_log _).followed fun _ => settles.leads_giveBack entity

theorem linked_shortOf (parts : env.host.Parts spent env'.host)
    (pattern : env.pattern = env'.pattern) (emitter : env.emitter = env'.emitter) :
    Linked (.shortOf fun a => spent a.world) (fun _ => True) env env' := by
  have agrees : ∀ earlier e, Actor.Agrees (fun _ => True)
      (Actor.Related (Meanwhile spent earlier) e) env.host env'.host :=
    fun earlier e => Actor.agrees_of_alike (parts.settles earlier).taken e
  have now : (Link.shortOf fun a : Actor F σ => spent a.world).Holds Actor.entityNow
      Actor.entityNow := fun _ => ⟨id, fun _ => rfl⟩
  exact {
    entity := now
    change := fun _ _ _ => ⟨id, fun _ => rfl⟩
    restart := fun outer _ reads below => Actor.shortOf fun earlier => .both fun e =>
      Plan.together_restartAll (agrees earlier e) outer _ reads below
    direction := fun frames bullet? _ reads shots => Actor.shortOf fun earlier => .both fun e =>
      together_shotDirection (agrees earlier e) frames bullet? reads shots
    speed := fun frames bullet? _ reads shots => Actor.shortOf fun earlier => .both fun e =>
      together_shotSpeed (agrees earlier e) frames bullet? reads shots
    spawn := fun fire bullet? position direction speed => Actor.shortOf_staged
      (shortOf_spawn parts pattern emitter fire bullet? position direction speed)
    vanish := fun _ => (Link.shortOf _).bind now fun e => Actor.shortOf_staged <|
      Stage.shortOf fun earlier => (Stage.together_log _).bind fun _ =>
        (parts.settles earlier).leads_giveBack e }

end Env

namespace Bullet

variable (parts : h.Parts spent h') (b : Bullet F)

include parts

theorem shortOf_step :
    (Link.shortOf fun s : Stage σ => spent s.world).Holds (b.step h) (b.step h') := by
  have everyone : (b.env h).host.Parts spent (b.env h').host := parts
  intro s
  obtain ⟨stays, same⟩ := (Env.linked_shortOf everyone rfl rfl).run b.scope b.plan
    (b.plan.reads_of_forall fun _ => trivial) b.cell { toStage := s, entity := b.entity }
  refine ⟨stays, fun not => ?_⟩
  let after (r : (Status × Cell F b.plan) × Actor F σ) : (Status × Bullet F) × Stage σ :=
    ((r.1.1, { b with cell := r.1.2, entity := r.2.entity }), r.2.toStage)
  exact congrArg after (same not)

/-- A bullet does the same with hosts that part, unless they have parted when it is done. -/
theorem shortOf_update :
    (Link.shortOf fun s : Stage σ => spent s.world).Holds (b.update h) (b.update h') :=
  (Link.shortOf _).bind (b.shortOf_step parts) fun _ => (Link.shortOf _).pure _

end Bullet

end Barrage
