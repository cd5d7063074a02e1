import Barrage.Proofs.Host.Coupling

/-!
Ticks with two hosts. They keep in step, in whatever way, if what tasks do to entities and to hosts
does. Between two steps of a simulation no entity is on its way; one that was made for a shot is,
until it is given off or given back. What holds of worlds in the first case and in the second may
differ, and where two hosts answer alike in both, bullets and emitters do the same with them.
-/

set_option autoImplicit false

namespace Barrage

variable {F σ τ : Type}

/-- Two hosts answer alike while an entity is on its way, and it is given off or given back alike.
-/
structure Host.Settles (idle busy : σ → τ → Prop) (h : Host F σ) (h' : Host F τ) : Prop where
  taken : h.Alike busy h'
  spawn : ∀ {w w'}, busy w w' → ∀ b, idle (h.spawn b w) (h'.spawn b w')
  giveBack : ∀ {w w'}, busy w w' → ∀ e, idle (h.remove e w) (h'.remove e w')

/-- Two hosts answer alike. Worlds are related in one way while no entity is on its way, and in
another while one is. -/
structure Host.Deals (idle busy : σ → τ → Prop) (h : Host F σ) (h' : Host F τ) : Prop
    extends h.Settles idle busy h' where
  free : h.Alike idle h'
  refused : ∀ {w w'}, idle w w' → ∀ wanted, (h.create wanted w).1 = none →
    (h'.create wanted w').1 = none ∧ idle (h.create wanted w).2 (h'.create wanted w').2
  made : ∀ {w w'}, idle w w' → ∀ wanted e, (h.create wanted w).1 = some e →
    (h'.create wanted w').1 = some e ∧ busy (h.create wanted w).2 (h'.create wanted w').2
  remove : ∀ {w w'}, idle w w' → ∀ e, idle (h.remove e w) (h'.remove e w')

def Actor.Both (related : σ → τ → Prop) (a : Actor F σ) (a' : Actor F τ) : Prop :=
  ∃ e, Actor.Related related e a a'

theorem Together.both {α : Type} {related : σ → τ → Prop} {x : Acting F σ α} {x' : Acting F τ α}
    (together : ∀ e, Together (Actor.Related related e) x x') :
    Together (Actor.Both related) x x' := by
  rintro a a' ⟨e, both⟩
  obtain ⟨same, both⟩ := together e a a' both
  exact ⟨same, e, both⟩

theorem Actor.together_change {related : σ → τ → Prop} (f : Entity F → Entity F) :
    Together (Actor.Both related) (Actor.change f) (Actor.change f) := by
  rintro a a' ⟨e, stage, own, other⟩
  exact ⟨rfl, f e, stage, congrArg f own, congrArg f other⟩

variable [Scalar F] {idle busy related : σ → τ → Prop} {h : Host F σ} {h' : Host F τ}

/-! ## Binding entities -/

/-- After an entity was to be bound: it is in a bullet, or it was removed. -/
def Bullet.Disposed (related idle : σ → τ → Prop) (outcome outcome' : Except RunError (Bullet F))
    (s : Stage σ) (s' : Stage τ) : Prop :=
  outcome = outcome' ∧ match outcome with
    | .ok _ => Stage.Related related s s'
    | .error _ => Stage.Related idle s s'

theorem Bullet.coupled_bind (alike : h.Alike related h')
    (remove : ∀ {w w'}, related w w' → ∀ e, idle (h.remove e w) (h'.remove e w'))
    (entity : Entity F) (p : Pattern) (node : NodeId) (scope? : Option (Frames F))
    (emitter : EmitterId) :
    Coupled (Stage.Related related) (Bullet.bind h entity p node scope? emitter)
      (Bullet.bind h' entity p node scope? emitter) (Bullet.Disposed related idle) := by
  refine Leads.followed (Plan.together_build alike.agrees (fun _ => trivial) (scope?.getD []) node)
    fun outcome => ?_
  intro s s' both
  cases outcome with
  | error e => exact ⟨rfl, remove both.world entity, both.journal⟩
  | ok plan =>
    obtain ⟨cell, stage, own, other⟩ := Plan.together_start (Actor.agrees_of_alike alike entity)
      (scope?.getD []) plan (plan.reads_of_forall fun _ => trivial) { toStage := s, entity }
      { toStage := s', entity } ⟨both, rfl, rfl⟩
    let bullet (cell : Cell F plan) (now : Entity F) : Except RunError (Bullet F) :=
      .ok { entity := now.named (p.tree.patternName? node), pattern := p, node, plan, cell, scope?,
            emitter }
    have named := congrArg₂ bullet cell (own.trans other.symm)
    exact ⟨named, stage⟩

/-! ## Shots -/

section Entities

omit [Scalar F]

theorem Host.Settles.leads_spawn (settles : h.Settles idle busy h') (b : Bullet F) :
    Leads (Stage.Related busy) (Stage.Related idle) (Stage.act (h.spawn b))
      (Stage.act (h'.spawn b)) :=
  fun _ _ both => ⟨rfl, settles.spawn both.world b, both.journal⟩

theorem Host.Settles.leads_giveBack (settles : h.Settles idle busy h') (e : Entity F) :
    Leads (Stage.Related busy) (Stage.Related idle) (Stage.act (h.remove e))
      (Stage.act (h'.remove e)) :=
  fun _ _ both => ⟨rfl, settles.giveBack both.world e, both.journal⟩

variable (deals : h.Deals idle busy h')

include deals

theorem Host.Deals.together_remove (e : Entity F) :
    Together (Stage.Related idle) (Stage.act (h.remove e)) (Stage.act (h'.remove e)) :=
  fun _ _ both => ⟨rfl, deals.remove both.world e, both.journal⟩

/-- An entity is asked for, and then on its way, or refused. What follows may go on from either. -/
theorem Host.Deals.together_create {α : Type} (wanted : Emission F)
    {f : Option (Entity F) → Staged σ α} {f' : Option (Entity F) → Staged τ α}
    (refused : Together (Stage.Related idle) (f none) (f' none))
    (made : ∀ e, Leads (Stage.Related busy) (Stage.Related idle) (f (some e)) (f' (some e))) :
    Together (Stage.Related idle) (Stage.ask (h.create wanted) >>= f)
      (Stage.ask (h'.create wanted) >>= f') := by
  intro s s' both
  rw [run_bind_eq, run_bind_eq]
  change (fun r r' => r.1 = r'.1 ∧ Stage.Related idle r.2 r'.2)
    ((f (h.create wanted s.world).1).run ⟨(h.create wanted s.world).2, s.journal⟩)
    ((f' (h'.create wanted s'.world).1).run ⟨(h'.create wanted s'.world).2, s'.journal⟩)
  cases answer : (h.create wanted s.world).1 with
  | none =>
    obtain ⟨same, world⟩ := deals.refused both.world wanted answer
    rw [same]
    exact refused _ _ ⟨world, both.journal⟩
  | some e =>
    obtain ⟨same, world⟩ := deals.made both.world wanted e answer
    rw [same]
    exact made e _ _ ⟨world, both.journal⟩

end Entities

namespace Env

variable {env : Env F σ} {env' : Env F τ}

structure Deals (idle busy : σ → τ → Prop) (env : Env F σ) (env' : Env F τ) : Prop where
  host : env.host.Deals idle busy env'.host
  pattern : env.pattern = env'.pattern
  emitter : env.emitter = env'.emitter

theorem leads_launch (settles : env.host.Settles idle busy env'.host)
    (pattern : env.pattern = env'.pattern) (emitter : env.emitter = env'.emitter)
    (bullet : Ammunition F) (entity : Entity F) (speed : F) :
    Leads (Stage.Related busy) (Stage.Related idle) (env.launch bullet entity speed)
      (env'.launch bullet entity speed) := by
  unfold launch
  rw [← pattern, ← emitter]
  refine (Bullet.coupled_bind settles.taken settles.giveBack entity env.pattern bullet.node
    (some bullet.frames.pruned) env.emitter).bind ?_
  rintro outcome _ s s' ⟨rfl, settled⟩
  cases outcome with
  | error e => exact Stage.together_log _ s s' settled
  | ok made =>
    exact (Stage.together_log _).followed (fun _ => settles.leads_spawn made) s s' settled

theorem together_spawn (deals : Deals idle busy env env') (fire : NodeId)
    (bullet? : Option (Ammunition F)) (position : Vec F) (direction speed : F) :
    Together (Stage.Related idle) (env.spawn fire bullet? position direction speed)
      (env'.spawn fire bullet? position direction speed) := by
  unfold spawn
  cases bullet? with
  | none => exact Stage.together_log _
  | some bullet =>
    dsimp only
    rw [← deals.emitter]
    refine deals.host.together_create _ (Stage.together_log _) fun entity => ?_
    dsimp only
    split
    · exact leads_launch deals.host.toSettles deals.pattern deals.emitter _ _ _
    · exact (Stage.together_log _).followed fun _ => deals.host.leads_giveBack entity

/-! ## Ticks -/

/-- What tasks do to their entity and ask of their host keeps in step, as far as they read good
expressions. -/
structure Linked (link : Link (Actor F σ) (Actor F τ)) (good : Expression → Prop) (env : Env F σ)
    (env' : Env F τ) : Prop where
  entity : link.Holds Actor.entityNow Actor.entityNow
  change : ∀ f : Entity F → Entity F, (∀ e, (f e).id = e.id) →
    link.Holds (Actor.change f) (Actor.change f)
  restart : ∀ outer {ps : List (Plan F)}, (∀ p ∈ ps, p.Reads good) → ∀ below,
    link.Holds (Plan.restartAll env.host outer ps below) (Plan.restartAll env'.host outer ps below)
  direction : ∀ frames bullet? {rule : ShotRule}, rule.Reads good → ∀ shots,
    link.Holds (env.shotDirection frames bullet? rule shots)
      (env'.shotDirection frames bullet? rule shots)
  speed : ∀ frames bullet? {rule : ShotRule}, rule.Reads good → ∀ shots,
    link.Holds (env.shotSpeed frames bullet? rule shots) (env'.shotSpeed frames bullet? rule shots)
  spawn : ∀ fire bullet? position direction speed,
    link.Holds (Actor.staged (env.spawn fire bullet? position direction speed))
      (Actor.staged (env'.spawn fire bullet? position direction speed))
  vanish : ∀ node, link.Holds (env.vanish node) (env'.vanish node)

namespace Linked

variable {link : Link (Actor F σ) (Actor F τ)} {good : Expression → Prop}

theorem shoot (linked : Linked link good env env') (node : NodeId) (frames : Frames F)
    (holders : List (Plan F)) {direction speed : ShotRule} (reads : direction.Reads good)
    (reads' : speed.Reads good) (shots : Shots F) :
    link.Holds (env.shoot node frames holders direction speed shots)
      (env'.shoot node frames holders direction speed shots) :=
  link.bind (linked.direction frames _ reads shots) fun _ =>
    link.bind (linked.speed frames _ reads' shots) fun _ => link.bind linked.entity fun _ =>
    link.bind (linked.spawn _ _ _ _ _) fun _ => link.pure _

omit [Scalar F] in
theorem passesOver {S : Type} {body : S → Acting F σ (Status × S)}
    {body' : S → Acting F τ (Status × S)} {again : S → Acting F σ S} {again' : S → Acting F τ S}
    (once : ∀ s, link.Holds (body s) (body' s)) (restart : ∀ s, link.Holds (again s) (again' s))
    (left passed : Nat) (s : S) : link.Holds (passesOver body again left passed s)
      (passesOver body' again' left passed s) := by
  induction left generalizing passed s with
  | zero => exact link.pure _
  | succ left ih =>
    refine link.bind (once s) fun ⟨status, s⟩ => ?_
    cases status with
    | running | waiting => exact link.pure _
    | done => exact link.bind (restart s) fun s => ih (passed + 1) s

mutual

theorem run (linked : Linked link good env env') (outer : Frames F) : (p : Plan F) →
    p.Reads good → (cell : Cell F p) → link.Holds (env.run outer p cell) (env'.run outer p cell)
  | .mk node args work children, .mk own each, .mk finished progress below => by
    have all : ∀ below, link.Holds (env.runAll (args :: outer) children below true)
        (env'.runAll (args :: outer) children below true) :=
      fun below => runAll linked (args :: outer) children each below true
    cases work with
    | sequence | again => exact link.bind (all below) fun _ => link.pure _
    | action bound =>
      exact link.bind (passesOver all (linked.restart (args :: outer) each) _ _ below) fun _ =>
        link.pure _
    | wait => exact link.bind (link.bind linked.entity fun _ => link.pure _) fun _ => link.pure _
    | turn | glide | accelerate =>
      exact link.bind (link.bind linked.entity fun _ => link.bind (linked.change _ fun _ => rfl)
        fun _ => link.pure _) fun _ => link.pure _
    | fire direction speed =>
      exact link.bind (linked.shoot node (args :: outer) children own.1 own.2 progress) fun _ =>
        link.pure _
    | vanish => exact link.bind (linked.vanish node) fun _ => link.pure _

theorem runAll (linked : Linked link good env env') (outer : Frames F) : (ps : List (Plan F)) →
    (∀ p ∈ ps, p.Reads good) → (below : Cells F ps) → (clear : Bool) →
    link.Holds (env.runAll outer ps below clear) (env'.runAll outer ps below clear)
  | [], _, .nil, clear => link.pure _
  | p :: ps, reads, .cons head tail, clear => by
    have rest : ∀ clear, link.Holds (env.runAll outer ps tail clear)
        (env'.runAll outer ps tail clear) := fun clear =>
      runAll linked outer ps (fun q inside => reads q (List.mem_cons_of_mem _ inside)) tail clear
    rw [Env.runAll, Env.runAll]
    split
    · exact link.bind (rest clear) fun _ => link.pure _
    · refine link.bind (run linked outer p (reads p List.mem_cons_self) head) fun ⟨status, _⟩ => ?_
      cases status with
      | waiting => exact link.pure _
      | running | done => exact link.bind (rest _) fun _ => link.pure _

end

theorem of_agrees {actors : Actor F σ → Actor F τ → Prop}
    (agrees : Actor.Agrees good actors env.host env'.host)
    (same : ∀ {a a'}, actors a a' → a.entity = a'.entity)
    (change : ∀ f : Entity F → Entity F, (∀ e, (f e).id = e.id) →
      Together actors (Actor.change f) (Actor.change f))
    (spawn : ∀ fire bullet? position direction speed,
      Together actors (Actor.staged (env.spawn fire bullet? position direction speed))
        (Actor.staged (env'.spawn fire bullet? position direction speed)))
    (vanish : ∀ node, Together actors (env.vanish node) (env'.vanish node)) :
    Linked (.together actors) good env env' where
  entity := fun _ _ both => ⟨same both, both⟩
  change := change
  restart outer _ reads := Plan.together_restartAll agrees outer _ reads
  direction frames bullet? _ reads := together_shotDirection agrees frames bullet? reads
  speed frames bullet? _ reads := together_shotSpeed agrees frames bullet? reads
  spawn := spawn
  vanish := vanish

end Linked

theorem Deals.linked (deals : Deals idle busy env env') :
    Linked (.together (Actor.Both idle)) (fun _ => True) env env' := by
  have agrees := Actor.agrees_of_alike deals.host.free
  have same : ∀ {a : Actor F σ} {a' : Actor F τ}, Actor.Both idle a a' → a.entity = a'.entity := by
    rintro a a' ⟨e, both⟩
    exact both.own.trans both.other.symm
  have entity : Together (Actor.Both (F := F) idle) Actor.entityNow Actor.entityNow :=
    fun _ _ both => ⟨same both, both⟩
  refine .of_agrees ⟨fun frames _ good => .both fun e => (agrees e).evaluate frames good,
    .both fun e => (agrees e).aim, fun both => .of_eq (same both)⟩ same ?_ ?_ ?_
  · exact fun f _ => Actor.together_change f
  · exact fun fire bullet? position direction speed => .both fun e =>
      Actor.together_staged (together_spawn deals fire bullet? position direction speed)
  · exact fun node => entity.bind fun e => .both fun _ => Actor.together_staged
      ((Stage.together_log _).bind fun _ => deals.host.together_remove e)

end Env

namespace Bullet

variable (deals : h.Deals idle busy h')

include deals

theorem together_step (b : Bullet F) :
    Together (Stage.Related idle) (b.step h) (b.step h') := by
  intro s s' both
  have envs : Env.Deals idle busy (b.env h) (b.env h') := ⟨deals, rfl, rfl⟩
  obtain ⟨same, e, stage, own, other⟩ := envs.linked.run b.scope b.plan
    (b.plan.reads_of_forall fun _ => trivial) b.cell { toStage := s, entity := b.entity }
    { toStage := s', entity := b.entity } ⟨b.entity, both, rfl, rfl⟩
  let after (r : Status × Cell F b.plan) (entity : Entity F) : Status × Bullet F :=
    (r.1, { b with cell := r.2, entity })
  exact ⟨congrArg₂ after same (own.trans other.symm), stage⟩

theorem together_update (b : Bullet F) :
    Together (Stage.Related idle) (b.update h) (b.update h') :=
  (together_step deals b).bind fun _ => .pure _

end Bullet

namespace Emitter

variable (deals : h.Deals idle busy h')

include deals

theorem together_addEntry (id : EmitterId) (p : Pattern) (position : Vec F) (entry : NodeId) :
    Together (Stage.Related idle) (addEntry h id p position entry)
      (addEntry h' id p position entry) := by
  refine deals.together_create _ (Stage.together_log _) fun entity => ?_
  refine (Bullet.coupled_bind deals.taken deals.giveBack { entity with position } p entry none
    id).bind ?_
  rintro outcome _ s s' ⟨rfl, settled⟩
  cases outcome with
  | error e => exact Stage.together_log _ s s' settled
  | ok b => exact deals.leads_spawn b s s' settled

theorem together_make (id : EmitterId) (entity : Entity F) (p : Pattern) :
    Together (Stage.Related idle) (make h id entity p) (make h' id entity p) := by
  unfold make
  cases p.entryPoints with
  | nil =>
    exact (Stage.together_log _).bind fun _ =>
      (deals.together_remove entity).bind fun _ => .pure _
  | cons first further =>
    refine (Bullet.coupled_bind deals.free deals.remove entity p first none id).bind ?_
    rintro outcome _ s s' ⟨rfl, settled⟩
    cases outcome with
    | error e => exact ⟨rfl, settled⟩
    | ok root =>
      exact ((Together.forM (together_addEntry deals id p entity.position) further).bind fun _ =>
        (Stage.together_log _).bind fun _ => .pure _) s s' settled

theorem together_update (position : Vec F) (e : Emitter F) :
    Together (Stage.Related idle) (Emitter.update h position e) (Emitter.update h' position e) := by
  unfold Emitter.update
  split
  · exact .pure _
  · exact (Bullet.together_update deals _).bind fun _ => .pure _

end Emitter

end Barrage
