import Barrage.Proofs.Host.Dealings

/-!
What bullets ask of their hosts in a tick. Binding an entity asks nothing unless there is no plan, a
fire makes one deal for each shot and no other task but one that vanishes asks anything; so what a
tick asks falls into deals of the tasks that the plan holds.
-/

set_option autoImplicit false

namespace Barrage

variable {F σ : Type} [Scalar F]

/-! ## Binding -/

structure Bullet.Binds (entity : Entity F) (p : Pattern) (node : NodeId)
    (scope? : Option (Frames F)) (emitter : EmitterId) (b : Bullet F) : Prop where
  named : b.entity = entity.named (p.tree.patternName? node)
  pattern : b.pattern = p
  node : b.node = node
  scope? : b.scope? = scope?
  emitter : b.emitter = emitter
  bound : b.Bound

theorem Bullet.Binds.same {entity : Entity F} {p : Pattern} {node : NodeId}
    {scope? : Option (Frames F)} {emitter : EmitterId} {b : Bullet F}
    (binds : b.Binds entity p node scope? emitter) : entity.Same b.entity := by
  rw [binds.named]
  exact ⟨rfl, rfl, rfl, rfl⟩

/-- What becomes of an entity that is to be bound: a bullet has it, or there is no plan for the node
and it is removed. -/
inductive Bullet.Outcome (h : Host F σ) (entity : Entity F) (p : Pattern) (node : NodeId)
    (scope? : Option (Frames F)) (emitter : EmitterId) :
    Except RunError (Bullet F) → Calls F → Prop where
  | bound {b : Bullet F} (binds : b.Binds entity p node scope? emitter) :
      Outcome h entity p node scope? emitter (.ok b) []
  | failed {e : RunError} {s s' : Stage σ}
      (noPlan : (Plan.build h p (scope?.getD []) node).run s = (.error e, s')) :
      Outcome h entity p node scope? emitter (.error e) [.remove entity]

theorem Bullet.records_bind (h : Host F σ) (entity : Entity F) (p : Pattern) (node : NodeId)
    (scope? : Option (Frames F)) (emitter : EmitterId) :
    Records Stage.noting (Bullet.bind h entity p node scope? emitter)
      (Bullet.bind h.recorded entity p node scope? emitter)
      fun _ outcome _ calls => Bullet.Outcome h entity p node scope? emitter outcome calls := by
  refine (Plan.silent_build h p (scope?.getD []) node).bindRecords fun outcome => ?_
  intro s before
  cases outcome with
  | error e => exact ⟨[.remove entity], rfl, fun t built => .failed built.symm⟩
  | ok plan =>
    let a : Actor F σ := { toStage := s, entity }
    let bullet {σ : Type} (r : Cell F plan × Actor F σ) : Bullet F :=
      { entity := r.2.entity.named (p.tree.patternName? node), pattern := p, node, plan,
        cell := r.1, scope?, emitter }
    have start := plan.idle_start h (scope?.getD [])
    refine ⟨[], ?_, fun t built => .bound ⟨?_, rfl, rfl, rfl, rfl, ?_⟩⟩
    · rw [List.append_nil]
      change (let r := (plan.start h.recorded (scope?.getD [])).run (a.noting before);
        (Except.ok (bullet r), r.2.toStage)) = _
      rw [start.silent]
      rfl
    · exact congrArg (Entity.named · _) (start.entity_eq a)
    · refine ⟨σ, h, entity, p, node, scope?, emitter, t,
        ((plan.start h (scope?.getD [])).run a).2.toStage, ?_⟩
      rw [Bullet.bind, run_bind_eq, ← built]
      rfl

/-! ## Shots -/

namespace Env

variable (env : Env F σ)

def recorded : Env F (Recorded F σ) := { env with host := env.host.recorded }

theorem idle_shotDirection (frames : Frames F) (bullet? : Option (Ammunition F)) (rule : ShotRule)
    (shots : Shots F) : Idle (env.shotDirection frames bullet? rule shots)
      (env.recorded.shotDirection frames bullet? rule shots) :=
  .of_together fun calls e => together_shotDirection
    (Actor.agrees_of_alike (env.host.alike_recorded calls) e) frames bullet?
    (rule.reads_of_forall fun _ => trivial) shots

theorem idle_shotSpeed (frames : Frames F) (bullet? : Option (Ammunition F)) (rule : ShotRule)
    (shots : Shots F) : Idle (env.shotSpeed frames bullet? rule shots)
      (env.recorded.shotSpeed frames bullet? rule shots) :=
  .of_together fun calls e => together_shotSpeed
    (Actor.agrees_of_alike (env.host.alike_recorded calls) e) frames bullet?
    (rule.reads_of_forall fun _ => trivial) shots

omit [Scalar F] in
theorem records_create (h : Host F σ) (wanted : Emission F) :
    Records Stage.noting (Stage.ask (h.create wanted)) (Stage.ask (h.recorded.create wanted))
      fun s made? _ calls => calls = [.create wanted made?] ∧ (h.create wanted s.world).1 = made? :=
  fun _ _ => ⟨_, rfl, rfl, rfl⟩

/-- What launching a bullet asks: the entity is given off in it, or it is removed. -/
theorem records_launch (bullet : Ammunition F) (entity : Entity F) (speed : F) :
    Records Stage.noting (env.launch bullet entity speed)
      (env.recorded.launch bullet entity speed) fun _ _ _ calls =>
        (calls = [.remove entity] ∧
          Plan.Fails env.host env.pattern bullet.frames.pruned bullet.node) ∨
        ∃ b : Bullet F, calls = [.spawn b] ∧
          b.Binds entity env.pattern bullet.node (some bullet.frames.pruned) env.emitter := by
  refine (Bullet.records_bind env.host entity env.pattern bullet.node
    (some bullet.frames.pruned) env.emitter).followed fun outcome => ?_
  cases outcome with
  | error e =>
    refine fun _ _ => ⟨[], by rw [List.append_nil]; rfl, ?_⟩
    rintro _ _ (_ | ⟨noPlan⟩)
    exact .inl ⟨rfl, _, _, _, noPlan⟩
  | ok b =>
    refine fun _ _ => ⟨[.spawn b], rfl, ?_⟩
    rintro _ _ ⟨binds⟩
    exact .inr ⟨b, rfl, binds⟩

/-- What is asked for a shot of a fire: nothing if the fire holds no bullet, and else one deal. -/
theorem records_spawn {q : Plan F} (fires : q.work.fires) (node : NodeId) (frames : Frames F)
    (now : Entity F) (direction speed : F) :
    Records Stage.noting
      (env.spawn node (Ammunition.ofPlans? frames q.children) now.position direction speed)
      (env.recorded.spawn node (Ammunition.ofPlans? frames q.children) now.position direction speed)
      fun _ _ _ calls => q.children = [] ∧ calls = [] ∨ Deal env frames q now calls := by
  unfold spawn Ammunition.ofPlans?
  cases held : q.children.getLast? with
  | none =>
    intro s before
    exact ⟨[], by rw [List.append_nil]; rfl, .inl ⟨List.getLast?_eq_none_iff.1 held, rfl⟩⟩
  | some holder =>
    refine (records_create env.host ⟨env.emitter, now.position⟩).followed fun made? => ?_
    cases made? with
    | none =>
      refine fun _ _ => ⟨[], by rw [List.append_nil]; rfl, ?_⟩
      rintro _ _ ⟨rfl, -⟩
      exact .inr (.refused fires)
    | some made =>
      dsimp only
      by_cases attached : made.emitter? = some env.emitter
      -- the recorded host is asked for the same emitter, so the test comes out the same
      · have attached' : made.emitter? = some env.recorded.emitter := attached
        rw [if_pos attached, if_pos attached']
        have placed : made.Same { made with
          position := now.position, direction := Angle.normalize direction, speed } :=
          ⟨rfl, rfl, rfl, rfl⟩
        refine (env.records_launch ⟨holder.node, holder.args :: frames⟩ _ speed).mono ?_
        rintro _ _ _ _ (⟨rfl, noPlan⟩ | ⟨b, rfl, binds⟩) _ _ ⟨rfl, -⟩
        · exact .inr (.unbound fires attached placed held noPlan)
        · exact .inr (.fired fires attached (placed.trans binds.same)
            ⟨binds.bound, binds.pattern, binds.emitter, holder, held, binds.node, binds.scope?⟩)
      · have detached : ¬ made.emitter? = some env.recorded.emitter := attached
        rw [if_neg attached, if_neg detached]
        refine fun _ _ => ⟨[.remove made], rfl, ?_⟩
        rintro _ _ ⟨rfl, -⟩
        exact .inr (.detached fires attached)

/-! ## Ticks -/

theorem asks_shoot {q : Plan F} (fires : q.work.fires) (node : NodeId) (frames : Frames F)
    (direction speed : ShotRule) (shots : Shots F) :
    Asks (fun now calls => q.children = [] ∧ calls = [] ∨ Deal env frames q now calls)
      (env.shoot node frames q.children direction speed shots)
      (env.recorded.shoot node frames q.children direction speed shots) := by
  unfold shoot
  refine .after_idle (env.idle_shotDirection frames _ direction shots) fun newDirection => ?_
  refine .after_idle (env.idle_shotSpeed frames _ speed shots) fun newSpeed => ?_
  -- the entity that is asked for is wanted where the bullet's own entity is now
  intro a before
  exact (Asks.before_idle (.staged (env.records_spawn fires node frames a.entity newDirection
    newSpeed)) fun _ => .pure _) a before

omit [Scalar F] in
theorem asks_vanish (node : NodeId) :
    Asks (fun now calls => calls = [.remove now]) (env.vanish node) (env.recorded.vanish node) :=
  fun _ _ => ⟨_, rfl, .refl _, rfl⟩

omit [Scalar F] in
theorem asks_eased {β γ : Type} (step : Entity F → β × γ) (write : β → Entity F → Entity F)
    (same : ∀ b (e : Entity F), e.Same (write b e)) :
    Asks (fun _ calls => calls = [])
      (do let e ← Actor.entityNow; Actor.change (write (step e).1); pure (step e).2 : Acting F σ γ)
      (do let e ← Actor.entityNow; Actor.change (write (step e).1); pure (step e).2) :=
  .after_idle .entityNow fun e => (Asks.change (same (step e).1)).before_idle fun _ => .pure _

/-- What a task asks that does not do the tasks below it: nothing, or one deal. -/
theorem asks_run_simple (outer : Frames F) {q : Plan F} (cell : Cell F q)
    (sequence : q.work ≠ .sequence) (again : q.work ≠ .again)
    (action : ∀ bound, q.work ≠ .action bound) :
    Asks (fun now calls => calls = [] ∨ Deal env (q.args :: outer) q now calls)
      (env.run outer q cell) (env.recorded.run outer q cell) := by
  have quiet : ∀ {α β : Type} {x : Acting F σ α} {x' : Acting F (Recorded F σ) α} {f : α → β},
      Asks (fun _ calls => calls = []) x x' →
      Asks (fun now calls => calls = [] ∨ Deal env (q.args :: outer) q now calls)
        (x >>= fun a => pure (f a)) (x' >>= fun a => pure (f a)) :=
    fun asks => (asks.mono fun _ _ => .inl).before_idle fun _ => .pure _
  cases cell with
  | @mk node args work children finished progress below =>
    cases work with
    | sequence => exact absurd rfl sequence
    | again => exact absurd rfl again
    | action bound => exact absurd rfl (action bound)
    | wait e => exact quiet (.after_idle .entityNow fun _ => .of_idle (.pure _))
    | turn direction? term? =>
      exact quiet (asks_eased (fun e => progress.step e.direction e.timeScale)
        (fun direction e => { e with direction }) fun _ _ => ⟨rfl, rfl, rfl, rfl⟩)
    | glide speed? term? =>
      exact quiet (asks_eased (fun e => progress.step e.speed e.timeScale)
        (fun speed e => { e with speed }) fun _ _ => ⟨rfl, rfl, rfl, rfl⟩)
    | accelerate horizontal? vertical? term? =>
      exact quiet (asks_eased (fun e => progress.step e.acceleration e.timeScale)
        (fun acceleration e => { e with acceleration }) fun _ _ => ⟨rfl, rfl, rfl, rfl⟩)
    | fire direction speed =>
      have shoot := env.asks_shoot (q := .mk node args (.fire direction speed) children) rfl node
        (args :: outer) direction speed progress
      exact (shoot.mono fun _ _ asked => asked.imp And.right id).before_idle fun _ => .pure _
    | vanish =>
      refine ((env.asks_vanish node).mono ?_).before_idle fun _ => .pure _
      rintro now _ rfl
      exact .inr (.vanished rfl)

def DealOf (outer : Frames F) (p : Plan F) (now : Entity F) (part : Calls F) : Prop :=
  ∃ frames q, p.Holds outer frames q ∧ Deal env frames q now part

def DealIn (outer : Frames F) (ps : List (Plan F)) (now : Entity F) (part : Calls F) : Prop :=
  ∃ p ∈ ps, env.DealOf outer p now part

variable {env} in
theorem DealIn.dealOf {outer : Frames F} {p : Plan F} {now : Entity F} {part : Calls F}
    (deal : env.DealIn (p.args :: outer) p.children now part) : env.DealOf outer p now part := by
  obtain ⟨c, inside, frames, q, holds, deal⟩ := deal
  exact ⟨frames, q, .child inside holds, deal⟩

omit [Scalar F] in
theorem asks_passesOver {S : Type} {D : Entity F → Calls F → Prop}
    {body : S → Acting F σ (Status × S)} {body' : S → Acting F (Recorded F σ) (Status × S)}
    {again : S → Acting F σ S} {again' : S → Acting F (Recorded F σ) S}
    (once : ∀ s, Asks (Parts D) (body s) (body' s)) (restart : ∀ s, Idle (again s) (again' s))
    (left passed : Nat) (s : S) :
    Asks (Parts D) (passesOver body again left passed s)
      (passesOver body' again' left passed s) := by
  induction left generalizing passed s with
  | zero => exact .pureParts _
  | succ left ih =>
    refine (once s).bindParts fun ⟨status, s⟩ => ?_
    cases status with
    | running | waiting => exact .pureParts _
    | done => exact .after_idle (restart s) fun s => ih (passed + 1) s

mutual

/-- What a tick of a task asks falls into deals of the tasks that its plan holds. -/
theorem asks_run (outer : Frames F) : (p : Plan F) → (cell : Cell F p) →
    Asks (Parts (env.DealOf outer p)) (env.run outer p cell) (env.recorded.run outer p cell)
  | .mk node args work children, .mk finished progress below => by
    have all : ∀ below, Asks (Parts (env.DealOf outer (.mk node args work children)))
        (env.runAll (args :: outer) children below true)
        (env.recorded.runAll (args :: outer) children below true) :=
      fun below => (asks_runAll (args :: outer) children below true).mono
        fun _ _ parts => parts.mono fun _ _ deal => DealIn.dealOf deal
    have simple := env.asks_run_simple outer (q := .mk node args work children)
      (.mk finished progress below)
    cases work with
    -- these do the tasks below once a tick, an action any number of times
    | sequence | again => exact (all below).before_idle fun _ => .pure _
    | action bound =>
      exact (asks_passesOver all (fun below => Plan.idle_restartAll env.host _ children below)
        _ _ below).before_idle fun _ => .pure _
    | _ =>
      refine (simple nofun nofun nofun).mono ?_
      rintro now calls (rfl | deal)
      · exact .nil
      · exact .single ⟨_, _, .self, deal⟩

theorem asks_runAll (outer : Frames F) : (ps : List (Plan F)) → (below : Cells F ps) →
    (clear : Bool) → Asks (Parts (env.DealIn outer ps)) (env.runAll outer ps below clear)
      (env.recorded.runAll outer ps below clear)
  | [], .nil, clear => .pureParts _
  | p :: ps, .cons head tail, clear => by
    have rest : ∀ clear, Asks (Parts (env.DealIn outer (p :: ps)))
        (env.runAll outer ps tail clear) (env.recorded.runAll outer ps tail clear) :=
      fun clear => (asks_runAll outer ps tail clear).mono fun _ _ parts =>
        parts.mono fun _ _ ⟨c, inside, deal⟩ => ⟨c, List.mem_cons_of_mem _ inside, deal⟩
    have first : Asks (Parts (env.DealIn outer (p :: ps)))
        (env.run outer p head) (env.recorded.run outer p head) :=
      (asks_run outer p head).mono fun _ _ parts =>
        parts.mono fun _ _ deal => ⟨p, List.mem_cons_self, deal⟩
    rw [runAll, runAll]
    split
    -- a finished task is left out
    · exact (rest clear).before_idle fun _ => .pure _
    · refine first.bindParts fun ⟨status, head⟩ => ?_
      cases status with
      -- nothing behind a task that waits is done
      | waiting => exact .pureParts _
      | running | done => exact (rest _).before_idle fun _ => .pure _

end

end Env

/-- What a bullet asks in a tick falls into deals of its tasks; its entity stays the same one. -/
theorem Bullet.records_step (h : Host F σ) (b : Bullet F) :
    Records Stage.noting (b.step h) (b.step h.recorded) fun _ r _ calls =>
      ∃ cell entity, r.2 = { b with cell, entity } ∧ b.entity.Same entity ∧
        Parts ((b.env h).DealOf b.scope b.plan) b.entity calls := by
  intro s before
  let a : Actor F σ := { toStage := s, entity := b.entity }
  obtain ⟨calls, same, kept, parts⟩ := (b.env h).asks_run b.scope b.plan b.cell a before
  refine ⟨calls, ?_, _, _, rfl, kept, parts⟩
  let after {σ : Type} (r : (Status × Cell F b.plan) × Actor F σ) : Status × Bullet F :=
    (r.1.1, { b with cell := r.1.2, entity := r.2.entity })
  change (let r := ((b.env h).recorded.run b.scope b.plan b.cell).run (a.noting before);
    (after r, r.2.toStage)) = _
  rw [same]
  rfl

variable {h : Host F σ} {b fired : Bullet F} {calls : Calls F}

/-- A bullet that is given off in a tick comes from a shot of a fire that the plan holds. -/
theorem exists_shot_of_spawn (parts : Parts ((b.env h).DealOf b.scope b.plan) b.entity calls)
    (spawned : .spawn fired ∈ calls) : ∃ frames q, b.plan.Holds b.scope frames q ∧ q.work.fires ∧
      fired.entity.emitter? = some b.emitter ∧ Shot (b.env h) frames q fired := by
  obtain ⟨parts, rfl, deals⟩ := parts
  obtain ⟨part, member, inside⟩ := List.mem_flatten.1 spawned
  obtain ⟨now, -, frames, q, holds, deal⟩ := deals part member
  exact ⟨frames, q, holds, deal.shot inside⟩

end Barrage
