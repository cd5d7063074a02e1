import Barrage.Proofs.Host.Ticks
import Barrage.Proofs.Motion.Angles
import Barrage.Proofs.Task.Gliding
import Barrage.Proofs.Task.Invariant

/-!
Which directions tasks give, in exact arithmetic. A turn writes a direction that is not negative and
below a full turn, and so does a fire before it gives a new entity off; what a fire remembers of its
last shot is above minus a half turn and up to a half turn. Nothing else writes a direction, so this
holds in every history.
-/

set_option autoImplicit false

namespace Barrage

open scoped Exact

def Normal [Exact.Geometry] (direction : ℚ) : Prop := direction ∈ Set.Ico 0 Scalar.tau

def Wrapped [Exact.Geometry] (direction : ℚ) : Prop :=
  direction ∈ Set.Ioc (-Scalar.pi) Scalar.pi

variable {σ : Type}

/-! ## Shots -/

namespace ShotLaw

theorem close_next {F : Type} [Scalar F] (law : ShotLaw F σ) (value : ShotValue → Acting F σ F)
    (last : F) (next? : Option (ShotValue × Bool)) (a : Actor F σ) :
    ∃ x, ((law.next value last next?).run a).1 = law.close x := by
  rcases next? with _ | ⟨v, _ | _⟩ <;> exact ⟨_, rfl⟩

theorem Gives.eq_close {F : Type} [Scalar F] {law : ShotLaw F σ}
    {value : ShotValue → Acting F σ F} {rule : ShotRule} {now : Actor F σ} {previous? : Option F}
    {r : F × Actor F σ} (gives : law.Gives value rule now previous? r) :
    ∃ x, r.1 = law.close x := by
  cases gives <;> exact ⟨_, rfl⟩

end ShotLaw

section

variable [Exact.Geometry] (env : Env ℚ σ)

theorem Env.wrapped_shotDirection (frames : Frames ℚ) (bullet? : Option (Ammunition ℚ))
    (rule : ShotRule) (shots : Shots ℚ) (a : Actor ℚ σ) :
    Wrapped ((env.shotDirection frames bullet? rule shots).run a).1 := by
  rw [shotDirection_eq]
  obtain ⟨x, same⟩ := (ShotLaw.direction env.host).close_next (env.shotValue frames bullet?)
    shots.direction (shots.nextValue? rule) a
  rw [same]
  exact Angle.wrap_mem x

/-- What is asked of a host, beginning with an entity that has a direction: an entity that is given
off has a normal direction. So has one that is removed, unless it is removed with the first
direction or as it was made. -/
structure Calls.Steered (first : ℚ) (calls : Calls ℚ) : Prop where
  spawned : ∀ b, .spawn b ∈ calls → Normal b.entity.direction
  removed : ∀ e, .remove e ∈ calls →
    e.direction = first ∨ Normal e.direction ∨ ∃ wanted, .create wanted (some e) ∈ calls

namespace Calls.Steered

variable {first : ℚ} {calls calls' : Calls ℚ}

theorem nil : Calls.Steered first [] := ⟨by simp, by simp⟩

theorem append (steered : calls.Steered first) (steered' : calls'.Steered first) :
    Calls.Steered first (calls ++ calls') where
  spawned b member :=
    (List.mem_append.1 member).elim (steered.spawned b) (steered'.spawned b)
  removed e member := by
    rcases List.mem_append.1 member with member | member
    · exact (steered.removed e member).imp_right (Or.imp_right fun ⟨wanted, made⟩ =>
        ⟨wanted, List.mem_append_left _ made⟩)
    · exact (steered'.removed e member).imp_right (Or.imp_right fun ⟨wanted, made⟩ =>
        ⟨wanted, List.mem_append_right _ made⟩)

theorem remove {e : Entity ℚ} (own : e.direction = first ∨ Normal e.direction) :
    Calls.Steered first [.remove e] := by
  refine ⟨by simp, fun e' member => ?_⟩
  obtain rfl : e' = e := by simpa using member
  exact own.imp_right .inl

end Calls.Steered

theorem Env.records_spawn_steered (first : ℚ) (node : NodeId) (bullet? : Option (Ammunition ℚ))
    (position : Vec ℚ) (direction speed : ℚ) :
    Records Stage.noting (env.spawn node bullet? position direction speed)
      (env.recorded.spawn node bullet? position direction speed)
      fun _ _ _ calls => Calls.Steered first calls := by
  unfold spawn
  cases bullet? with
  | none => exact fun s before => ⟨[], by rw [List.append_nil]; rfl, .nil⟩
  | some bullet =>
    refine (records_create env.host ⟨env.emitter, position⟩).followed fun made? => ?_
    cases made? with
    | none =>
      refine fun _ _ => ⟨[], by rw [List.append_nil]; rfl, ?_⟩
      rintro _ _ ⟨rfl, -⟩
      exact ⟨by simp, by simp⟩
    | some made =>
      dsimp only
      by_cases attached : made.emitter? = some env.emitter
      · have attached' : made.emitter? = some env.recorded.emitter := attached
        rw [if_pos attached, if_pos attached']
        have normal : Normal (Angle.normalize direction) := Angle.normalize_mem direction
        refine (env.records_launch bullet _ speed).mono ?_
        rintro _ _ _ _ (⟨rfl, -⟩ | ⟨b, rfl, binds⟩) _ _ ⟨rfl, -⟩
        · exact ⟨by simp, by simpa using .inr (.inl normal)⟩
        · have same : b.entity.direction = Angle.normalize direction := by rw [binds.named]; rfl
          exact ⟨by simpa [same] using normal, by simp⟩
      · have detached : ¬ made.emitter? = some env.recorded.emitter := attached
        rw [if_neg attached, if_neg detached]
        refine fun _ _ => ⟨[.remove made], rfl, ?_⟩
        rintro _ _ ⟨rfl, -⟩
        exact ⟨by simp, by simp⟩

/-! ## Ticks -/

def Work.Wrapped (w : Work) (progress : w.Progress ℚ) : Prop :=
  ∀ shots, w.shots? progress = some shots → Barrage.Wrapped shots.direction

/-- What has become of an entity with a direction, and what its host was asked meanwhile. -/
structure Actor.Steered (first : ℚ) (before : Calls ℚ) (a : Actor ℚ (Recorded ℚ σ)) : Prop where
  own : a.entity.direction = first ∨ Normal a.entity.direction
  calls : ∃ calls, a.world.calls = before ++ calls ∧ calls.Steered first

section

variable {first : ℚ} {before : Calls ℚ} {α : Type}

theorem Idle.safe {x : Acting ℚ σ α} {x' : Acting ℚ (Recorded ℚ σ) α} (idle : Idle x x')
    {Q : α → Prop} (gives : ∀ a, Q (x.run a).1) : Safe (Actor.Steered first before) x' Q := by
  rintro ⟨⟨⟨world, calls⟩, journal⟩, entity⟩ steered
  let a : Actor ℚ σ := { world, journal, entity }
  have same : x'.run (a.noting calls) = _ := idle.silent a calls
  have kept := idle.entity_eq a
  change Q (x'.run (a.noting calls)).1 ∧ Actor.Steered first before (x'.run (a.noting calls)).2
  rw [same]
  refine ⟨gives a, ?_, steered.calls⟩
  change (x.run a).2.entity.direction = first ∨ Normal (x.run a).2.entity.direction
  rw [kept]
  exact steered.own

theorem Work.wrapped_prepare (h : Host ℚ σ) (frames : Frames ℚ) (w : Work) (a : Actor ℚ σ) :
    w.Wrapped ((w.prepare h frames).run a).1 := by
  cases w with
  | fire =>
    rintro _ ⟨⟩
    exact ⟨neg_lt_zero.2 Exact.pi_pos, Exact.pi_pos.le⟩
  | _ => exact nofun

theorem Host.prepares_wrapped (h : Host ℚ σ) (first : ℚ) (before : Calls ℚ) :
    h.recorded.Prepares (Actor.Steered first before) Work.Wrapped where
  fresh frames w := (w.idle_prepare h frames).safe (w.wrapped_prepare h frames)
  reset frames w progress wrapped := (w.idle_prepareReset h frames progress).safe fun a => by
    cases w with
    | fire =>
      rintro _ ⟨⟩
      exact wrapped progress rfl
    | _ => exact nofun
  again frames w progress wrapped := (w.idle_prepareAgain h frames progress).safe fun a => by
    cases w with
    | fire => exact wrapped
    | _ => exact nofun

theorem Calls.Steered.safe {x : Staged σ α} {x' : Staged (Recorded ℚ σ) α}
    (records : Records Stage.noting x x' fun _ _ _ calls => Calls.Steered first calls) :
    Safe (Actor.Steered first before) (Actor.staged x') fun _ => True := by
  rintro ⟨⟨⟨world, _⟩, journal⟩, entity⟩ ⟨own, calls, rfl, steered⟩
  refine ⟨trivial, ?_⟩
  obtain ⟨calls', same, steered'⟩ := records ⟨world, journal⟩ (before ++ calls)
  have step : ((Actor.staged x').run ⟨⟨⟨world, before ++ calls⟩, journal⟩, entity⟩).2 =
    { toStage := (x'.run (Stage.noting ⟨world, journal⟩ (before ++ calls))).2, entity } := rfl
  rw [step, same]
  exact ⟨own, calls ++ calls', List.append_assoc .., steered.append steered'⟩

theorem Env.safe_shoot (env : Env ℚ σ) (node : NodeId) (frames : Frames ℚ)
    (holders : List (Plan ℚ)) (direction speed : ShotRule) (shots : Shots ℚ) :
    Safe (Actor.Steered first before) (env.recorded.shoot node frames holders direction speed shots)
      fun shots => Wrapped shots.direction := by
  unfold shoot
  refine ((env.idle_shotDirection frames _ direction shots).safe
    (env.wrapped_shotDirection frames _ direction shots)).bind fun newDirection wrapped => ?_
  refine ((env.idle_shotSpeed frames _ speed shots).safe (Q := fun _ => True)
    fun _ => trivial).bind fun newSpeed _ => ?_
  refine (Idle.entityNow.safe (Q := fun _ => True) fun _ => trivial).bind fun e _ => ?_
  have spawn := env.records_spawn_steered first node (Ammunition.ofPlans? frames holders) e.position
    newDirection newSpeed
  exact (Calls.Steered.safe spawn).bind fun _ _ => .pure wrapped

theorem Env.keeps_wrapped (env : Env ℚ σ) :
    env.recorded.Keeps (Actor.Steered first before) Work.Wrapped where
  prepares := env.host.prepares_wrapped first before
  passes _ _ := nofun
  ticks outer q cell simple all := by
    cases cell with
    | @mk node args work children finished progress below =>
      obtain ⟨own, others⟩ := all
      -- only a turn writes the direction, and only a fire and a vanishing ask the host
      cases work with
      | sequence | again | action => cases simple
      | wait e => exact fun a steered => ⟨⟨nofun, others⟩, steered⟩
      | turn direction? term? =>
        exact fun a steered => ⟨⟨nofun, others⟩, .inr (Angle.normalize_mem _), steered.calls⟩
      | glide speed? term? | accelerate horizontal? vertical? term? =>
        exact fun a steered => ⟨⟨nofun, others⟩, steered.own, steered.calls⟩
      | fire direction speed =>
        refine (env.safe_shoot node (args :: outer) children direction speed progress).bind
          fun shots wrapped => .pure ⟨?_, others⟩
        rintro _ ⟨⟩
        exact wrapped
      | vanish =>
        rintro a ⟨own, calls, same, steered⟩
        refine ⟨⟨nofun, others⟩, own, calls ++ [.remove a.entity], ?_, steered.append (.remove own)⟩
        rw [← List.append_assoc, ← same]
        rfl

end

end

/-! ## Histories -/

section

variable [Exact.Geometry] {b b₀ : Bullet ℚ} {log : FireLog ℚ}

namespace Bullet

theorem Bound.wrapped (bound : b.Bound) : b.cell.All Work.Wrapped := by
  obtain ⟨-, σ, h, a, started⟩ := bound.built_and_started
  have safe := h.prepares_wrapped a.entity.direction []
  have all := (safe.start b.scope b.plan (a.noting []) ⟨.inl rfl, [], rfl, .nil⟩).1
  rw [(b.plan.idle_start h b.scope).silent a []] at all
  rw [started]
  exact all

theorem records_step_steered (h : Host ℚ σ) (wrapped : b.cell.All Work.Wrapped) :
    Records Stage.noting (b.step h) (b.step h.recorded) fun _ r _ calls =>
      r.2.cell.All Work.Wrapped ∧
      (r.2.entity.direction = b.entity.direction ∨ Normal r.2.entity.direction) ∧
      calls.Steered b.entity.direction := by
  intro s before
  obtain ⟨calls, same, -⟩ := b.records_step h s before
  let a : Actor ℚ (Recorded ℚ σ) := { toStage := s.noting before, entity := b.entity }
  obtain ⟨all, own, calls', added, steered⟩ := ((b.env h).keeps_wrapped.run b.scope b.plan b.cell
    wrapped) a ⟨.inl rfl, [], (List.append_nil before).symm, .nil⟩
  refine ⟨calls, same, ?_⟩
  -- the recorded tick is that of the plan
  obtain rfl : calls = calls' :=
    List.append_cancel_left ((congrArg (·.2.world.calls) same).symm.trans added)
  rw [← congrArg Prod.fst same]
  exact ⟨all, own, steered⟩

theorem Fires.wrapped (fires : b₀.Fires log b) (bound : b₀.Bound) : b.cell.All Work.Wrapped := by
  induction fires with
  | refl => exact bound.wrapped
  | step before h s ih =>
    obtain ⟨calls, -, all, -⟩ := records_step_steered h ih s []
    exact all
  | write before entity ih => exact ih

theorem Fires.wrapped_shot (fires : b₀.Fires log b) (bound : b₀.Bound) {path : TaskPath}
    {q : Plan ℚ} {direction speed : ShotRule} (there : b₀.plan.at? path = some q)
    (fire : q.work = .fire direction speed) {f : Firing ℚ} (shot : .fired path f ∈ log) :
    Wrapped f.direction := by
  obtain ⟨-, _, h, a, started⟩ := bound.built_and_started
  obtain ⟨frames, inScope⟩ := b₀.plan.exists_framesAt? b₀.scope there
  have start : TaskState.Remembers path [] ⟨b₀.cell⟩ :=
    started ▸ b₀.plan.start_remembers h b₀.scope there fire a
  obtain ⟨fs, ⟨obeys, -⟩, -⟩ := fires.numbers there inScope fire start
  obtain ⟨earlier, later, split⟩ := List.append_of_mem shot
  obtain ⟨_, _, gives, -⟩ := obeys earlier f later split
  obtain ⟨x, same⟩ := gives.eq_close
  have wrapped : f.direction = Angle.wrap x := same
  rw [wrapped]
  exact Angle.wrap_mem x

end Bullet

end

/-! ## Turns -/

def Observer.directions {F : Type} [Scalar F] : Observer F (Option F) where
  prepared _ _ _ _ := none
  ticked env around q cell a := some ((env.run around q cell).run a).2.entity.direction

theorem Observer.keeps_directions [Exact.Geometry] {node : NodeId} {args : List ℚ}
    {direction? : Option Wanted} {term? : Option Expression} {children : List (Plan ℚ)}
    (around : Frames ℚ) :
    Observer.directions.Keeps (.mk node args (.turn direction? term?) children) around
      fun notes _ => ∀ x, some x ∈ notes → Normal x where
  prepared h now notes cell before unfinished made x noted := by
    rcases before with rfl | ⟨_, before⟩
    · simp [directions] at noted
    · exact before x (by simpa [directions] using noted)
  ticked env now notes cell seen unfinished x noted := by
    rcases List.mem_append.1 noted with noted | noted
    · exact seen x noted
    · cases cell with
      | mk finished progress below =>
        obtain rfl := Option.some.inj (List.mem_singleton.1 noted)
        exact Angle.normalize_mem _

/-! ## A turn and a shot

A bullet turns to 300 degrees within one tick and then fires that way. -/

namespace Exact.Sample

open Barrage.Sample (constant)

def turretTree : Tree :=
  Tree.empty
    |>.push { kind := .action } none
    |>.push { kind := .changeDirection } (some 0)
    |>.push { kind := .direction, policy := .absolute, expression := constant 300 } (some 1)
    |>.push { kind := .term, expression := constant 1 } (some 1)
    |>.push { kind := .fire } (some 0)
    |>.push { kind := .direction, policy := .absolute, expression := constant 300 } (some 4)

def turretPattern : Pattern := { tree := turretTree, links := Links.blank 6 }

def turretTurn : Plan ℚ :=
  .mk 1 [] (.turn (some ⟨.absolute, constant 300⟩) (some (constant 1))) []

def turretFire : Plan ℚ :=
  .mk 4 [] (.fire (turretTree.shotRule .direction 4 none) (turretTree.shotRule .speed 4 none)) []

def turretPlan : Plan ℚ := .mk 0 [] .sequence [turretTurn, turretFire]

def turret : Bullet ℚ where
  entity := entity.named (turretTree.patternName? 0)
  pattern := turretPattern
  node := 0
  plan := turretPlan
  cell := ((turretPlan.start host []).run { toStage := stage, entity }).1
  scope? := none
  emitter := 0

theorem build_turret :
    (Plan.build host turretPattern [] 0).run stage = (.ok turretPlan, stage) := by
  have turn : ∀ outer, Assembly.node turretPattern host 0 outer 1 = (do
      Assembly.claim
      pure [turretTurn]) := by
    intro outer
    rw [Assembly.node]
    rfl
  have fire : ∀ outer, Assembly.node turretPattern host 0 outer 4 = (do
      let made ← Assembly.fire turretPattern host outer [] 4
      pure [made]) := by
    intro outer
    rw [Assembly.node]
    rfl
  have children : turretPattern.tree.children 0 = [1, 4] := rfl
  simp only [Plan.build, Assembly.root, children, List.mapM_cons, List.mapM_nil, turn, fire]
  rfl

theorem bind_turret : (Bullet.bind host entity turretPattern 0 none 0).run stage
    = (.ok turret, stage) := by
  rw [Bullet.bind, run_bind_eq]
  simp only [Option.getD, build_turret]
  rfl

theorem watched_turret : ((turret.step host).run stage).1.2.Watched .directions [0]
    [none, some 5] := by
  have bound : turret.Watched Observer.directions [0] _ := .bound bind_turret
  have notes : Observer.directions.bind host [0] entity turretPattern 0 none stage = [none] := by
    rw [Observer.bind]
    simp only [Option.getD, build_turret]
    decide +kernel
  have tick : Observer.directions.tick (turret.env host) [0] turret.scope turret.plan turret.cell
      { toStage := stage, entity := turret.entity } = [some 5] := by
    decide +kernel
  rw [notes] at bound
  have step := bound.step host stage
  rw [tick] at step
  exact step

end Exact.Sample

/-- Wrapping and normalizing give the same angle within one turn, and each absorbs the other. So
every direction that a turn writes, in any history of any bullet, is not negative and below a full
turn, and so is that of every entity that a fire gives off; what fires remember of their last shots
is above minus a half turn and up to a half turn. A bullet's own direction changes only to a
direction that is not negative and below a full turn, and an entity is removed with the direction it
was made with or with such a direction. -/
theorem Angle.directions_in_range [Exact.Geometry] :
    (∀ a : ℚ, wrap a ∈ Set.Ioc (-Scalar.pi) Scalar.pi ∧ normalize a ∈ Set.Ico 0 Scalar.tau ∧
      wrap a ≡ a [PMOD Scalar.tau] ∧ normalize a ≡ a [PMOD Scalar.tau] ∧
      wrap (wrap a) = wrap a ∧ normalize (normalize a) = normalize a ∧
      normalize (wrap a) = normalize a ∧ wrap (normalize a) = wrap a) ∧
    (∀ (b : Bullet ℚ) path notes (q : Plan ℚ) direction? term?,
      b.Watched .directions path notes → b.plan.at? path = some q →
      q.work = .turn direction? term? → ∀ x, some x ∈ notes → Normal x) ∧
    ∀ (b₀ b : Bullet ℚ) (log : FireLog ℚ), b₀.Bound → b₀.Fires log b →
      (∀ path (t : TaskState ℚ) shots, b.cell.at? path = some t → t.cell.shots? = some shots →
        Wrapped shots.direction) ∧
      (∀ path (q : Plan ℚ) direction speed f, b₀.plan.at? path = some q →
        q.work = .fire direction speed →
        .fired path f ∈ log → Wrapped f.direction) ∧
      ∀ {σ : Type} (h : Host ℚ σ), Records Stage.noting (b.step h) (b.step h.recorded)
        fun _ r _ calls =>
          (r.2.entity.direction = b.entity.direction ∨ Normal r.2.entity.direction) ∧
          (∀ fired, .spawn fired ∈ calls → Normal fired.entity.direction) ∧
          ∀ e, .remove e ∈ calls → e.direction = b.entity.direction ∨ Normal e.direction ∨
            ∃ wanted, .create wanted (some e) ∈ calls := by
  refine ⟨fun a => ⟨wrap_mem a, normalize_mem a, wrap_modEq a, normalize_modEq a, wrap_wrap a,
    normalize_normalize a, normalize_wrap a, wrap_normalize a⟩, ?_, ?_⟩
  · rintro b path notes ⟨node, args, work, children⟩ direction? term? watched there turns
    obtain rfl : work = .turn direction? term? := turns
    obtain ⟨cell, -, normal⟩ := watched.shows there rfl Observer.keeps_directions
    exact normal
  · intro b₀ b log bound fires
    have wrapped := fires.wrapped bound
    refine ⟨fun path t shots there remembers => ?_, fun path q direction speed f there fire shot =>
      fires.wrapped_shot bound there fire shot, fun h => ?_⟩
    · obtain ⟨cell⟩ := t
      have own := wrapped.at? there
      cases cell with
      | mk finished progress below => exact own.1 shots remembers
    · refine (b.records_step_steered h wrapped).mono ?_
      rintro _ _ _ _ ⟨-, own, spawned, removed⟩
      exact ⟨own, spawned, removed⟩

open scoped Exact.Sample in
/-- Where a full turn is six, 300 degrees are five for a turn and minus one for a shot. -/
theorem Angle.directions_in_range_turret :
    let later := ((Exact.Sample.turret.step Exact.Sample.host).run Exact.Sample.stage).1.2
    later.Watched .directions [0] [none, some 5] ∧ Normal 5 ∧
    ∃ f, Exact.Sample.turret.Fires [.fired [1] f] later ∧ f.direction = -1 ∧
      Wrapped f.direction := by
  obtain ⟨-, turns, shots⟩ := directions_in_range
  have normal := turns _ _ _ Exact.Sample.turretTurn _ _ Exact.Sample.watched_turret rfl rfl 5
    (by simp)
  have fires : Exact.Sample.turret.Fires
      (Exact.Sample.turret.fireLog Exact.Sample.host Exact.Sample.stage) _ :=
    .step (.refl _) Exact.Sample.host Exact.Sample.stage
  have bound : Exact.Sample.turret.Bound :=
    ⟨_, _, _, _, _, _, _, _, _, Exact.Sample.bind_turret⟩
  obtain ⟨-, wrapped, -⟩ := shots _ _ _ bound fires
  have told : (Exact.Sample.turret.fireLog Exact.Sample.host Exact.Sample.stage).map
      (fun e => match e with
        | .fired path f => (path, some f.direction)
        | .restarted path => (path, none)) = [([1], some (-1))] := by
    decide +kernel
  generalize Exact.Sample.turret.fireLog Exact.Sample.host Exact.Sample.stage = log
    at fires wrapped told
  rcases log with _ | ⟨_ | _, _ | _⟩ <;>
    simp only [List.map_cons, List.map_nil, List.cons.injEq, Prod.mk.injEq, reduceCtorEq, and_true,
      and_false, Option.some.injEq] at told
  obtain ⟨rfl, minusOne⟩ := told
  exact ⟨Exact.Sample.watched_turret, normal, _, fires, minusOne,
    wrapped [1] Exact.Sample.turretFire _ _ _ rfl rfl List.mem_cons_self⟩

end Barrage
