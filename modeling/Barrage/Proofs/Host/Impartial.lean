import Barrage.Proofs.Host.CoupledTicks
import Barrage.Proofs.Host.ShotBullets

/-!
Hosts that treat all alike. They have one target and one difficulty, never refuse an entity, and
make the same one for the same wish, but for its number. Where no random numbers are drawn either,
what a bullet does in a tick does not depend on the world: it comes to the same state and asks for
the same, but for the numbers of new entities.
-/

set_option autoImplicit false

namespace Barrage

variable {F σ τ : Type}

/-! ## Expressions without random numbers -/

def Term.draws : Term → Bool
  | .rand => true
  | .number _ | .param _ | .rank => false
  | .neg t => t.draws
  | .binary _ a b => a.draws || b.draws

def Expression.draws (e : Expression) : Bool := e.term?.any Term.draws

/-- No expression of the pattern draws random numbers. -/
def Pattern.Steady (p : Pattern) : Prop := ∀ n ∈ p.tree.nodes, n.expression.draws = false

theorem Pattern.Steady.expression {p : Pattern} (steady : p.Steady) (i : NodeId) :
    (p.tree.expression i).draws = false := by
  unfold Tree.expression
  split
  · next n atNode => exact steady n (Array.mem_of_getElem? atNode)
  · rfl

variable [Scalar F] {h : Host F σ} {h' : Host F τ}

/-- A value without random numbers leaves the world alone and depends on the difficulty only. -/
theorem Term.evaluate_steady {t : Term} (steady : t.draws = false) (frames : Frames F) {s : Stage σ}
    {s' : Stage τ} (rank : h.rank s.world = h'.rank s'.world) :
    (t.evaluate (h.reading frames) s).1 = (t.evaluate (h'.reading frames) s').1 ∧
      (t.evaluate (h.reading frames) s).2.world = s.world ∧
      (t.evaluate (h'.reading frames) s').2.world = s'.world := by
  induction t generalizing s s' with
  | number => exact ⟨rfl, rfl, rfl⟩
  | rand => cases steady
  | rank => exact ⟨rank, rfl, rfl⟩
  | param n =>
    simp only [Term.evaluate, Host.reading]
    cases frames.param? n <;> exact ⟨rfl, rfl, rfl⟩
  | neg t ih =>
    obtain ⟨same, world, world'⟩ := ih steady rank
    simp only [Term.evaluate, same]
    exact ⟨trivial, world, world'⟩
  | binary op a b iha ihb =>
    obtain ⟨left, right⟩ := Bool.or_eq_false_iff.1 steady
    obtain ⟨same, world, world'⟩ := iha left rank
    rw [← world, ← world'] at rank
    obtain ⟨same', after, after'⟩ := ihb right rank
    simp only [Term.evaluate, same, same']
    exact ⟨trivial, after.trans world, after'.trans world'⟩

theorem Host.evaluate_steady {e : Expression} (steady : e.draws = false) (frames : Frames F)
    {s : Stage σ} {s' : Stage τ} (rank : h.rank s.world = h'.rank s'.world) :
    ((h.evaluate frames e).run s).1 = ((h'.evaluate frames e).run s').1 ∧
      ((h.evaluate frames e).run s).2.world = s.world ∧
      ((h'.evaluate frames e).run s').2.world = s'.world := by
  obtain ⟨source, _ | t⟩ := e
  · exact ⟨rfl, rfl, rfl⟩
  · exact t.evaluate_steady steady frames rank

/-! ## Hosts -/

/-- Among some worlds, which it does not leave, a host has one target for entities that are alike
and one difficulty, and makes entities that are alike for the same wish. -/
structure Host.Impartial (among : σ → Prop) (h : Host F σ) : Prop where
  target : ∀ {w w'}, among w → among w' → ∀ e id, h.target e w = h.target { e with id } w'
  rank : ∀ {w w'}, among w → among w' → h.rank w = h.rank w'
  create : ∀ {w w'}, among w → among w' → ∀ wanted, ∃ e id,
    (h.create wanted w).1 = some e ∧ (h.create wanted w').1 = some { e with id }
  created : ∀ {w}, among w → ∀ wanted, among (h.create wanted w).2
  spawned : ∀ {w}, among w → ∀ b, among (h.spawn b w)
  removed : ∀ {w}, among w → ∀ e, among (h.remove e w)

/-- The same is asked for, but for the numbers of new entities: an entity is made and given off or
removed, or the own entity is removed. -/
inductive Dealt (own : Nat → Prop) : Calls F → Calls F → Prop where
  | nil : Dealt own [] []
  | fired {calls calls' : Calls F} {wanted : Emission F} {made : Entity F} {b : Bullet F} {id : Nat}
      (before : Dealt own calls calls') (same : b.entity.id = made.id) :
      Dealt own (calls ++ [.create wanted (some made), .spawn b])
        (calls' ++ [.create wanted (some { made with id }),
          .spawn { b with entity := { b.entity with id } }])
  | lost {calls calls' : Calls F} {wanted : Emission F} {made gone : Entity F} {id : Nat}
      (before : Dealt own calls calls') (same : gone.id = made.id) :
      Dealt own (calls ++ [.create wanted (some made), .remove gone])
        (calls' ++ [.create wanted (some { made with id }), .remove { gone with id }])
  | vanished {calls calls' : Calls F} {e : Entity F} (before : Dealt own calls calls')
      (mine : own e.id) : Dealt own (calls ++ [.remove e]) (calls' ++ [.remove e])

section Worlds

variable {among : σ → Prop} {worlds : Recorded F σ → Recorded F σ → Prop}

variable (impartial : h.Impartial among)
  (within : ∀ {w w'}, worlds w w' → among w.world ∧ among w'.world)

include impartial within

theorem Host.Impartial.agrees : h.recorded.Agrees (fun e => e.draws = false)
    (fun s s' => worlds s.world s'.world) h.recorded := by
  intro frames e steady s s' both
  obtain ⟨here, there⟩ := within both
  have rank : h.recorded.rank s.world = h.recorded.rank s'.world := impartial.rank here there
  obtain ⟨same, world, world'⟩ := Host.evaluate_steady steady frames rank
  refine ⟨same, ?_⟩
  dsimp only
  rwa [world, world']

theorem Host.Impartial.acting {entities : Entity F → Entity F → Prop}
    (alike : ∀ {e e'}, entities e e' → e.Alike e') :
    Actor.Agrees (fun e => e.draws = false)
      (fun a a' => worlds a.world a'.world ∧ entities a.entity a'.entity) h.recorded
      h.recorded where
  evaluate frames e steady a a' both := by
    obtain ⟨same, world⟩ := impartial.agrees within frames steady a.toStage a'.toStage both.1
    exact ⟨same, world, both.2⟩
  aim := by
    intro a a' both
    refine ⟨?_, both⟩
    obtain ⟨here, there⟩ := within both.1
    obtain ⟨id, same⟩ := alike both.2
    change Angle.aim a.entity.position (h.target a.entity a.world.world) =
      Angle.aim a'.entity.position (h.target a'.entity a'.world.world)
    rw [same, ← impartial.target here there]
  entity both := alike both.2

end Worlds

structure Standing (among : σ → Prop) (calls calls' : Calls F) (w w' : Recorded F σ) : Prop where
  here : among w.world
  there : among w'.world
  own : w.calls = calls
  other : w'.calls = calls'

/-- The same was asked for in two worlds, but for the numbers of new entities. -/
def Asked (among : σ → Prop) (own : Nat → Prop) (start start' : Calls F) (w w' : Recorded F σ) :
    Prop :=
  ∃ calls calls', Dealt own calls calls' ∧ Standing among (start ++ calls) (start' ++ calls') w w'

/-! ## Shots -/

variable {among : σ → Prop} {own : Nat → Prop} {calls calls' start start' : Calls F}

omit [Scalar F] in
theorem Standing.asked {w w' : Recorded F σ} {new new' : Calls F}
    (standing : Standing among calls calls' w w') (dealt : Dealt own new new')
    (same : calls = start ++ new) (same' : calls' = start' ++ new') :
    Asked among own start start' w w' := by
  subst same same'
  exact ⟨new, new', dealt, standing⟩

/-- After an entity was to be bound, and one like it elsewhere: both are in bullets, or removed. -/
inductive Bullet.Treated (among : σ → Prop) (calls calls' : Calls F) (e : Entity F) (id : Nat) :
    Except RunError (Bullet F) → Except RunError (Bullet F) → Stage (Recorded F σ) →
    Stage (Recorded F σ) → Prop where
  | bound {b : Bullet F} {s s' : Stage (Recorded F σ)} (same : b.entity.id = e.id)
      (standing : Standing among calls calls' s.world s'.world) :
      Treated among calls calls' e id (.ok b) (.ok { b with entity := { b.entity with id } }) s s'
  | failed {error : RunError} {s s' : Stage (Recorded F σ)}
      (standing : Standing among (calls ++ [.remove e]) (calls' ++ [.remove { e with id }])
        s.world s'.world) : Treated among calls calls' e id (.error error) (.error error) s s'

section Shots

variable (impartial : h.Impartial among)

include impartial

omit [Scalar F] in
theorem Standing.create {w w' : Recorded F σ} (standing : Standing among calls calls' w w')
    {wanted : Emission F} {made? made?' : Option (Entity F)}
    (made : (h.create wanted w.world).1 = made?) (made' : (h.create wanted w'.world).1 = made?') :
    Standing among (calls ++ [.create wanted made?]) (calls' ++ [.create wanted made?'])
      (h.recorded.create wanted w).2 (h.recorded.create wanted w').2 where
  here := impartial.created standing.here wanted
  there := impartial.created standing.there wanted
  own := by simp [Host.recorded, standing.own, made]
  other := by simp [Host.recorded, standing.other, made']

omit [Scalar F] in
theorem Standing.remove {w w' : Recorded F σ} (standing : Standing among calls calls' w w')
    (e e' : Entity F) : Standing among (calls ++ [.remove e]) (calls' ++ [.remove e'])
      (h.recorded.remove e w) (h.recorded.remove e' w') where
  here := impartial.removed standing.here e
  there := impartial.removed standing.there e'
  own := by simp [Host.recorded, standing.own]
  other := by simp [Host.recorded, standing.other]

omit [Scalar F] in
theorem Standing.spawn {w w' : Recorded F σ} (standing : Standing among calls calls' w w')
    (b b' : Bullet F) : Standing among (calls ++ [.spawn b]) (calls' ++ [.spawn b'])
      (h.recorded.spawn b w) (h.recorded.spawn b' w') where
  here := impartial.spawned standing.here b
  there := impartial.spawned standing.there b'
  own := by simp [Host.recorded, standing.own]
  other := by simp [Host.recorded, standing.other]

variable {p : Pattern} (steady : p.Steady)

include steady

theorem Bullet.coupled_bind_alike (e : Entity F) (id : Nat) (node : NodeId)
    (scope? : Option (Frames F)) (emitter : EmitterId) :
    Coupled (fun s s' => Standing among calls calls' s.world s'.world)
      (Bullet.bind h.recorded e p node scope? emitter)
      (Bullet.bind h.recorded { e with id } p node scope? emitter)
      (Bullet.Treated among calls calls' e id) := by
  have within : ∀ {w w' : Recorded F σ}, Standing among calls calls' w w' →
      among w.world ∧ among w'.world := fun standing => ⟨standing.here, standing.there⟩
  intro s s' standing
  obtain ⟨same, standing⟩ := Plan.together_build (impartial.agrees within) steady.expression
    (scope?.getD []) node s s' standing
  rw [Bullet.bind, Bullet.bind, run_bind_eq, run_bind_eq]
  generalize (Plan.build h.recorded p (scope?.getD []) node).run s' = r' at same standing ⊢
  cases built : (Plan.build h.recorded p (scope?.getD []) node).run s with
  | mk outcome t =>
    obtain ⟨_, t'⟩ := r'
    rw [built] at same standing
    obtain rfl : outcome = _ := same
    cases outcome with
    | error error => exact .failed (standing.remove impartial e { e with id })
    | ok plan =>
      have alike : ∀ {e₁ e₂ : Entity F}, e₁ = e ∧ e₂ = { e with id } → e₁.Alike e₂ := by
        rintro _ _ ⟨rfl, rfl⟩
        exact ⟨id, rfl⟩
      have reads : plan.Reads fun e => e.draws = false :=
        (Plan.made_of_build built).reads steady.expression
      obtain ⟨cell, standing, own, other⟩ := Plan.together_start
        (impartial.acting within alike) (scope?.getD []) plan reads
        { toStage := t, entity := e } { toStage := t', entity := { e with id } }
        ⟨standing, rfl, rfl⟩
      let bullet (cell : Cell F plan) (now : Entity F) : Bullet F :=
        { entity := now.named (p.tree.patternName? node), pattern := p, node, plan, cell, scope?,
          emitter }
      let r := (plan.start h.recorded (scope?.getD [])).run { toStage := t, entity := e }
      let r' := (plan.start h.recorded (scope?.getD [])).run
        { toStage := t', entity := { e with id } }
      change Bullet.Treated among calls calls' e id (.ok (bullet r.1 r.2.entity))
        (.ok (bullet r'.1 r'.2.entity)) r.2.toStage r'.2.toStage
      rw [show r.2.entity = e from own, show r'.2.entity = { e with id } from other,
        show r'.1 = r.1 from cell.symm]
      exact .bound rfl standing

end Shots

namespace Env

variable {env : Env F σ} (impartial : env.host.Impartial among)

section Spawning

variable (steady : env.pattern.Steady)

include impartial steady

/-- An entity that is launched comes back in a bullet or is removed, and so does one like it. -/
theorem coupled_launch (bullet : Ammunition F) (e : Entity F) (id : Nat) (speed : F) :
    Coupled (fun s s' => Standing among calls calls' s.world s'.world)
      (env.recorded.launch bullet e speed) (env.recorded.launch bullet { e with id } speed)
      fun _ _ s s' =>
        (∃ b : Bullet F, b.entity.id = e.id ∧ Standing among (calls ++ [.spawn b])
          (calls' ++ [.spawn { b with entity := { b.entity with id } }]) s.world s'.world) ∨
        Standing among (calls ++ [.remove e]) (calls' ++ [.remove { e with id }])
          s.world s'.world := by
  refine (Bullet.coupled_bind_alike impartial steady e id bullet.node (some bullet.frames.pruned)
    env.emitter).bind ?_
  rintro _ _ s s' (⟨same, standing⟩ | standing)
  · exact .inl ⟨_, same, standing.spawn impartial _ _⟩
  · exact .inr standing

theorem together_spawn_alike (fire : NodeId) (bullet? : Option (Ammunition F)) (position : Vec F)
    (direction speed : F) :
    Together (fun s s' => Asked among own start start' s.world s'.world)
      (env.recorded.spawn fire bullet? position direction speed)
      (env.recorded.spawn fire bullet? position direction speed) := by
  rintro s s' ⟨calls, calls', dealt, standing⟩
  cases bullet? with
  | none => exact ⟨rfl, calls, calls', dealt, standing⟩
  | some bullet =>
    obtain ⟨e, id, made, made'⟩ := impartial.create standing.here standing.there
      ⟨env.emitter, position⟩
    have pending := standing.create impartial made made'
    have asks : ∀ s : Stage (Recorded F σ),
        (Stage.ask (env.recorded.host.create ⟨env.recorded.emitter, position⟩)).run s =
          ((env.host.create ⟨env.emitter, position⟩ s.world.world).1,
            ⟨(env.host.recorded.create ⟨env.emitter, position⟩ s.world).2, s.journal⟩) :=
      fun _ => rfl
    rw [spawn, run_bind_eq, run_bind_eq, asks, asks, made, made']
    dsimp only
    by_cases attached : e.emitter? = some env.recorded.emitter
    · rw [if_pos attached, if_pos attached]
      let fired : Entity F := { e with position, direction := Angle.normalize direction, speed }
      refine ⟨rfl, ?_⟩
      rcases coupled_launch impartial steady bullet fired id speed ⟨_, s.journal⟩ ⟨_, s'.journal⟩
        pending with ⟨b, same, standing⟩ | standing
      · exact standing.asked (@Dealt.fired _ _ _ _ ⟨env.emitter, position⟩ e b id dealt same)
          (by simp) (by simp)
      · exact standing.asked (@Dealt.lost _ _ _ _ ⟨env.emitter, position⟩ e fired id dealt rfl)
          (by simp) (by simp)
    · rw [if_neg attached, if_neg attached]
      refine ⟨rfl, ?_⟩
      exact (pending.remove impartial e { e with id }).asked
        (@Dealt.lost _ _ _ _ ⟨env.emitter, position⟩ e e id dealt rfl) (by simp) (by simp)

end Spawning

/-- A bullet's own entity in two worlds, in which the same was asked for. -/
def Abreast (among : σ → Prop) (own : Nat → Prop) (start start' : Calls F)
    (a a' : Actor F (Recorded F σ)) : Prop :=
  Asked among own start start' a.world a'.world ∧ a.entity = a'.entity ∧ own a.entity.id

omit [Scalar F] in
include impartial in
theorem together_vanish_alike (node : NodeId) :
    Together (Abreast among own start start') (env.recorded.vanish node)
      (env.recorded.vanish node) := by
  rintro ⟨s, e⟩ ⟨s', e'⟩ ⟨⟨calls, calls', dealt, standing⟩, same, mine⟩
  obtain rfl : e = e' := same
  exact ⟨rfl, (standing.remove impartial e e).asked (dealt.vanished mine) (List.append_assoc ..)
    (List.append_assoc ..), rfl, mine⟩

include impartial in
theorem linked_alike (steady : env.pattern.Steady) :
    Linked (.together (Abreast among own start start')) (fun e => e.draws = false) env.recorded
      env.recorded := by
  have within : ∀ {w w' : Recorded F σ}, Asked among own start start' w w' →
      among w.world ∧ among w'.world := fun ⟨_, _, _, standing⟩ => ⟨standing.here, standing.there⟩
  have alike : ∀ {e e' : Entity F}, e = e' ∧ own e.id → e.Alike e' := fun both => .of_eq both.1
  have agrees : Actor.Agrees (fun e => e.draws = false) (Abreast among own start start')
    env.recorded.host env.recorded.host := impartial.acting within alike
  refine .of_agrees agrees (fun both => both.2.1) ?_ ?_ (together_vanish_alike impartial)
  · rintro f kept ⟨s, e⟩ ⟨s', e'⟩ ⟨asked, same, mine⟩
    exact ⟨rfl, asked, congrArg f same, (kept e).symm ▸ mine⟩
  · rintro fire bullet? position direction speed ⟨s, e⟩ ⟨s', e'⟩ ⟨asked, same, mine⟩
    obtain ⟨-, asked⟩ := together_spawn_alike impartial steady fire bullet? position direction speed
      s s' asked
    exact ⟨rfl, asked, same, mine⟩

end Env

variable (impartial : h.Impartial among) {b : Bullet F} (steady : b.pattern.Steady)
  (reads : b.plan.Reads fun e => e.draws = false)

include impartial steady reads

theorem Bullet.together_step_alike :
    Together (fun s s' => Asked among (· = b.entity.id) start start' s.world s'.world)
      (b.step h.recorded) (b.step h.recorded) := by
  intro s s' asked
  have everyone : (b.env h).host.Impartial among := impartial
  obtain ⟨same, asked, entity, -⟩ := (Env.linked_alike everyone steady).run b.scope b.plan reads
    b.cell { toStage := s, entity := b.entity } { toStage := s', entity := b.entity }
    ⟨asked, rfl, rfl⟩
  let after (r : Status × Cell F b.plan) (entity : Entity F) : Status × Bullet F :=
    (r.1, { b with cell := r.2, entity })
  exact ⟨congrArg₂ after same entity, asked⟩

/-- In any two worlds a bullet comes to the same state and asks for the same in a tick, but for the
numbers of new entities. -/
theorem Bullet.together_update_alike :
    Together (fun s s' => Asked among (· = b.entity.id) start start' s.world s'.world)
      (b.update h.recorded) (b.update h.recorded) :=
  (together_step_alike impartial steady reads).bind fun _ => .pure _

end Barrage
