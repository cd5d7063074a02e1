import Barrage.Proofs.Task.Shots

/-!
Whose values the shots of a fire take: those of the fire itself, or those of its bullet. A value is
either one that shots go on with, added to that of the shot before, or one that a shot begins with.
Of each sort the fire's own value goes first. So a value of the fire that shots begin with is taken
by all of its shots, unless its bullet has one to go on with: then only first shots take it.
-/

set_option autoImplicit false

namespace Barrage

variable {F σ : Type}

/-! ## The fire's value and the bullet's -/

namespace Tree

variable (t : Tree) (kind : Kind) (fire : NodeId) (bullet? : Option NodeId)

def bulletWanted? : Option Wanted := bullet?.bind fun b => t.wanted? b kind

def shotValues : List ShotValue :=
  ((t.wanted? fire kind).map fun w => ⟨w, false⟩).toList ++
    ((t.bulletWanted? kind bullet?).map fun w => ⟨w, true⟩).toList

variable {t kind fire bullet?} {good : ShotValue → Bool} {w : Wanted}

theorem find?_own (own : t.wanted? fire kind = some w) (isGood : good ⟨w, false⟩) :
    (t.shotValues kind fire bullet?).find? good = some ⟨w, false⟩ := by
  simp [shotValues, own, isGood]

theorem find?_theirs (others : ∀ w ∈ t.wanted? fire kind, good ⟨w, false⟩ = false)
    (theirs : t.bulletWanted? kind bullet? = some w) (isGood : good ⟨w, true⟩) :
    (t.shotValues kind fire bullet?).find? good = some ⟨w, true⟩ := by
  unfold shotValues
  cases own : t.wanted? fire kind with
  | none => simp [theirs, isGood]
  | some w' => simp [theirs, isGood, others w' own]

theorem find?_neither (others : ∀ w ∈ t.wanted? fire kind, good ⟨w, false⟩ = false)
    (theirs : ∀ w ∈ t.bulletWanted? kind bullet?, good ⟨w, true⟩ = false) :
    (t.shotValues kind fire bullet?).find? good = none := by
  unfold shotValues
  rw [List.find?_eq_none]
  simp only [List.mem_append, Option.mem_toList, Option.map_eq_some_iff]
  rintro _ (⟨w, own, rfl⟩ | ⟨w, own, rfl⟩)
  · simp [others w own]
  · simp [theirs w own]

end Tree

/-! ## The law of a shot by whose value it takes -/

variable [Scalar F]

namespace ShotLaw

variable (law : ShotLaw F σ) (value : ShotValue → Acting F σ F)

def begun (v : ShotValue) (now : Actor F σ) : F × Actor F σ :=
  let (x, a) := (value v).run now
  (law.initial v.policy x a, a)

def gone (v : ShotValue) (previous : F) (now : Actor F σ) : F × Actor F σ :=
  let (x, a) := (value v).run now
  (law.close (previous + law.unit x), a)

namespace Gives

variable {law value} {rule : ShotRule} {now : Actor F σ} {previous? : Option F}
  {r : F × Actor F σ} {v : ShotValue}

theorem eq_begun (gives : law.Gives value rule now previous? r)
    (anew : previous? = none ∨ rule.later? = none) (known : rule.first? = some v) :
    r = law.begun value v now := by
  cases gives with
  | later sequence => simp [sequence] at anew
  | first _ known' evaluated =>
    obtain rfl := Option.some.inj (known'.symm.trans known)
    rw [begun, evaluated]
  | bare _ missing => simp [missing] at known

theorem eq_gone {previous : F} (gives : law.Gives value rule now (some previous) r)
    (known : rule.later? = some v) : r = law.gone value v previous now := by
  cases gives with
  | later known' evaluated =>
    obtain rfl := Option.some.inj (known'.symm.trans known)
    rw [gone, evaluated]
  | first anew => simp [known] at anew
  | bare anew => simp [known] at anew

theorem eq_bare (gives : law.Gives value rule now previous? r)
    (anew : previous? = none ∨ rule.later? = none) (missing : rule.first? = none) :
    r = (law.close (law.bare now), now) := by
  cases gives with
  | later sequence => simp [sequence] at anew
  | first _ known => simp [missing] at known
  | bare => rfl

end Gives

/-- What a shot has, by the value `own?` of its fire and the value `theirs?` of its bullet. -/
structure Ranks (own? theirs? : Option Wanted) (now : Actor F σ) (previous? : Option F)
    (r : F × Actor F σ) : Prop where
  /-- The fire's value to begin with is taken by all first shots, and by all later ones unless the
  bullet has a value to go on with. -/
  own : ∀ w ∈ own?, w.policy ≠ .sequence →
    (previous? = none ∨ ∀ w' ∈ theirs?, w'.policy ≠ .sequence) → r = law.begun value ⟨w, false⟩ now
  /-- The fire's value to go on with is taken by all later shots. -/
  ownOn : ∀ w ∈ own?, w.policy = .sequence → ∀ previous ∈ previous?,
    r = law.gone value ⟨w, false⟩ previous now
  /-- The bullet's value to begin with is taken if the fire has none of its own. -/
  theirs : (∀ w ∈ own?, w.policy = .sequence) → ∀ w' ∈ theirs?, w'.policy ≠ .sequence →
    (previous? = none ∨ own? = none) → r = law.begun value ⟨w', true⟩ now
  /-- The bullet's value to go on with is taken by later shots, also if the fire has a value that
  its shots begin with. -/
  theirsOn : (∀ w ∈ own?, w.policy ≠ .sequence) → ∀ w' ∈ theirs?, w'.policy = .sequence →
    ∀ previous ∈ previous?, r = law.gone value ⟨w', true⟩ previous now
  /-- Without a value to take, a shot has what the entity has or aims at the target. -/
  bare : (∀ w ∈ own?, w.policy = .sequence) → (∀ w' ∈ theirs?, w'.policy = .sequence) →
    (previous? = none ∨ own? = none ∧ theirs? = none) → r = (law.close (law.bare now), now)

variable {law value} {t : Tree} {kind : Kind} {fire : NodeId} {bullet? : Option NodeId}
  {now : Actor F σ} {previous? : Option F} {r : F × Actor F σ}

theorem Gives.ranks (gives : law.Gives value (t.shotRule kind fire bullet?) now previous? r) :
    law.Ranks value (t.wanted? fire kind) (t.bulletWanted? kind bullet?) now previous? r where
  own w own sets anew := by
    refine gives.eq_begun (anew.imp_right fun theirs => ?_)
      (Tree.find?_own own (by simpa using sets))
    refine Tree.find?_neither (fun w' own' => ?_) (by simpa using theirs)
    obtain rfl := Option.some.inj (own.symm.trans own')
    simpa using sets
  ownOn w own on previous known := by
    obtain rfl := Option.mem_def.1 known
    exact gives.eq_gone (Tree.find?_own own (by simpa using on))
  theirs passes w' theirs sets anew := by
    refine gives.eq_begun (anew.imp_right fun missing => ?_)
      (Tree.find?_theirs (by simpa using passes) theirs (by simpa using sets))
    refine Tree.find?_neither (by simp [missing]) fun w theirs' => ?_
    obtain rfl := Option.some.inj (theirs.symm.trans theirs')
    simpa using sets
  theirsOn sets w' theirs on previous known := by
    obtain rfl := Option.mem_def.1 known
    exact gives.eq_gone (Tree.find?_theirs (by simpa using sets) theirs (by simpa using on))
  bare passes theirs anew := by
    refine gives.eq_bare (anew.imp_right fun missing => ?_)
      (Tree.find?_neither (by simpa using passes) (by simpa using theirs))
    exact Tree.find?_neither (by simp [missing.1]) (by simp [missing.2])

end ShotLaw

/-! ## A small burst

An action is repeated twice, which fires. The fire says what speed its shots begin with, and its
bullet says what later shots add. -/

namespace Sample

def burstTree : Tree :=
  Tree.empty
    |>.push { kind := .action } none
    |>.push { kind := .repeat } (some 0)
    |>.push { kind := .times, expression := constant 2 } (some 1)
    |>.push { kind := .action } (some 1)
    |>.push { kind := .fire } (some 3)
    |>.push { kind := .speed, policy := .absolute, expression := constant 10 } (some 4)
    |>.push { kind := .bullet } (some 4)
    |>.push { kind := .speed, policy := .sequence, expression := constant 5 } (some 6)

def burstPattern : Pattern := { tree := burstTree, links := (Links.blank 8).setRepeat 3 1 }

def burstFire : Plan Int :=
  .mk 4 [] (.fire {} (burstTree.shotRule .speed 4 (some 6))) [.mk 6 [] .sequence []]

def burstPlan : Plan Int := .mk 0 [] .sequence [.mk 1 [] .again [.mk 3 [] (.action 2) [burstFire]]]

def burst : Bullet Int where
  entity := entity.named (burstTree.patternName? 0)
  pattern := burstPattern
  node := 0
  plan := burstPlan
  cell := ((burstPlan.start host []).run { toStage := stage, entity }).1
  scope? := none
  emitter := 0

theorem build_burst : (Plan.build host burstPattern [] 0).run stage = (.ok burstPlan, stage) := by
  have fire : ∀ outer, Assembly.node burstPattern host 0 outer 4 = (do
      let made ← Assembly.fire burstPattern host outer [] 4
      pure [made]) := by
    intro outer
    rw [Assembly.node]
    rfl
  have times : ∀ outer, Assembly.node burstPattern host 0 outer 2 = pure [] := by
    intro outer
    rw [Assembly.node]
    rfl
  have action : ∀ outer, Assembly.node burstPattern host 0 outer 3 = (do
      let bound ← Assembly.passes burstPattern host outer 3
      Assembly.claim
      let below ← [4].mapM (Assembly.node burstPattern host 0 ([] :: outer))
      pure [.mk 3 [] (.action bound) below.flatten]) := by
    intro outer
    rw [Assembly.node]
    rfl
  have around : ∀ outer, Assembly.node burstPattern host 0 outer 1 = (do
      Assembly.claim
      let below ← [2, 3].mapM (Assembly.node burstPattern host 0 ([] :: outer))
      pure [.mk 1 [] .again below.flatten]) := by
    intro outer
    rw [Assembly.node]
    rfl
  have children : burstPattern.tree.children 0 = [1] := rfl
  simp only [Plan.build, Assembly.root, children, List.mapM_cons, List.mapM_nil, around, times,
    action, fire]
  rfl

theorem bound_burst : burst.Bound := by
  refine ⟨Unit, host, entity, burstPattern, 0, none, 0, stage, stage, ?_⟩
  rw [Bullet.bind, run_bind_eq]
  simp only [Option.getD, build_burst]
  rfl

end Sample

/-! ## Histories -/

namespace Bullet

/-- In every history, each shot of a fire takes its direction and its speed from the fire's own
first children of these kinds or from those of its bullet, the last one below the fire or named
there. A child of the fire that is not relative to the shot before is what all shots take, except
that later shots add the bullet's child to the shot before if that one is. A shot is a later one if
the number of shots since the last reset is not zero in 32 bits. -/
theorem shots_rank_values {b₀ b : Bullet F} {log : FireLog F} (bound : b₀.Bound)
    (fires : b₀.Fires log b) {path : TaskPath} {q : Plan F} {direction speed : ShotRule}
    (there : b₀.plan.at? path = some q) (fire : q.work = .fire direction speed) :
    ∃ frames, b₀.plan.framesAt? b₀.scope path = some frames ∧
      ∀ earlier f later, log = earlier ++ .fired path f :: later →
        let t := b₀.pattern.tree
        let bullet? := t.lastBullet? b₀.pattern.links q.node
        let ammunition? := Ammunition.ofPlans? frames q.children
        let previous? := Firing.previous? (FireLog.since b₀.plan path earlier [])
        ∃ aimed ready : Actor F f.σ,
          (ShotLaw.direction f.env.host).Ranks (f.env.shotValue frames ammunition?)
            (t.wanted? q.node .direction) (t.bulletWanted? .direction bullet?) f.before
            (previous?.map Firing.direction) (f.direction, aimed) ∧
          ShotLaw.speed.Ranks (f.env.shotValue frames ammunition?)
            (t.wanted? q.node .speed) (t.bulletWanted? .speed bullet?) aimed
            (previous?.map Firing.speed) (f.speed, ready) ∧
          ((Actor.staged (f.env.spawn q.node ammunition? ready.entity.position f.direction
            f.speed)).run ready).2 = f.after := by
  obtain ⟨⟨_, _, _, _, built⟩, _, h, a, started⟩ := bound.built_and_started
  obtain ⟨frames, inScope⟩ := b₀.plan.exists_framesAt? b₀.scope there
  have start : TaskState.Remembers path [] ⟨b₀.cell⟩ :=
    started ▸ b₀.plan.start_remembers h b₀.scope there fire a
  obtain ⟨fs, ⟨obeys, -⟩, -⟩ := fires.numbers there inScope fire start
  have loaded : q.Loaded b₀.pattern :=
    Plan.loaded_of_build built _ _ _ (b₀.plan.holds_of_at? there inScope) (by rw [fire]; rfl)
  -- the rules of the fire are made from its children and those of the last bullet
  obtain ⟨rfl, rfl⟩ := Work.fire.inj (fire.symm.trans loaded.rules)
  refine ⟨frames, inScope, fun earlier f later split => ?_⟩
  obtain ⟨aimed, ready, aims, speeds, spawned⟩ := obeys earlier f later split
  simp only [loaded.lastBullet?]
  exact ⟨aimed, ready, aims.ranks, speeds.ranks, spawned⟩

open scoped Sample in
/-- The second shot of the burst goes on with the value of the bullet, although the fire says what
speed its shots begin with. -/
theorem shots_rank_values_burst :
    Sample.burst.Bound ∧ Sample.burst.plan.at? [0, 0, 0] = some Sample.burstFire ∧
    ∃ direction speed earlier f g later, Sample.burstFire.work = .fire direction speed ∧
      Sample.burst.Fires (earlier ++ .fired [0, 0, 0] f :: later)
        ((Sample.burst.step Sample.host).run Sample.stage).1.2 ∧
      (FireLog.since Sample.burst.plan [0, 0, 0] earlier []).head? = some g ∧
      g.speed = 10 ∧ f.speed = 15 ∧
      ∃ (value : ShotValue → Acting Int f.σ Int) (aimed ready : Actor Int f.σ),
        ShotLaw.speed.Ranks value (some ⟨.absolute, Sample.constant 10⟩)
          (some ⟨.sequence, Sample.constant 5⟩) aimed (some g.speed) (f.speed, ready) := by
  have there : Sample.burst.plan.at? [0, 0, 0] = some Sample.burstFire := rfl
  have fires : Sample.burst.Fires (Sample.burst.fireLog Sample.host Sample.stage)
      ((Sample.burst.step Sample.host).run Sample.stage).1.2 :=
    .step (.refl _) Sample.host Sample.stage
  obtain ⟨frames, -, ranks⟩ := shots_rank_values Sample.bound_burst fires there rfl
  have speeds : (Sample.burst.fireLog Sample.host Sample.stage).map (fun e => match e with
      | .fired path f => (path, some f.speed)
      | .restarted path => (path, none)) =
      [([0, 0, 0], some 10), ([0, 0], none), ([0, 0, 0], some 15), ([0, 0], none)] := by
    decide +kernel
  generalize Sample.burst.fireLog Sample.host Sample.stage = log at fires ranks speeds
  rcases log with _ | ⟨_ | _, _ | ⟨_ | _, _ | ⟨_ | _, later⟩⟩⟩ <;>
    simp only [List.map_cons, List.map_nil, List.cons.injEq, Prod.mk.injEq, reduceCtorEq, and_true,
      and_false, false_and, Option.some.injEq] at speeds
  obtain ⟨⟨rfl, first⟩, rfl, ⟨rfl, second⟩, -⟩ := speeds
  obtain ⟨aimed, ready, -, rank, -⟩ := ranks [_, _] _ later rfl
  exact ⟨Sample.bound_burst, there, _, _, [_, _], _, _, later, rfl, fires, rfl, first, second, _,
    aimed, ready, rank⟩

end Bullet

end Barrage
