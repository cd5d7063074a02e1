import Barrage.Emitter
import Barrage.Proofs.Coupled
import Barrage.Proofs.Task.Reads

/-!
Two hosts with related worlds. Making a plan and starting its tasks reads the target, the difficulty
and random numbers, and does nothing else to the world; so where two hosts answer alike what is read
in related worlds, the same plans and states come out and the worlds stay related. The entity stays
as it is, and its number is not looked at.
-/

set_option autoImplicit false

namespace Barrage

variable {F σ τ : Type}

/-- Two hosts answer alike in related worlds, and random numbers keep worlds related. -/
structure Host.Alike (related : σ → τ → Prop) (h : Host F σ) (h' : Host F τ) : Prop where
  target : ∀ {w w'}, related w w' → ∀ e, h.target e w = h'.target e w'
  rank : ∀ {w w'}, related w w' → h.rank w = h'.rank w'
  random : ∀ {w w'}, related w w' →
    (h.random w).1 = (h'.random w').1 ∧ related (h.random w).2 (h'.random w').2

structure Stage.Related (related : σ → τ → Prop) (s : Stage σ) (s' : Stage τ) : Prop where
  world : related s.world s'.world
  journal : s.journal = s'.journal

structure Assembly.Related (stages : Stage σ → Stage τ → Prop) (a : Assembly σ) (a' : Assembly τ) :
    Prop where
  stage : stages a.toStage a'.toStage
  tasks : a.tasks = a'.tasks

structure Actor.Related (related : σ → τ → Prop) (e : Entity F) (a : Actor F σ) (a' : Actor F τ) :
    Prop where
  stage : Stage.Related related a.toStage a'.toStage
  own : a.entity = e
  other : a'.entity = e

/-- Entities that are alike but for their numbers. -/
def Entity.Alike (e e' : Entity F) : Prop := ∃ id, e' = { e with id }

theorem Entity.Alike.of_eq {e e' : Entity F} (same : e = e') : e.Alike e' := ⟨e'.id, same ▸ rfl⟩

variable {related : σ → τ → Prop} {h : Host F σ} {h' : Host F τ}

namespace Stage

theorem together_log (f : Journal → Journal) :
    Together (Related related) (Stage.log f) (Stage.log f) := by
  intro s s' both
  exact ⟨rfl, both.world, congrArg f both.journal⟩

end Stage

variable [Scalar F]

/-! ## Values of expressions -/

theorem Term.evaluate_related (alike : h.Alike related h') (frames : Frames F) (t : Term)
    {s : Stage σ} {s' : Stage τ} (both : Stage.Related related s s') :
    (t.evaluate (h.reading frames) s).1 = (t.evaluate (h'.reading frames) s').1 ∧
      Stage.Related related (t.evaluate (h.reading frames) s).2
        (t.evaluate (h'.reading frames) s').2 := by
  induction t generalizing s s' with
  | number => exact ⟨rfl, both⟩
  | rand =>
    obtain ⟨same, world⟩ := alike.random both.world
    exact ⟨same, world, both.journal⟩
  | rank => exact ⟨alike.rank both.world, both⟩
  | param n =>
    simp only [Term.evaluate, Host.reading]
    cases frames.param? n with
    | none => exact ⟨rfl, both.world, congrArg (·.unbound n) both.journal⟩
    | some x => exact ⟨rfl, both⟩
  | neg t ih =>
    obtain ⟨same, both⟩ := ih both
    simp only [Term.evaluate, same]
    exact ⟨trivial, both⟩
  | binary op a b iha ihb =>
    obtain ⟨left, both⟩ := iha both
    obtain ⟨right, both⟩ := ihb both
    simp only [Term.evaluate, left, right]
    exact ⟨trivial, both⟩

theorem Host.together_evaluate (alike : h.Alike related h') (frames : Frames F) (e : Expression) :
    Together (Stage.Related related) (h.evaluate frames e) (h'.evaluate frames e) := by
  intro s s' both
  cases e with
  | mk source term? =>
    cases term? with
    | none => exact ⟨rfl, both⟩
    | some t => exact t.evaluate_related alike frames both

/-- Two hosts come to the same values of good expressions, and related stages stay related. -/
def Host.Agrees (good : Expression → Prop) (stages : Stage σ → Stage τ → Prop) (h : Host F σ)
    (h' : Host F τ) : Prop :=
  ∀ frames {e}, good e → Together stages (h.evaluate frames e) (h'.evaluate frames e)

theorem Host.Alike.agrees (alike : h.Alike related h') :
    h.Agrees (fun _ => True) (Stage.Related related) h' :=
  fun frames e _ => h.together_evaluate alike frames e

/-! ## Making a plan -/

variable {good : Expression → Prop} {stages : Stage σ → Stage τ → Prop}

namespace Assembly

theorem run_claim (a : Assembly σ) : claim.run.run a =
    if a.tasks ≥ Limit.tasks then (.error .tooManyTasks, a)
    else (.ok (), { a with tasks := a.tasks + 1 }) := by
  have read : (get : Assembling σ (Assembly σ)).run.run a = (.ok a, a) := rfl
  rw [claim, Ends.run_eq_bind, read]
  dsimp only
  split <;> rfl

omit [Scalar F] in
theorem together_staged {α : Type} {x : Staged σ α} {x' : Staged τ α}
    (together : Together stages x x') :
    Together (Related stages) (staged x).run (staged x').run := by
  intro a a' both
  obtain ⟨same, stage⟩ := together _ _ both.stage
  exact ⟨congrArg Except.ok same, stage, both.tasks⟩

theorem together_claim : Together (Related stages) claim.run claim.run := by
  intro a a' both
  rw [run_claim, run_claim, ← both.tasks]
  split
  · exact ⟨rfl, both⟩
  · exact ⟨rfl, both.stage, rfl⟩

theorem together_throw {α : Type} (e : RunError) : Together (Related stages)
    (throw e : Assembling σ α).run (throw e : Assembling τ α).run :=
  fun _ _ both => ⟨rfl, both⟩

theorem together_pure {α : Type} (a : α) : Together (Related stages)
    (pure a : Assembling σ α).run (pure a : Assembling τ α).run :=
  fun _ _ both => ⟨rfl, both⟩

variable {p : Pattern} (agrees : h.Agrees good stages h')
  (reads : ∀ i, good (p.tree.expression i))

include agrees reads

theorem together_passes (outer : Frames F) (i : NodeId) :
    Together (Related stages) (passes p h outer i).run (passes p h' outer i).run := by
  unfold passes
  split
  · exact together_pure _
  · split
    · exact together_pure _
    · next times =>
      have read := Tree.good_of_childExpression? reads _ times
      exact .bindExcept (together_staged (agrees _ read)) fun _ => together_pure _

theorem together_arguments (outer : Frames F) (i : NodeId) :
    Together (Related stages) (arguments p h outer i).run (arguments p h' outer i).run :=
  .mapExcept (fun c => together_staged (agrees _ (reads c))) _

theorem together_bulletHolder (outer : Frames F) (i : NodeId) :
    Together (Related stages) (bulletHolder p h outer i).run (bulletHolder p h' outer i).run := by
  unfold bulletHolder
  split
  · split
    · exact together_throw _
    · exact .bindExcept (together_arguments agrees reads outer i) fun _ =>
        .bindExcept together_claim fun _ => together_pure _
  · exact .bindExcept together_claim fun _ => together_pure _
  · exact together_pure _

theorem together_fire (outer : Frames F) (args : List F) (i : NodeId) :
    Together (Related stages) (fire p h outer args i).run (fire p h' outer args i).run :=
  .bindExcept together_claim fun _ =>
    .bindExcept (.mapExcept (together_bulletHolder agrees reads _) _) fun _ => together_pure _

omit agrees reads in
variable (p) in
/-- Induction over the nodes that a task is made from: nodes below, and nodes that references lead
to, while these do not go too deep. -/
theorem node_induction {motive : Nat → NodeId → Prop}
    (step : ∀ depth i, (∀ c, i < c ∧ c < p.tree.size → motive depth c) →
      (depth < Limit.expansion → ∀ c, motive (depth + 1) c) → motive depth i)
    (depth : Nat) (i : NodeId) : motive depth i :=
  step depth i (fun c _above => node_induction step depth c)
    fun _shallow c => node_induction step (depth + 1) c
termination_by (Limit.expansion - depth, p.tree.size - i)
decreasing_by
  · exact Prod.Lex.right _ (Nat.sub_lt_sub_left (Nat.lt_trans _above.1 _above.2) _above.1)
  · exact Prod.Lex.left _ _ (Nat.sub_lt_sub_left _shallow (Nat.lt_succ_self depth))

theorem together_node (depth : Nat) (outer : Frames F) (i : NodeId) :
    Together (Related stages) (node p h depth outer i).run (node p h' depth outer i).run := by
  induction depth, i using node_induction p generalizing outer with
  | step depth i below beyond =>
    rw [node, node]
    split
    -- a repeat
    · exact .bindExcept together_claim fun _ =>
        .bindExcept (.mapExcept (fun c : Subtype _ => below c.1 c.2 _) _) fun _ => together_pure _
    -- an action
    · exact .bindExcept (together_passes agrees reads outer i) fun _ =>
        .bindExcept together_claim fun _ =>
        .bindExcept (.mapExcept (fun c : Subtype _ => below c.1 c.2 _) _) fun _ => together_pure _
    -- an action reference; the nodes below the action that it names are one reference deeper
    · split
      · next shallow =>
        split
        · exact together_throw _
        · exact .bindExcept (together_passes agrees reads outer i) fun _ =>
            .bindExcept (together_arguments agrees reads outer i) fun _ =>
            .bindExcept together_claim fun _ =>
            .bindExcept (together_passes agrees reads _ _) fun _ =>
            .bindExcept together_claim fun _ =>
            .bindExcept (.mapExcept (fun c : Subtype _ => beyond shallow c.1 _) _) fun _ =>
            together_pure _
      · exact together_throw _
    -- a fire
    · exact .bindExcept (together_fire agrees reads outer [] i) fun _ => together_pure _
    -- a fire reference
    · split
      · split
        · exact together_throw _
        · exact .bindExcept (together_arguments agrees reads outer i) fun _ =>
            .bindExcept (together_fire agrees reads outer _ _) fun _ => together_pure _
      · exact together_throw _
    -- a task without others below it, or no task
    · split
      · exact .bindExcept together_claim fun _ => together_pure _
      · exact together_pure _

theorem together_root (scope : Frames F) (i : NodeId) :
    Together (Related stages) (root p h scope i).run (root p h' scope i).run :=
  .bindExcept together_claim fun _ =>
    .bindExcept (.mapExcept (together_node agrees reads 0 _) _) fun _ => together_pure _

end Assembly

theorem Plan.together_build (agrees : h.Agrees good stages h') {p : Pattern}
    (reads : ∀ i, good (p.tree.expression i)) (scope : Frames F) (i : NodeId) :
    Together stages (Plan.build h p scope i) (Plan.build h' p scope i) := by
  intro s s' both
  obtain ⟨same, made⟩ := Assembly.together_root agrees reads scope i { toStage := s }
    { toStage := s' } ⟨both, rfl⟩
  exact ⟨same, made.stage⟩

/-! ## Starting tasks -/

namespace Actor

variable {e : Entity F}

omit [Scalar F] in
theorem together_staged {α : Type} {x : Staged σ α} {x' : Staged τ α}
    (together : Together (Stage.Related related) x x') :
    Together (Related related e) (staged x) (staged x') := by
  intro a a' both
  obtain ⟨same, stage⟩ := together _ _ both.stage
  exact ⟨same, stage, both.own, both.other⟩

omit [Scalar F] in
theorem together_entityNow :
    Together (Related (F := F) related e) entityNow entityNow :=
  fun _ _ both => ⟨both.own.trans both.other.symm, both⟩

/-- Two hosts answer alike what the tasks of related actors read, as far as these read good
expressions. The entities of the actors may have different numbers. -/
structure Agrees (good : Expression → Prop) (actors : Actor F σ → Actor F τ → Prop) (h : Host F σ)
    (h' : Host F τ) : Prop where
  evaluate : ∀ frames {e}, good e → Together actors (evaluate h frames e) (evaluate h' frames e)
  aim : Together actors (aim h) (aim h')
  entity : ∀ {a a'}, actors a a' → a.entity.Alike a'.entity

theorem agrees_of_alike (alike : h.Alike related h') (e : Entity F) :
    Agrees (fun _ => True) (Related related e) h h' where
  evaluate frames x _ := together_staged (h.together_evaluate alike frames x)
  aim := by
    intro a a' both
    refine ⟨?_, both⟩
    change Angle.aim a.entity.position (h.target a.entity a.world) =
      Angle.aim a'.entity.position (h'.target a'.entity a'.world)
    rw [both.own, both.other, alike.target both.stage.world]
  entity both := .of_eq (both.own.trans both.other.symm)

variable {actors : Actor F σ → Actor F τ → Prop}

namespace Agrees

variable (agrees : Agrees good actors h h')

include agrees

theorem read {α : Type} {f : Entity F → Acting F σ α} {f' : Entity F → Acting F τ α}
    (next : ∀ e id, Together actors (f e) (f' { e with id })) :
    Together actors (entityNow >>= f) (entityNow >>= f') := by
  intro a a' both
  obtain ⟨id, same⟩ := agrees.entity both
  have after := next a.entity id a a' both
  rw [← same] at after
  exact after

theorem evaluateIf (frames : Frames F) {x? : Option Expression} (reads : ∀ x ∈ x?, good x) :
    Together actors (evaluateIf h frames x?) (evaluateIf h' frames x?) := by
  cases x? with
  | none => exact .pure _
  | some x => exact (agrees.evaluate frames (reads x rfl)).bind fun _ => .pure _

theorem goalIf (frames : Frames F) {w? : Option Wanted} (reads : ∀ w ∈ w?, good w.expression) :
    Together actors (goalIf h frames w?) (goalIf h' frames w?) := by
  cases w? with
  | none => exact .pure _
  | some w => exact (agrees.evaluate frames (reads w rfl)).bind fun _ => .pure _

theorem duration (frames : Frames F) {term? : Option Expression} (reads : ∀ x ∈ term?, good x) :
    Together actors (duration h frames term?) (duration h' frames term?) :=
  (agrees.evaluateIf frames reads).bind fun _ => .pure _

end Agrees

end Actor

variable {actors : Actor F σ → Actor F τ → Prop}

section Works

variable (agrees : Actor.Agrees good actors h h')

include agrees

theorem Work.together_prepare (frames : Frames F) {w : Work} (reads : w.Reads good) :
    Together actors (w.prepare h frames) (w.prepare h' frames) := by
  cases w with
  | sequence | again | vanish | action | fire => exact .pure _
  | wait x => exact agrees.evaluate frames reads
  | turn direction? term? =>
    exact (agrees.duration frames reads.2).bind fun _ =>
      (agrees.goalIf frames reads.1).bind fun _ =>
      agrees.read fun _ _ => agrees.aim.bind fun _ => .pure _
  | glide speed? term? =>
    exact (agrees.duration frames reads.2).bind fun _ =>
      (agrees.goalIf frames reads.1).bind fun _ =>
      agrees.read fun _ _ => .pure _
  | accelerate horizontal? vertical? term? =>
    exact (agrees.duration frames reads.2.2).bind fun _ =>
      (agrees.goalIf frames reads.1).bind fun _ => (agrees.goalIf frames reads.2.1).bind fun _ =>
      agrees.read fun _ _ => .pure _

theorem Work.together_prepareAgain (frames : Frames F) {w : Work} (reads : w.Reads good)
    (progress : w.Progress F) :
    Together actors (w.prepareAgain h frames progress) (w.prepareAgain h' frames progress) := by
  cases w with
  | fire => exact .pure _
  | _ => exact Work.together_prepare agrees frames reads

theorem Work.together_prepareReset (frames : Frames F) {w : Work} (reads : w.Reads good)
    (progress : w.Progress F) :
    Together actors (w.prepareReset h frames progress) (w.prepareReset h' frames progress) := by
  cases w with
  | fire => exact .pure _
  | _ => exact Work.together_prepare agrees frames reads

end Works

namespace Plan

mutual

theorem together_start (agrees : Actor.Agrees good actors h h') (outer : Frames F) :
    (p : Plan F) → p.Reads good →
    Together actors (p.start h outer) (p.start h' outer)
  | .mk _ args work children, .mk own each => by
    rw [start, start]
    exact (together_startAll agrees (args :: outer) children each).bind fun _ =>
      (Work.together_prepare agrees (args :: outer) own).bind fun _ => .pure _

theorem together_startAll (agrees : Actor.Agrees good actors h h') (outer : Frames F) :
    (ps : List (Plan F)) → (∀ p ∈ ps, p.Reads good) →
    Together actors (startAll h outer ps) (startAll h' outer ps)
  | [], _ => by
    rw [startAll, startAll]
    exact .pure _
  | p :: ps, reads => by
    rw [startAll, startAll]
    exact (together_start agrees outer p (reads p List.mem_cons_self)).bind fun _ =>
      (together_startAll agrees outer ps fun q inside =>
        reads q (List.mem_cons_of_mem _ inside)).bind fun _ => .pure _

end

mutual

theorem together_reset (agrees : Actor.Agrees good actors h h') (outer : Frames F) :
    (p : Plan F) → p.Reads good → (cell : Cell F p) →
    Together actors (p.reset h outer cell) (p.reset h' outer cell)
  | .mk _ args work children, .mk own each, .mk _ progress below => by
    rw [reset, reset]
    exact (together_resetAll agrees (args :: outer) children each below).bind fun _ =>
      (Work.together_prepareReset agrees (args :: outer) own progress).bind fun _ => .pure _

theorem together_resetAll (agrees : Actor.Agrees good actors h h') (outer : Frames F) :
    (ps : List (Plan F)) → (∀ p ∈ ps, p.Reads good) → (below : Cells F ps) →
    Together actors (resetAll h outer ps below) (resetAll h' outer ps below)
  | [], _, .nil => by
    rw [resetAll, resetAll]
    exact .pure _
  | p :: ps, reads, .cons head tail => by
    rw [resetAll, resetAll]
    exact (together_reset agrees outer p (reads p List.mem_cons_self) head).bind fun _ =>
      (together_resetAll agrees outer ps (fun q inside => reads q (List.mem_cons_of_mem _ inside))
        tail).bind fun _ => .pure _

end

mutual

theorem together_restart (agrees : Actor.Agrees good actors h h') (outer : Frames F) :
    (p : Plan F) → p.Reads good → (cell : Cell F p) →
    Together actors (p.restart h outer cell) (p.restart h' outer cell)
  | .mk node args work children, .mk own each, .mk _ progress below => by
    by_cases again : work = .again
    · subst again
      exact together_reset agrees outer (.mk node args .again children) (.mk own each) _
    · rw [restart_eq h outer again, restart_eq h' outer again]
      exact (together_restartAll agrees (args :: outer) children each below).bind fun _ =>
        (Work.together_prepareAgain agrees (args :: outer) own progress).bind fun _ => .pure _

theorem together_restartAll (agrees : Actor.Agrees good actors h h') (outer : Frames F) :
    (ps : List (Plan F)) → (∀ p ∈ ps, p.Reads good) → (below : Cells F ps) →
    Together actors (restartAll h outer ps below) (restartAll h' outer ps below)
  | [], _, .nil => by
    rw [restartAll, restartAll]
    exact .pure _
  | p :: ps, reads, .cons head tail => by
    rw [restartAll, restartAll]
    exact (together_restart agrees outer p (reads p List.mem_cons_self) head).bind fun _ =>
      (together_restartAll agrees outer ps (fun q inside => reads q (List.mem_cons_of_mem _ inside))
        tail).bind fun _ => .pure _

end

end Plan

/-! ## Values of shots -/

namespace Env

variable {env : Env F σ} {env' : Env F τ} (agrees : Actor.Agrees good actors env.host env'.host)

include agrees

theorem together_shotValue (frames : Frames F) (bullet? : Option (Ammunition F)) {v : ShotValue}
    (reads : good v.expression) :
    Together actors (env.shotValue frames bullet? v) (env'.shotValue frames bullet? v) :=
  agrees.evaluate _ reads

theorem together_shotDirection (frames : Frames F) (bullet? : Option (Ammunition F))
    {rule : ShotRule} (reads : rule.Reads good) (shots : Shots F) :
    Together actors (env.shotDirection frames bullet? rule shots)
      (env'.shotDirection frames bullet? rule shots) := by
  unfold shotDirection
  split
  · exact agrees.aim.bind fun _ => .pure _
  · next v later next =>
    refine (together_shotValue agrees frames bullet? (reads.next next)).bind fun _ => ?_
    dsimp only
    split
    · exact .pure _
    · split
      · exact .pure _
      · exact agrees.read fun _ _ => .pure _
      · exact agrees.aim.bind fun _ => .pure _

theorem together_shotSpeed (frames : Frames F) (bullet? : Option (Ammunition F))
    {rule : ShotRule} (reads : rule.Reads good) (shots : Shots F) :
    Together actors (env.shotSpeed frames bullet? rule shots)
      (env'.shotSpeed frames bullet? rule shots) := by
  unfold shotSpeed
  split
  · exact agrees.read fun _ _ => .pure _
  · next v later next =>
    refine (together_shotValue agrees frames bullet? (reads.next next)).bind fun _ => ?_
    split
    · exact .pure _
    · split
      · exact agrees.read fun _ _ => .pure _
      · exact .pure _

end Env

end Barrage
