import Barrage.Proofs.Host.Coupling

/-!
Whether an entity can be bound to a node. Values of expressions only become arguments and numbers of
passes, which no limit looks at. So whether there is a plan for a node is a matter of the pattern
alone, whatever the numbers, the host and its world are and whatever arguments are in scope.
-/

set_option autoImplicit false

namespace Barrage

def Pattern.Bindable (p : Pattern) (i : NodeId) : Prop :=
  ∃ (F σ : Type) (_ : Scalar F) (h : Host F σ) (scope : Frames F) (s s' : Stage σ) (plan : Plan F),
    (Plan.build h p scope i).run s = (.ok plan, s')

variable {F G σ τ α α' β β' : Type}

abbrev outcomeOf (r : Except RunError α) : Except RunError Unit := r.map fun _ => ()

namespace Assembly

/-- Two computations get equally far: with as many tasks before, they end in the same way with as
many tasks after. Results may differ. -/
def AsFar (x : Assembling σ α) (x' : Assembling τ α') : Prop :=
  Coupled (fun a a' => a.tasks = a'.tasks) x.run x'.run
    fun r r' a a' => outcomeOf r = outcomeOf r' ∧ a.tasks = a'.tasks

namespace AsFar

theorem pure (a : α) (a' : α') : AsFar (pure a : Assembling σ α) (pure a' : Assembling τ α') :=
  fun _ _ tasks => ⟨rfl, tasks⟩

theorem throw (e : RunError) :
    AsFar (throw e : Assembling σ α) (throw e : Assembling τ α') :=
  fun _ _ tasks => ⟨rfl, tasks⟩

theorem bind {x : Assembling σ α} {x' : Assembling τ α'} {f : α → Assembling σ β}
    {f' : α' → Assembling τ β'} (first : AsFar x x') (next : ∀ a a', AsFar (f a) (f' a')) :
    AsFar (x >>= f) (x' >>= f') := by
  intro a a' before
  obtain ⟨same, tasks⟩ := first a a' before
  rw [Ends.run_eq_bind, Ends.run_eq_bind]
  generalize x.run.run a = r at same tasks ⊢
  generalize x'.run.run a' = r' at same tasks ⊢
  obtain ⟨outcome, b⟩ := r
  obtain ⟨outcome', b'⟩ := r'
  -- both parts have failed alike, or both have ended well
  cases outcome <;> cases outcome' <;> cases same
  · exact ⟨rfl, tasks⟩
  · exact next _ _ _ _ tasks

theorem mapM {γ : Type} {f : γ → Assembling σ α} {f' : γ → Assembling τ α'}
    (each : ∀ c, AsFar (f c) (f' c)) (cs : List γ) : AsFar (cs.mapM f) (cs.mapM f') := by
  induction cs with
  | nil =>
    rw [List.mapM_nil, List.mapM_nil]
    exact .pure _ _
  | cons c cs ih =>
    rw [List.mapM_cons, List.mapM_cons]
    exact (each c).bind fun _ _ => ih.bind fun _ _ => .pure _ _

theorem staged (x : Staged σ α) (x' : Staged τ α') : AsFar (staged x) (staged x') :=
  fun _ _ tasks => ⟨rfl, tasks⟩

theorem claim : AsFar (claim : Assembling σ Unit) (claim : Assembling τ Unit) := by
  intro a a' tasks
  rw [run_claim, run_claim, tasks]
  split
  · exact ⟨rfl, tasks⟩
  · exact ⟨rfl, rfl⟩

end AsFar

/-! ## Parts of making a plan -/

variable [Scalar F] [Scalar G] (p : Pattern) (h : Host F σ) (k : Host G τ)

theorem asFar_passes (outer : Frames F) (outer' : Frames G) (i : NodeId) :
    AsFar (passes p h outer i) (passes p k outer' i) := by
  unfold passes
  split
  · exact .pure _ _
  · split
    · exact .pure _ _
    · exact (AsFar.staged _ _).bind fun _ _ => .pure _ _

theorem asFar_arguments (outer : Frames F) (outer' : Frames G) (i : NodeId) :
    AsFar (arguments p h outer i) (arguments p k outer' i) :=
  .mapM (fun _ => .staged _ _) _

theorem asFar_bulletHolder (outer : Frames F) (outer' : Frames G) (i : NodeId) :
    AsFar (bulletHolder p h outer i) (bulletHolder p k outer' i) := by
  unfold bulletHolder
  split
  · split
    · exact .throw _
    · exact (asFar_arguments p h k outer outer' i).bind fun _ _ =>
        AsFar.claim.bind fun _ _ => .pure _ _
  · exact AsFar.claim.bind fun _ _ => .pure _ _
  · exact .pure _ _

theorem asFar_fire (outer : Frames F) (outer' : Frames G) (args : List F) (args' : List G)
    (i : NodeId) : AsFar (fire p h outer args i) (fire p k outer' args' i) :=
  AsFar.claim.bind fun _ _ =>
    (AsFar.mapM (asFar_bulletHolder p h k _ _) _).bind fun _ _ => .pure _ _

theorem asFar_node (depth : Nat) (outer : Frames F) (outer' : Frames G) (i : NodeId) :
    AsFar (node p h depth outer i) (node p k depth outer' i) := by
  induction depth, i using node_induction p generalizing outer outer' with
  | step depth i below beyond =>
    rw [node, node]
    split
    -- a repeat
    · exact AsFar.claim.bind fun _ _ =>
        (AsFar.mapM (fun c : Subtype _ => below c.1 c.2 _ _) _).bind fun _ _ => .pure _ _
    -- an action
    · exact (asFar_passes p h k outer outer' i).bind fun _ _ => AsFar.claim.bind fun _ _ =>
        (AsFar.mapM (fun c : Subtype _ => below c.1 c.2 _ _) _).bind fun _ _ => .pure _ _
    -- an action reference; how deep it is does not depend on what its arguments are
    · split
      · next shallow =>
        split
        · exact .throw _
        · exact (asFar_passes p h k outer outer' i).bind fun _ _ =>
            (asFar_arguments p h k outer outer' i).bind fun _ _ => AsFar.claim.bind fun _ _ =>
            (asFar_passes p h k _ _ _).bind fun _ _ => AsFar.claim.bind fun _ _ =>
            (AsFar.mapM (fun c : Subtype _ => beyond shallow c.1 _ _) _).bind fun _ _ =>
            .pure _ _
      · exact .throw _
    -- a fire
    · exact (asFar_fire p h k outer outer' [] [] i).bind fun _ _ => .pure _ _
    -- a fire reference
    · split
      · split
        · exact .throw _
        · exact (asFar_arguments p h k outer outer' i).bind fun _ _ =>
            (asFar_fire p h k outer outer' _ _ _).bind fun _ _ => .pure _ _
      · exact .throw _
    -- a task without others below it, or no task
    · split
      · exact AsFar.claim.bind fun _ _ => .pure _ _
      · exact .pure _ _

theorem asFar_root (scope : Frames F) (scope' : Frames G) (i : NodeId) :
    AsFar (root p h scope i) (root p k scope' i) :=
  AsFar.claim.bind fun _ _ =>
    (AsFar.mapM (asFar_node p h k 0 _ _) _).bind fun _ _ => .pure _ _

end Assembly

variable [Scalar F] [Scalar G] {p : Pattern} {i : NodeId}

theorem Plan.outcome_build (h : Host F σ) (k : Host G τ) (scope : Frames F) (scope' : Frames G)
    (s : Stage σ) (s' : Stage τ) :
    outcomeOf ((Plan.build h p scope i).run s).1 = outcomeOf ((Plan.build k p scope' i).run s').1 :=
  (Assembly.asFar_root p h k scope scope' i { toStage := s } { toStage := s' } rfl).1

namespace Pattern

theorem bindable_iff (h : Host F σ) (scope : Frames F) (s : Stage σ) :
    p.Bindable i ↔ ∃ plan, ((Plan.build h p scope i).run s).1 = .ok plan := by
  constructor
  · rintro ⟨G, τ, _, k, scope', t, t', plan, built⟩
    have same := Plan.outcome_build (p := p) (i := i) h k scope scope' s t
    rw [built] at same
    cases result : ((Plan.build h p scope i).run s).1 with
    | error e =>
      rw [result] at same
      cases same
    | ok plan' => exact ⟨plan', rfl⟩
  · rintro ⟨plan, built⟩
    exact ⟨F, σ, _, h, scope, s, _, plan, Prod.ext built rfl⟩

theorem not_bindable {h : Host F σ} {scope : Frames F} {s s' : Stage σ} {e : RunError}
    (failed : (Plan.build h p scope i).run s = (.error e, s')) : ¬ p.Bindable i := by
  rw [bindable_iff h scope s, failed]
  rintro ⟨_, ended⟩
  cases ended

end Pattern

/-- Binding an entity to a node ends well everywhere if there is a plan for the node, and nowhere
else. -/
theorem Bullet.binds_iff (h : Host F σ) (entity : Entity F) (scope? : Option (Frames F))
    (emitter : EmitterId) (s : Stage σ) :
    (∃ b, ((Bullet.bind h entity p i scope? emitter).run s).1 = .ok b) ↔ p.Bindable i := by
  rw [Pattern.bindable_iff h (scope?.getD []) s, Bullet.bind, run_bind_eq]
  cases ((Plan.build h p (scope?.getD []) i).run s).1 with
  | error e =>
    constructor <;> rintro ⟨_, ended⟩ <;> cases ended
  | ok plan => exact iff_of_true ⟨_, rfl⟩ ⟨plan, rfl⟩

end Barrage
