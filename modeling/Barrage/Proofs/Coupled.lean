import Barrage.Proofs.Computation

/-!
Two computations side by side. When they begin in states that belong together, they come to results
and states that belong together. What belongs together is chosen at every step, so the statement for
a whole computation is put together from those for its parts.
-/

set_option autoImplicit false

namespace Barrage

variable {τ τ' α α' β β' : Type}

/-- Two computations keep in step: from states that are related before, they come to results and
states that are related after. -/
def Coupled (before : τ → τ' → Prop) (x : StateM τ α) (x' : StateM τ' α')
    (after : α → α' → τ → τ' → Prop) : Prop :=
  ∀ t t', before t t' → after (x.run t).1 (x'.run t').1 (x.run t).2 (x'.run t').2

namespace Coupled

variable {before : τ → τ' → Prop} {x : StateM τ α} {x' : StateM τ' α'}

theorem pure {after : α → α' → τ → τ' → Prop} {a : α} {a' : α'}
    (holds : ∀ t t', before t t' → after a a' t t') : Coupled before (pure a) (pure a') after :=
  holds

theorem bind {f : α → StateM τ β} {f' : α' → StateM τ' β'} {between : α → α' → τ → τ' → Prop}
    {after : β → β' → τ → τ' → Prop} (first : Coupled before x x' between)
    (next : ∀ a a', Coupled (between a a') (f a) (f' a') after) :
    Coupled before (x >>= f) (x' >>= f') after :=
  fun t t' related => next _ _ _ _ (first t t' related)

end Coupled

/-! ## The same results -/

/-- Two computations come to the same result, and lead from states that belong together in one way
to states that belong together in another. -/
def Leads (before after : τ → τ' → Prop) (x : StateM τ α) (x' : StateM τ' α) : Prop :=
  Coupled before x x' fun a a' t t' => a = a' ∧ after t t'

namespace Leads

variable {before between after : τ → τ' → Prop} {x : StateM τ α} {x' : StateM τ' α}

theorem followed {f : α → StateM τ β} {f' : α → StateM τ' β'} {finally' : β → β' → τ → τ' → Prop}
    (first : Leads before between x x') (next : ∀ a, Coupled between (f a) (f' a) finally') :
    Coupled before (x >>= f) (x' >>= f') finally' := by
  refine Coupled.bind first ?_
  rintro a _ t t' ⟨rfl, holds⟩
  exact next a t t' holds

theorem bind {f : α → StateM τ β} {f' : α → StateM τ' β} (first : Leads before between x x')
    (next : ∀ a, Leads between after (f a) (f' a)) : Leads before after (x >>= f) (x' >>= f') :=
  first.followed next

end Leads

/-- Two computations come to the same result, and states that belong together stay together. -/
abbrev Together (related : τ → τ' → Prop) (x : StateM τ α) (x' : StateM τ' α) : Prop :=
  Leads related related x x'

namespace Together

variable {related : τ → τ' → Prop} {x : StateM τ α} {x' : StateM τ' α}

theorem pure (a : α) : Together related (pure a) (pure a) :=
  Coupled.pure fun _ _ holds => ⟨rfl, holds⟩

theorem bind {f : α → StateM τ β} {f' : α → StateM τ' β} (first : Together related x x')
    (next : ∀ a, Together related (f a) (f' a)) : Together related (x >>= f) (x' >>= f') :=
  Leads.bind first next

/-- Parts that are done one after the other, of which there are as many results. -/
theorem mapM {γ : Type} {f : γ → StateM τ α} {f' : γ → StateM τ' α}
    (each : ∀ c, Together related (f c) (f' c)) (cs : List γ) :
    Coupled related (cs.mapM f) (cs.mapM f')
      fun as as' t t' => as = as' ∧ as.length = cs.length ∧ related t t' := by
  induction cs with
  | nil =>
    rw [List.mapM_nil, List.mapM_nil]
    exact Coupled.pure fun _ _ holds => ⟨rfl, rfl, holds⟩
  | cons c cs ih =>
    rw [List.mapM_cons, List.mapM_cons]
    refine (each c).followed fun a => ih.bind ?_
    rintro as _ t t' ⟨rfl, length, holds⟩
    exact ⟨rfl, congrArg (· + 1) length, holds⟩

theorem forM {γ : Type} {f : γ → StateM τ Unit} {f' : γ → StateM τ' Unit}
    (each : ∀ c, Together related (f c) (f' c)) (cs : List γ) :
    Together related (cs.forM f) (cs.forM f') := by
  induction cs with
  | nil => exact .pure _
  | cons c cs ih => exact (each c).bind fun _ => ih

variable {ε : Type}

/-- Computations that may fail go on together from where a part has ended well, and fail together.
-/
theorem bindEnds {x : ExceptT ε (StateM τ) α} {x' : ExceptT ε (StateM τ') α}
    {f : α → ExceptT ε (StateM τ) β} {f' : α → ExceptT ε (StateM τ') β}
    (first : Together related x.run x'.run)
    (next : ∀ {t t' a u u'}, related t t' → Ends x t a u → Ends x' t' a u' → related u u' →
      ((f a).run.run u).1 = ((f' a).run.run u').1 ∧
        related ((f a).run.run u).2 ((f' a).run.run u').2) :
    Together related (x >>= f).run (x' >>= f').run := by
  intro t t' before
  obtain ⟨same, holds⟩ := first t t' before
  rw [Ends.run_eq_bind, Ends.run_eq_bind]
  cases ended : x.run.run t with
  | mk outcome u =>
    cases ended' : x'.run.run t' with
    | mk outcome' u' =>
      rw [ended, ended'] at same holds
      obtain rfl : outcome = outcome' := same
      cases outcome with
      | error e => exact ⟨rfl, holds⟩
      | ok a => exact next before ended ended' holds

theorem bindExcept {x : ExceptT ε (StateM τ) α} {x' : ExceptT ε (StateM τ') α}
    {f : α → ExceptT ε (StateM τ) β} {f' : α → ExceptT ε (StateM τ') β}
    (first : Together related x.run x'.run) (next : ∀ a, Together related (f a).run (f' a).run) :
    Together related (x >>= f).run (x' >>= f').run :=
  bindEnds first fun _ _ _ holds => next _ _ _ holds

theorem mapExcept {γ : Type} {f : γ → ExceptT ε (StateM τ) α} {f' : γ → ExceptT ε (StateM τ') α}
    (each : ∀ c, Together related (f c).run (f' c).run) (cs : List γ) :
    Together related (cs.mapM f).run (cs.mapM f').run := by
  induction cs with
  | nil =>
    rw [List.mapM_nil, List.mapM_nil]
    exact .pure _
  | cons c cs ih =>
    rw [List.mapM_cons, List.mapM_cons]
    exact bindExcept (each c) fun _ => bindExcept ih fun _ => .pure _

end Together

/-! ## Ways to keep in step -/

/-- A way for two computations to keep in step that is the way of a whole computation if it is that
of its parts. -/
structure Link (τ τ' : Type) where
  Holds {α : Type} : StateM τ α → StateM τ' α → Prop
  pure {α : Type} (a : α) : Holds (pure a) (pure a)
  bind {α β : Type} {x : StateM τ α} {x' : StateM τ' α} {f : α → StateM τ β}
      {f' : α → StateM τ' β} :
    Holds x x' → (∀ a, Holds (f a) (f' a)) → Holds (x >>= f) (x' >>= f')

namespace Link

/-- States that belong together stay together, with the same results. -/
def together (related : τ → τ' → Prop) : Link τ τ' where
  Holds := Together related
  pure := Together.pure
  bind := Together.bind

/-- The second computation does what the first does unless something is the case when that has
ended; once it is the case it stays so. -/
def shortOf (spent : τ → Prop) : Link τ τ where
  Holds x x' := ∀ t, (spent t → spent (x.run t).2) ∧ (¬ spent (x.run t).2 → x'.run t = x.run t)
  pure _ _ := ⟨id, fun _ => rfl⟩
  bind := by
    intro _ _ x x' f f' first next t
    obtain ⟨stays, same⟩ := first t
    obtain ⟨stays', same'⟩ := next (x.run t).1 (x.run t).2
    refine ⟨fun before => stays' (stays before), fun not => ?_⟩
    rw [run_bind_eq, same (mt stays' not)]
    exact same' not

theorem mapM (link : Link τ τ') {γ : Type} {f : γ → StateM τ α} {f' : γ → StateM τ' α}
    (each : ∀ c, link.Holds (f c) (f' c)) (cs : List γ) :
    link.Holds (cs.mapM f) (cs.mapM f') := by
  induction cs with
  | nil =>
    rw [List.mapM_nil, List.mapM_nil]
    exact link.pure _
  | cons c cs ih =>
    rw [List.mapM_cons, List.mapM_cons]
    exact link.bind (each c) fun _ => link.bind ih fun _ => link.pure _

end Link

end Barrage
