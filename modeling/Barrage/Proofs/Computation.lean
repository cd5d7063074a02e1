import Mathlib.Data.List.Forall2

/-!
Computations that may fail and keep their state when they do. A computation that ends well is taken
apart step by step; each step has ended well before the next one began.
-/

set_option autoImplicit false

namespace Barrage

variable {ε σ α β : Type}

theorem run_bind_eq (x : StateM σ α) (f : α → StateM σ β) (s : σ) :
    (x >>= f).run s = (f (x.run s).1).run (x.run s).2 := rfl

theorem run_pure_eq (a : α) (s : σ) : (pure a : StateM σ α).run s = (a, s) := rfl

def Ends (x : ExceptT ε (StateM σ) α) (s : σ) (a : α) (s' : σ) : Prop :=
  x.run.run s = (.ok a, s')

namespace Ends

theorem pure_iff {a b : α} {s s' : σ} :
    Ends (pure a : ExceptT ε (StateM σ) α) s b s' ↔ b = a ∧ s' = s := by
  constructor
  · intro ended
    cases ended
    exact ⟨rfl, rfl⟩
  · rintro ⟨rfl, rfl⟩
    rfl

theorem run_eq_bind (x : ExceptT ε (StateM σ) α) (f : α → ExceptT ε (StateM σ) β) (s : σ) :
    (x >>= f).run.run s = match x.run.run s with
      | (.ok a, t) => (f a).run.run t
      | (.error e, t) => (.error e, t) := by
  unfold ExceptT.run StateT.run
  simp only [bind, ExceptT.bind, ExceptT.mk, StateT.bind, ExceptT.bindCont]
  cases x s with
  | mk outcome t => cases outcome <;> rfl

theorem bind_iff {x : ExceptT ε (StateM σ) α} {f : α → ExceptT ε (StateM σ) β} {s s' : σ} {b : β} :
    Ends (x >>= f) s b s' ↔ ∃ a t, Ends x s a t ∧ Ends (f a) t b s' := by
  unfold Ends
  rw [run_eq_bind]
  cases x.run.run s with
  | mk outcome t =>
    cases outcome with
    | error e =>
      constructor
      · intro ended
        cases ended
      · rintro ⟨a, u, ended, -⟩
        cases ended
    | ok a =>
      constructor
      · intro ended
        exact ⟨a, t, rfl, ended⟩
      · rintro ⟨b, u, ended, rest⟩
        cases ended
        exact rest

theorem bind_congr {x : ExceptT ε (StateM σ) α} {f g : α → ExceptT ε (StateM σ) β}
    (same : ∀ s a s', Ends x s a s' → f a = g a) : x >>= f = x >>= g := by
  funext s
  change (x >>= f).run.run s = (x >>= g).run.run s
  rw [run_eq_bind, run_eq_bind]
  cases ended : x.run.run s with
  | mk outcome t =>
    cases outcome with
    | error e => rfl
    | ok a => exact congrArg (fun y => y.run.run t) (same s a t ended)

theorem forall₂_mapM {R : α → β → Prop} {f : α → ExceptT ε (StateM σ) β} {cs : List α}
    {bs : List β} {s s' : σ} (ended : Ends (cs.mapM f) s bs s')
    (each : ∀ c ∈ cs, ∀ t b t', Ends (f c) t b t' → R c b) : List.Forall₂ R cs bs := by
  induction cs generalizing s bs with
  | nil =>
    rw [List.mapM_nil] at ended
    obtain ⟨rfl, -⟩ := pure_iff.1 ended
    exact .nil
  | cons c cs ih =>
    rw [List.mapM_cons] at ended
    obtain ⟨b, t, first, ended⟩ := bind_iff.1 ended
    obtain ⟨rest, t', others, ended⟩ := bind_iff.1 ended
    obtain ⟨rfl, rfl⟩ := pure_iff.1 ended
    exact .cons (each c List.mem_cons_self _ _ _ first)
      (ih others fun d inside => each d (List.mem_cons_of_mem _ inside))

theorem not_throw {e : ε} {s s' : σ} {a : α} :
    ¬ Ends (throw e : ExceptT ε (StateM σ) α) s a s' := by
  intro ended
  cases ended

theorem lift_iff {x : StateM σ α} {s s' : σ} {a : α} :
    Ends (ExceptT.lift x : ExceptT ε (StateM σ) α) s a s' ↔ x.run s = (a, s') := by
  have step : (ExceptT.lift x : ExceptT ε (StateM σ) α).run.run s
      = (.ok (x.run s).1, (x.run s).2) := rfl
  unfold Ends
  rw [step]
  constructor
  · intro ended
    cases ended
    rfl
  · intro same
    rw [same]

theorem modify_iff {f : σ → σ} {s s' : σ} {u : PUnit} :
    Ends (modify f : ExceptT ε (StateM σ) PUnit) s u s' ↔ s' = f s := by
  constructor
  · intro ended
    cases ended
    rfl
  · rintro rfl
    rfl

theorem modifyGet_iff {f : σ → α × σ} {s s' : σ} {a : α} :
    Ends (modifyGet f : ExceptT ε (StateM σ) α) s a s' ↔ f s = (a, s') :=
  lift_iff

theorem get_iff {s s' a : σ} :
    Ends (get : ExceptT ε (StateM σ) σ) s a s' ↔ a = s ∧ s' = s := by
  constructor
  · intro ended
    cases ended
    exact ⟨rfl, rfl⟩
  · rintro ⟨rfl, rfl⟩
    rfl

end Ends

def Fails (x : ExceptT ε (StateM σ) α) (s : σ) (e : ε) (s' : σ) : Prop :=
  x.run.run s = (.error e, s')

namespace Fails

variable {s s' : σ} {e : ε}

theorem bind_iff {x : ExceptT ε (StateM σ) α} {f : α → ExceptT ε (StateM σ) β} :
    Fails (x >>= f) s e s' ↔ Fails x s e s' ∨ ∃ a t, Ends x s a t ∧ Fails (f a) t e s' := by
  unfold Fails Ends
  rw [Ends.run_eq_bind]
  obtain ⟨outcome, t⟩ := x.run.run s
  cases outcome with
  | error =>
    constructor
    · intro failed
      cases failed
      exact .inl rfl
    · rintro (failed | ⟨a, u, ended, -⟩)
      · cases failed
        rfl
      · cases ended
  | ok a =>
    constructor
    · exact fun failed => .inr ⟨a, t, rfl, failed⟩
    · rintro (other | ⟨b, u, ended, failed⟩)
      · cases other
      · cases ended
        exact failed

theorem not_pure {a : α} : ¬ Fails (pure a : ExceptT ε (StateM σ) α) s e s' := by
  intro failed
  cases failed

theorem throw_iff {thrown : ε} :
    Fails (throw thrown : ExceptT ε (StateM σ) α) s e s' ↔ e = thrown ∧ s' = s := by
  constructor
  · intro failed
    cases failed
    exact ⟨rfl, rfl⟩
  · rintro ⟨rfl, rfl⟩
    rfl

end Fails

theorem mapM_congr {m : Type → Type} [Monad m] [LawfulMonad m] {cs : List α} {f g : α → m β}
    (same : ∀ c ∈ cs, f c = g c) : cs.mapM f = cs.mapM g := by
  induction cs with
  | nil => rfl
  | cons c cs ih =>
    rw [List.mapM_cons, List.mapM_cons, same c List.mem_cons_self,
      ih fun d inside => same d (List.mem_cons_of_mem _ inside)]

theorem exists_of_mem_forall₂ {R : α → β → Prop} {as : List α} {bs : List β} {b : β}
    (all : List.Forall₂ R as bs) (member : b ∈ bs) : ∃ a ∈ as, R a b := by
  induction all with
  | nil => cases member
  | cons first _ ih =>
    rcases List.mem_cons.1 member with rfl | member
    · exact ⟨_, List.mem_cons_self, first⟩
    · obtain ⟨a, inside, holds⟩ := ih member
      exact ⟨a, List.mem_cons_of_mem _ inside, holds⟩

end Barrage
