import Barrage.Proofs.Host.Impartial
import Barrage.Proofs.Host.Updates

/-!
Bullets in any order. Where a host treats all alike, what a bullet comes to and what it asks for is
settled before any other bullet moves, but for the numbers of new entities. So the order in which
bullets move only shows in these numbers, and in the order of what is asked.
-/

set_option autoImplicit false

namespace Barrage

variable {F σ α : Type}

/-! ## Calls without numbers -/

def Entity.blank (e : Entity F) : Entity F := { e with id := 0 }

def Bullet.blank (b : Bullet F) : Bullet F := { b with entity := b.entity.blank }

def Call.blank : Call F → Call F
  | .create wanted made? => .create wanted (made?.map Entity.blank)
  | .spawn b => .spawn b.blank
  | .remove e => .remove e.blank

namespace Dealt

variable {own own' : Nat → Prop} {calls calls' more more' : Calls F}

theorem blank (dealt : Dealt own calls calls') :
    calls.map Call.blank = calls'.map Call.blank := by
  induction dealt <;>
    simp_all [Call.blank, Entity.blank, Bullet.blank]

theorem mono (dealt : Dealt own calls calls') (wider : ∀ id, own id → own' id) :
    Dealt own' calls calls' := by
  induction dealt with
  | nil => exact .nil
  | fired _ same ih => exact ih.fired same
  | lost _ same ih => exact ih.lost same
  | vanished _ mine ih => exact ih.vanished (wider _ mine)

theorem append (dealt : Dealt own calls calls') (next : Dealt own more more') :
    Dealt own (calls ++ more) (calls' ++ more') := by
  induction next with
  | nil => simpa using dealt
  | fired _ same ih => simpa using ih.fired same
  | lost _ same ih => simpa using ih.lost same
  | vanished _ mine ih => simpa using ih.vanished mine

end Dealt

/-! ## One after the other -/

section Settled

variable {γ : Type} {among : σ → Prop}

/-- What a computation comes to in a world, and what it asks for there. -/
def reference (f : γ → Staged (Recorded F σ) α) (s : Stage σ) (c : γ) : α × Calls F :=
  let r := (f c).run (s.noting [])
  (r.1, r.2.world.calls)

/-- Computations come to the same in all worlds among some, and ask for the same but for the numbers
of new entities. -/
structure Impartially (among : σ → Prop) (own : γ → Nat → Prop) (f : γ → Staged σ α)
    (f' : γ → Staged (Recorded F σ) α) (c : γ) : Prop where
  records : Records Stage.noting (f c) (f' c) fun _ _ _ _ => True
  alike : ∀ start start',
    Together (fun s s' => Asked among (own c) start start' s.world s'.world) (f' c) (f' c)

variable {own : γ → Nat → Prop} {f : γ → Staged σ α} {f' : γ → Staged (Recorded F σ) α}
  {c : γ} {cs : List γ} {s₀ s : Stage σ}

theorem Impartially.settled (impartially : Impartially among own f f' c)
    (somewhere : among s₀.world) (here : among s.world) (before : Calls F) : ∃ calls s',
      (f c).run s = ((reference f' s₀ c).1, s') ∧
      (f' c).run (s.noting before) = ((reference f' s₀ c).1, s'.noting (before ++ calls)) ∧
      Dealt (own c) (reference f' s₀ c).2 calls ∧ among s'.world := by
  obtain ⟨calls, same, -⟩ := impartially.records s before
  obtain ⟨answer, new, new', dealt, standing⟩ := impartially.alike [] before (s₀.noting [])
    (s.noting before) ⟨[], [], .nil, somewhere, here, rfl, (List.append_nil _).symm⟩
  rw [same] at answer standing
  have others : (reference f' s₀ c).2 = new := standing.own
  obtain rfl : calls = new' := List.append_cancel_left standing.other
  refine ⟨calls, ((f c).run s).2, Prod.ext answer.symm rfl, ?_, others ▸ dealt, standing.there⟩
  rw [same]
  exact Prod.ext answer.symm rfl

/-- What is settled of each computation is settled of all of them one after the other. -/
theorem Impartially.mapM (impartially : ∀ c ∈ cs, Impartially among own f f' c)
    (somewhere : among s₀.world) (here : among s.world) (before : Calls F) : ∃ calls s',
      (cs.mapM f).run s = (cs.map fun c => (reference f' s₀ c).1, s') ∧
      (cs.mapM f').run (s.noting before) =
        (cs.map fun c => (reference f' s₀ c).1, s'.noting (before ++ calls)) ∧
      Dealt (fun _ => True) (cs.flatMap fun c => (reference f' s₀ c).2) calls ∧
      among s'.world := by
  induction cs generalizing s before with
  | nil => exact ⟨[], s, rfl, by simp; rfl, .nil, here⟩
  | cons c cs ih =>
    obtain ⟨calls, t, ran, told, dealt, there⟩ :=
      (impartially c List.mem_cons_self).settled somewhere here before
    obtain ⟨calls', t', ran', told', dealt', there'⟩ :=
      ih (fun d inside => impartially d (List.mem_cons_of_mem _ inside)) there (before ++ calls)
    refine ⟨calls ++ calls', t', ?_, ?_, (dealt.mono fun _ _ => trivial).append dealt', there'⟩
    · rw [List.mapM_cons, run_bind_eq, ran, run_bind_eq, ran']
      rfl
    · rw [List.mapM_cons, run_bind_eq, told, run_bind_eq, told', List.append_assoc]
      rfl

/-- Computations are done for some things one after the other, and elsewhere in another order. For
each thing they come to the same, and all in all they ask for the same, but for the numbers of
entities and the order. -/
def AnyOrder (f : γ → Staged σ α) (f' : γ → Staged (Recorded F σ) α) (cs cs' : List γ)
    (s s' : Stage σ) : Prop :=
  ∃ (after : γ → α) (calls calls' : Calls F) (t t' : Stage σ),
    (cs.mapM f).run s = (cs.map after, t) ∧ (cs'.mapM f).run s' = (cs'.map after, t') ∧
    (cs.mapM f').run (s.noting []) = (cs.map after, t.noting calls) ∧
    (cs'.mapM f').run (s'.noting []) = (cs'.map after, t'.noting calls') ∧
    (calls.map Call.blank).Perm (calls'.map Call.blank)

theorem Impartially.anyOrder {cs' : List γ} {s' : Stage σ}
    (impartially : ∀ c ∈ cs, Impartially among own f f' c) (reordered : cs.Perm cs')
    (here : among s.world) (there : among s'.world) : AnyOrder f f' cs cs' s s' := by
  obtain ⟨calls, t, ran, told, dealt, -⟩ := mapM impartially here here []
  obtain ⟨calls', t', ran', told', dealt', -⟩ :=
    mapM (fun c inside => impartially c (reordered.mem_iff.2 inside)) here there []
  refine ⟨_, calls, calls', t, t', ran, ran', told, told', ?_⟩
  rw [← dealt.blank, ← dealt'.blank]
  exact (reordered.flatMap_right _).map _

end Settled

/-! ## Bullets -/

variable [Scalar F] {among : σ → Prop} {h : Host F σ} {p : Pattern} {b : Bullet F}

def Bullet.Lives (p : Pattern) (b : Bullet F) : Prop :=
  ∃ (b₀ : Bullet F) (trace : Trace F), b₀.Bound ∧ b₀.pattern = p ∧ b₀.Goes trace b

theorem Bullet.Lives.pattern_eq (lives : b.Lives p) : b.pattern = p := by
  obtain ⟨_, _, -, rfl, goes⟩ := lives
  obtain ⟨cell, entity, rfl⟩ := goes.eq_with
  rfl

theorem Bullet.Lives.reads (lives : b.Lives p) (steady : p.Steady) :
    b.plan.Reads fun e => e.draws = false := by
  obtain ⟨_, _, bound, rfl, goes⟩ := lives
  obtain ⟨⟨_, _, _, _, built⟩, -⟩ := bound.built_and_fresh
  rw [goes.plan_eq]
  exact (Plan.made_of_build built).reads steady.expression

variable (impartial : h.Impartial among) (steady : p.Steady) (lives : b.Lives p)

include impartial steady lives

theorem Bullet.impartially_step : Impartially among (fun b => (· = b.entity.id)) (step h)
    (step h.recorded) b where
  records := (b.records_step h).mono fun _ _ _ _ _ => trivial
  alike _ _ := together_step_alike impartial (lives.pattern_eq ▸ steady) (lives.reads steady)

theorem Bullet.impartially_update : Impartially among (fun b => (· = b.entity.id)) (update h)
    (update h.recorded) b where
  records := (b.records_update h).mono fun _ _ _ _ _ => trivial
  alike _ _ := together_update_alike impartial (lives.pattern_eq ▸ steady) (lives.reads steady)

end Barrage
