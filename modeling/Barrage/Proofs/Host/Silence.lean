import Barrage.Proofs.Host.Calls
import Barrage.Proofs.Host.Coupling

/-!
Making a plan and starting its tasks asks nothing of the host, and leaves the entity alone. So the
only thing that binding an entity can ask is to remove it, which it does exactly if there is no
plan.
-/

set_option autoImplicit false

namespace Barrage

variable {F σ : Type} {α β : Type}

def Recorded.Of (calls : Calls F) (w : σ) (w' : Recorded F σ) : Prop := w' = ⟨w, calls⟩

theorem Host.alike_recorded (h : Host F σ) (calls : Calls F) :
    h.Alike (Recorded.Of calls) h.recorded where
  target := by
    rintro w _ rfl e
    rfl
  rank := by
    rintro w _ rfl
    rfl
  random := by
    rintro w _ rfl
    exact ⟨rfl, rfl⟩

theorem Silent.of_together {x : Staged σ α} {x' : Staged (Recorded F σ) α}
    (together : ∀ calls, Together (Stage.Related (Recorded.Of calls)) x x') :
    Silent Stage.noting x x' := by
  intro s calls
  obtain ⟨same, world, journal⟩ := together calls s (s.noting calls) ⟨rfl, rfl⟩
  generalize x'.run (s.noting calls) = r' at same world journal ⊢
  obtain ⟨a, ⟨w, j⟩⟩ := r'
  obtain rfl : (x.run s).1 = a := same
  obtain rfl : w = ⟨(x.run s).2.world, calls⟩ := world
  obtain rfl : (x.run s).2.journal = j := journal
  rfl

theorem Plan.silent_build [Scalar F] (h : Host F σ) (p : Pattern) (scope : Frames F) (i : NodeId) :
    Silent Stage.noting (Plan.build h p scope i) (Plan.build h.recorded p scope i) :=
  .of_together fun calls => Plan.together_build (h.alike_recorded calls).agrees (fun _ => trivial)
    scope i

structure Idle (x : Acting F σ α) (x' : Acting F (Recorded F σ) α) : Prop where
  silent : Silent Actor.noting x x'
  entity_eq : ∀ a, (x.run a).2.entity = a.entity

namespace Idle

theorem of_together {x : Acting F σ α} {x' : Acting F (Recorded F σ) α}
    (together : ∀ calls e, Together (Actor.Related (Recorded.Of calls) e) x x') : Idle x x' where
  silent := by
    intro a calls
    obtain ⟨same, ⟨world, journal⟩, own, other⟩ :=
      together calls a.entity a (a.noting calls) ⟨⟨rfl, rfl⟩, rfl, rfl⟩
    generalize x'.run (a.noting calls) = r' at same world journal other ⊢
    obtain ⟨b, ⟨⟨w, j⟩, e⟩⟩ := r'
    obtain rfl : (x.run a).1 = b := same
    obtain rfl : w = ⟨(x.run a).2.world, calls⟩ := world
    obtain rfl : (x.run a).2.journal = j := journal
    obtain rfl : e = (x.run a).2.entity := Eq.trans other own.symm
    rfl
  entity_eq a := (together [] a.entity a (a.noting []) ⟨⟨rfl, rfl⟩, rfl, rfl⟩).2.own

theorem pure (a : α) : Idle (σ := σ) (F := F) (pure a) (pure a) :=
  of_together fun _ _ => .pure a

theorem entityNow : Idle (F := F) (σ := σ) Actor.entityNow Actor.entityNow :=
  of_together fun _ _ => Actor.together_entityNow

end Idle

variable [Scalar F] (h : Host F σ)

theorem Work.idle_prepare (frames : Frames F) (w : Work) :
    Idle (w.prepare h frames) (w.prepare h.recorded frames) :=
  .of_together fun calls e => Work.together_prepare
    (Actor.agrees_of_alike (h.alike_recorded calls) e) frames (w.reads_of_forall fun _ => trivial)

theorem Work.idle_prepareReset (frames : Frames F) (w : Work) (progress : w.Progress F) :
    Idle (w.prepareReset h frames progress) (w.prepareReset h.recorded frames progress) :=
  .of_together fun calls e => Work.together_prepareReset
    (Actor.agrees_of_alike (h.alike_recorded calls) e) frames (w.reads_of_forall fun _ => trivial)
    progress

theorem Work.idle_prepareAgain (frames : Frames F) (w : Work) (progress : w.Progress F) :
    Idle (w.prepareAgain h frames progress) (w.prepareAgain h.recorded frames progress) :=
  .of_together fun calls e => Work.together_prepareAgain
    (Actor.agrees_of_alike (h.alike_recorded calls) e) frames (w.reads_of_forall fun _ => trivial)
    progress

theorem Plan.idle_start (outer : Frames F) (p : Plan F) :
    Idle (p.start h outer) (p.start h.recorded outer) :=
  .of_together fun calls e => Plan.together_start (Actor.agrees_of_alike (h.alike_recorded calls) e)
    outer p (p.reads_of_forall fun _ => trivial)

theorem Plan.idle_restartAll (outer : Frames F) (ps : List (Plan F)) (below : Cells F ps) :
    Idle (Plan.restartAll h outer ps below) (Plan.restartAll h.recorded outer ps below) :=
  .of_together fun calls e => Plan.together_restartAll
    (Actor.agrees_of_alike (h.alike_recorded calls) e) outer ps
    (fun p _ => p.reads_of_forall fun _ => trivial) below

end Barrage
