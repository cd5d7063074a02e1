import Barrage.Proofs.Host.Silence
import Barrage.Proofs.Task.History

/-!
Deals with hosts. In one tick a task asks nothing or makes one deal: a fire wants an entity, which
the host refuses to make or gets back at once, in a bullet or to be removed; a task that vanishes
has the bullet's own entity removed. What a longer computation asks falls into such parts.
-/

set_option autoImplicit false

namespace Barrage

variable {F σ : Type}

/-- The same entity, maybe elsewhere, in other motion or under another name. -/
structure Entity.Same (e e' : Entity F) : Prop where
  id : e'.id = e.id
  emitter? : e'.emitter? = e.emitter?
  timeScale : e'.timeScale = e.timeScale
  scale : e'.scale = e.scale

namespace Entity.Same

variable {e e' e'' : Entity F}

theorem refl (e : Entity F) : e.Same e := ⟨rfl, rfl, rfl, rfl⟩

theorem trans (first : e.Same e') (next : e'.Same e'') : e.Same e'' :=
  ⟨next.id.trans first.id, next.emitter?.trans first.emitter?, next.timeScale.trans first.timeScale,
    next.scale.trans first.scale⟩

theorem of_eq (same : e' = e) : e.Same e' := same ▸ refl e

theorem moved_to (e : Entity F) (position : Vec F) : e.Same { e with position } :=
  ⟨rfl, rfl, rfl, rfl⟩

end Entity.Same

/-! ## Tasks and what they ask -/

def Work.fires : Work → Bool
  | .fire .. => true
  | _ => false

inductive Plan.Holds : Frames F → Plan F → Frames F → Plan F → Prop where
  | self {outer : Frames F} {p : Plan F} : Holds outer p (p.args :: outer) p
  | child {outer frames : Frames F} {p c q : Plan F} (inside : c ∈ p.children)
      (deeper : Holds (p.args :: outer) c frames q) : Holds outer p frames q

theorem Plan.Holds.further {outer frames : Frames F} {p q c : Plan F}
    (holds : p.Holds outer frames q) (inside : c ∈ q.children) :
    p.Holds outer (c.args :: frames) c := by
  induction holds with
  | self => exact .child inside .self
  | child between _ ih => exact .child between (ih inside)

section Deals

variable [Scalar F] (env : Env F σ)

def Plan.Fails (h : Host F σ) (p : Pattern) (scope : Frames F) (node : NodeId) : Prop :=
  ∃ s error s', (Plan.build h p scope node).run s = (.error error, s')

/-- A bullet comes from a shot of a fire: it is bound to the node of the last task that the fire
holds, with the arguments of that task and those around the fire. -/
structure Shot (frames : Frames F) (q : Plan F) (b : Bullet F) : Prop where
  bound : b.Bound
  pattern : b.pattern = env.pattern
  emitter : b.emitter = env.emitter
  held : ∃ holder, q.children.getLast? = some holder ∧ b.node = holder.node ∧
    b.scope? = some (Frames.pruned (holder.args :: frames))

/-- What one tick of a task asks of the host, with the entity as it is at that moment. -/
inductive Deal (frames : Frames F) (q : Plan F) (now : Entity F) : Calls F → Prop where
  | refused (fires : q.work.fires) : Deal frames q now [.create ⟨env.emitter, now.position⟩ none]
  | detached {made : Entity F} (fires : q.work.fires)
      (detached : made.emitter? ≠ some env.emitter) :
      Deal frames q now [.create ⟨env.emitter, now.position⟩ (some made), .remove made]
  | unbound {made e : Entity F} {holder : Plan F} (fires : q.work.fires)
      (attached : made.emitter? = some env.emitter) (same : made.Same e)
      (held : q.children.getLast? = some holder)
      (noPlan : Plan.Fails env.host env.pattern (Frames.pruned (holder.args :: frames))
        holder.node) :
      Deal frames q now [.create ⟨env.emitter, now.position⟩ (some made), .remove e]
  | fired {made : Entity F} {b : Bullet F} (fires : q.work.fires)
      (attached : made.emitter? = some env.emitter) (same : made.Same b.entity)
      (shot : Shot env frames q b) :
      Deal frames q now [.create ⟨env.emitter, now.position⟩ (some made), .spawn b]
  | vanished (vanishes : q.work = .vanish) : Deal frames q now [.remove now]

variable {env} in
/-- A bullet that is given off comes from a shot, with an entity that is attached to its emitter. -/
theorem Deal.shot {frames : Frames F} {q : Plan F} {now : Entity F} {b : Bullet F} {part : Calls F}
    (deal : Deal env frames q now part) (member : .spawn b ∈ part) :
    q.work.fires ∧ b.entity.emitter? = some env.emitter ∧ Shot env frames q b := by
  cases deal with
  | fired fires attached same shot =>
    obtain rfl : b = _ := by simpa using member
    exact ⟨fires, same.emitter?.trans attached, shot⟩
  | _ => simp at member

end Deals

/-! ## Computations on an entity -/

/-- What a computation asks has a property, in which the entity before it may occur; the entity
stays the same one. -/
def Asks {α : Type} (P : Entity F → Calls F → Prop) (x : Acting F σ α)
    (x' : Acting F (Recorded F σ) α) : Prop :=
  Records Actor.noting x x' fun a _ a' calls => a.entity.Same a'.entity ∧ P a.entity calls

/-- What is asked falls into parts with a property, in which the entity at that moment may occur. -/
def Parts (D : Entity F → Calls F → Prop) (e : Entity F) (calls : Calls F) : Prop :=
  ∃ parts : List (Calls F), calls = parts.flatten ∧ ∀ part ∈ parts, ∃ now, e.Same now ∧ D now part

namespace Parts

variable {D D' : Entity F → Calls F → Prop} {e e' : Entity F} {calls calls' : Calls F}

theorem nil : Parts D e [] := ⟨[], rfl, nofun⟩

theorem single (holds : D e calls) : Parts D e calls := by
  refine ⟨[calls], (List.flatten_singleton).symm, ?_⟩
  intro part member
  obtain rfl := List.mem_singleton.1 member
  exact ⟨e, .refl e, holds⟩

theorem append (same : e.Same e') (first : Parts D e calls) (next : Parts D e' calls') :
    Parts D e (calls ++ calls') := by
  obtain ⟨parts, rfl, holds⟩ := first
  obtain ⟨parts', rfl, holds'⟩ := next
  refine ⟨parts ++ parts', List.flatten_append.symm, ?_⟩
  intro part member
  rcases List.mem_append.1 member with member | member
  · exact holds part member
  · obtain ⟨now, later, holds⟩ := holds' part member
    exact ⟨now, same.trans later, holds⟩

theorem mono (parts : Parts D e calls) (weaker : ∀ now part, D now part → D' now part) :
    Parts D' e calls := by
  obtain ⟨parts, rfl, holds⟩ := parts
  refine ⟨parts, rfl, fun part member => ?_⟩
  obtain ⟨now, same, holds⟩ := holds part member
  exact ⟨now, same, weaker now part holds⟩

end Parts

namespace Asks

variable {α β : Type} {x : Acting F σ α} {x' : Acting F (Recorded F σ) α} {f : α → Acting F σ β}
  {f' : α → Acting F (Recorded F σ) β} {P Q : Entity F → Calls F → Prop}

theorem mono (asks : Asks P x x') (weaker : ∀ e calls, P e calls → Q e calls) : Asks Q x x' :=
  Records.mono asks fun _ _ _ _ ⟨same, holds⟩ => ⟨same, weaker _ _ holds⟩

theorem of_idle (idle : Idle x x') : Asks (fun _ calls => calls = []) x x' := by
  refine idle.silent.records.mono ?_
  rintro a r a' _ ⟨same, rfl⟩
  refine ⟨.of_eq ?_, rfl⟩
  have kept := idle.entity_eq a
  rwa [← same] at kept

theorem after_idle (idle : Idle x x') (next : ∀ r, Asks P (f r) (f' r)) :
    Asks P (x >>= f) (x' >>= f') := by
  refine idle.silent.bindRecords fun r => Records.mono (next r) ?_
  rintro a s a' calls ⟨same, holds⟩ a₀ reached
  have kept : a.entity = a₀.entity := by
    rw [← idle.entity_eq a₀, ← reached]
  rw [← kept]
  exact ⟨same, holds⟩

theorem before_idle (first : Asks P x x') (idle : ∀ r, Idle (f r) (f' r)) :
    Asks P (x >>= f) (x' >>= f') := by
  refine Records.bind first (fun r => of_idle (idle r)) ?_
  rintro a r a' s a'' calls _ ⟨same, holds⟩ ⟨same', rfl⟩
  rw [List.append_nil]
  exact ⟨same.trans same', holds⟩

theorem pureParts {D : Entity F → Calls F → Prop} (a : α) :
    Asks (σ := σ) (Parts D) (pure a) (pure a) :=
  (of_idle (.pure a)).mono fun _ _ silent => silent ▸ .nil

theorem bindParts {D : Entity F → Calls F → Prop} (first : Asks (Parts D) x x')
    (next : ∀ r, Asks (Parts D) (f r) (f' r)) : Asks (Parts D) (x >>= f) (x' >>= f') := by
  refine Records.bind first next ?_
  rintro a r a' s a'' calls calls' ⟨same, parts⟩ ⟨same', parts'⟩
  exact ⟨same.trans same', parts.append same parts'⟩

theorem change {g : Entity F → Entity F} (same : ∀ e : Entity F, e.Same (g e)) :
    Asks (σ := σ) (fun _ calls => calls = []) (Actor.change g) (Actor.change g) := by
  intro a before
  refine ⟨[], ?_, same _, rfl⟩
  rw [List.append_nil]
  rfl

theorem staged {x : Staged σ α} {x' : Staged (Recorded F σ) α} {P : Calls F → Prop}
    (records : Records Stage.noting x x' fun _ _ _ calls => P calls) :
    Asks (fun _ => P) (Actor.staged x) (Actor.staged x') := by
  intro a before
  obtain ⟨calls, same, holds⟩ := records a.toStage before
  refine ⟨calls, ?_, .refl _, holds⟩
  have step : (Actor.staged x').run (a.noting before) =
      let r := x'.run (a.toStage.noting before)
      (r.1, { toStage := r.2, entity := a.entity }) := rfl
  rw [step, same]
  rfl

end Asks

end Barrage
