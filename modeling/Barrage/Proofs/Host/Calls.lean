import Barrage.Emitter
import Barrage.Proofs.Computation

/-!
What hosts are asked to do with entities. A recorded host answers as the host itself and writes down
each call beside the world. Computations with a recorded host come to what they come to with the
host, and they only add calls to those that were written down before.
-/

set_option autoImplicit false

namespace Barrage

inductive Call (F : Type) where
  /-- An entity is wanted; the host makes one or refuses to. -/
  | create (wanted : Emission F) (made? : Option (Entity F))
  | spawn (b : Bullet F)
  | remove (e : Entity F)

abbrev Calls (F : Type) := List (Call F)

structure Recorded (F σ : Type) where
  world : σ
  calls : Calls F

variable {F σ : Type}

/-- A host that answers as another one and writes down what it is asked to do with entities. -/
def Host.recorded (h : Host F σ) : Host F (Recorded F σ) where
  create wanted w :=
    let (made?, world) := h.create wanted w.world
    (made?, ⟨world, w.calls ++ [.create wanted made?]⟩)
  spawn b w := ⟨h.spawn b w.world, w.calls ++ [.spawn b]⟩
  remove e w := ⟨h.remove e w.world, w.calls ++ [.remove e]⟩
  target e w := h.target e w.world
  rank w := h.rank w.world
  random w := let (x, world) := h.random w.world; (x, { w with world })

def Stage.noting (s : Stage σ) (calls : Calls F) : Stage (Recorded F σ) :=
  ⟨⟨s.world, calls⟩, s.journal⟩

def Actor.noting (a : Actor F σ) (calls : Calls F) : Actor F (Recorded F σ) :=
  { toStage := a.toStage.noting calls, entity := a.entity }

/-! ## Computations and their recordings -/

section Recordings

variable {τ τ' α β : Type}

/-- A computation with a recorded host comes to what another comes to with the host itself. What is
asked meanwhile has a property, in which the states before and after may occur. -/
def Records (note : τ → Calls F → τ') (x : StateM τ α) (x' : StateM τ' α)
    (P : τ → α → τ → Calls F → Prop) : Prop :=
  ∀ t before, ∃ calls, x'.run (note t before) = ((x.run t).1, note (x.run t).2 (before ++ calls)) ∧
    P t (x.run t).1 (x.run t).2 calls

def Silent (note : τ → Calls F → τ') (x : StateM τ α) (x' : StateM τ' α) : Prop :=
  ∀ t before, x'.run (note t before) = ((x.run t).1, note (x.run t).2 before)

variable {note : τ → Calls F → τ'} {x : StateM τ α} {x' : StateM τ' α}

namespace Records

variable {P Q : τ → α → τ → Calls F → Prop}

theorem mono (records : Records note x x' P) (weaker : ∀ t a u calls, P t a u calls →
    Q t a u calls) : Records note x x' Q := by
  intro t before
  obtain ⟨calls, same, holds⟩ := records t before
  exact ⟨calls, same, weaker _ _ _ _ holds⟩

theorem bind {f : α → StateM τ β} {f' : α → StateM τ' β} {P : τ → α → τ → Calls F → Prop}
    {Q : α → τ → β → τ → Calls F → Prop} {R : τ → β → τ → Calls F → Prop}
    (first : Records note x x' P) (next : ∀ a, Records note (f a) (f' a) (Q a))
    (both : ∀ t a u b v calls calls', P t a u calls → Q a u b v calls' →
      R t b v (calls ++ calls')) : Records note (x >>= f) (x' >>= f') R := by
  intro t before
  obtain ⟨calls, same, holds⟩ := first t before
  -- the second part begins with the calls of the first one written down
  obtain ⟨calls', same', holds'⟩ := next (x.run t).1 (x.run t).2 (before ++ calls)
  refine ⟨calls ++ calls', ?_, both _ _ _ _ _ _ _ holds holds'⟩
  rw [run_bind_eq, same, same', List.append_assoc]
  rfl

/-- A part goes first, and the rest says by itself what comes of it then. -/
theorem followed {f : α → StateM τ β} {f' : α → StateM τ' β} {P : τ → α → τ → Calls F → Prop}
    {R : τ → β → τ → Calls F → Prop} (first : Records note x x' P)
    (next : ∀ a, Records note (f a) (f' a) fun u b v calls' =>
      ∀ t calls, P t a u calls → R t b v (calls ++ calls')) :
    Records note (x >>= f) (x' >>= f') R :=
  first.bind next fun _ _ _ _ _ _ _ holds follows => follows _ _ holds

end Records

namespace Silent

theorem pure (a : α) : Silent note (pure a) (pure a) := fun _ _ => rfl

theorem records (silent : Silent note x x') :
    Records note x x' fun t a u calls => (a, u) = x.run t ∧ calls = [] := by
  intro t before
  refine ⟨[], ?_, rfl, rfl⟩
  rw [silent, List.append_nil]

theorem bindRecords {f : α → StateM τ β} {f' : α → StateM τ' β}
    {Q : τ → β → τ → Calls F → Prop} (first : Silent note x x')
    (next : ∀ a, Records note (f a) (f' a) fun u b v calls =>
      ∀ t, (a, u) = x.run t → Q t b v calls) : Records note (x >>= f) (x' >>= f') Q := by
  refine first.records.bind next ?_
  rintro t a u b v _ calls ⟨same, rfl⟩ holds
  exact holds t same

end Silent

end Recordings

end Barrage
