import Barrage.Proofs.Host.Updates
import Barrage.Simulation

/-!
Simulations that are told tick by tick. The chronicle of a simulation says for each tick which
bullets were held when bullets began to be moved, which were moved and what each of them asked of
the host, and what the world was at the end. Else it is the simulation.
-/

set_option autoImplicit false

namespace Barrage

/-! ## Listening -/

def listening {F σ α : Type} (x : Staged (Recorded F σ) α) : Staged σ (α × Calls F) :=
  modifyGet fun s =>
    let (a, heard) := x.run (s.noting [])
    ((a, heard.world.calls), ⟨heard.world.world, heard.journal⟩)

theorem Records.run_listening {F σ α : Type} {x : Staged σ α} {x' : Staged (Recorded F σ) α}
    {P : Stage σ → α → Stage σ → Calls F → Prop} (records : Records Stage.noting x x' P)
    (s : Stage σ) : ∃ calls, (listening x').run s = (((x.run s).1, calls), (x.run s).2) ∧
      x'.run (s.noting []) = ((x.run s).1, (x.run s).2.noting calls) ∧
      P s (x.run s).1 (x.run s).2 calls := by
  obtain ⟨calls, same, holds⟩ := records s []
  rw [List.nil_append] at same
  refine ⟨calls, ?_, same, holds⟩
  change (let r := x'.run (s.noting []);
    ((r.1, r.2.world.calls), (⟨r.2.world.world, r.2.journal⟩ : Stage σ))) = _
  rw [same]
  rfl

/-- A computation comes to what another one comes to, and tells something besides. -/
def Tells {τ α β : Type} (x : StateM τ α) (x' : StateM τ (α × β)) : Prop :=
  ∀ t, x.run t = ((x'.run t).1.1, (x'.run t).2)

namespace Tells

variable {F σ τ α β γ δ : Type}

theorem pure (a : α) (b : β) : Tells (τ := τ) (pure a) (pure (a, b)) := fun _ => rfl

theorem bind {x : StateM τ α} {x' : StateM τ (α × β)} {f : α → StateM τ γ}
    {f' : α × β → StateM τ (γ × δ)} (first : Tells x x') (next : ∀ a b, Tells (f a) (f' (a, b))) :
    Tells (x >>= f) (x' >>= f') := by
  intro t
  rw [run_bind_eq, run_bind_eq, first]
  exact next _ _ _

theorem after {x : StateM τ α} {f : α → StateM τ γ} {f' : α → StateM τ (γ × δ)}
    (next : ∀ a, Tells (f a) (f' a)) : Tells (x >>= f) (x >>= f') := fun _ => next _ _

theorem listening {x : Staged σ α} {x' : Staged (Recorded F σ) α}
    {P : Stage σ → α → Stage σ → Calls F → Prop} (records : Records Stage.noting x x' P) :
    Tells x (listening x') := by
  intro s
  obtain ⟨calls, same, -⟩ := records.run_listening s
  rw [same]
  rfl

end Tells

/-! ## Chronicles -/

structure Move (F : Type) where
  bullet : Bullet F
  calls : Calls F

def Move.id {F : Type} (m : Move F) : Nat := m.bullet.entity.id

structure Round (F : Type) where
  /-- The move of the emitter's bullet, if the emitter was bound. -/
  root? : Option (Move F)
  /-- The bullets that were held when bullets began to be moved. -/
  held : List (Bullet F)
  moves : List (Move F)
  after : Arena F

namespace Round

variable {F : Type}

def rootCalls (r : Round F) : Calls F := r.root?.elim [] Move.calls

def moveCalls (r : Round F) : Calls F := r.moves.flatMap Move.calls

def calls (r : Round F) : Calls F := r.rootCalls ++ r.moveCalls

/-- The numbers of the entities whose bullets were moved, the emitter's one first. -/
def updated (r : Round F) : List Nat := (r.root?.toList ++ r.moves).map Move.id

end Round

/-- A simulation, tick by tick. -/
structure Chronicle (F : Type) where
  root : Nat
  begins : Calls F
  rounds : List (Round F)

def Chronicle.calls {F : Type} (c : Chronicle F) (rounds : List (Round F)) : Calls F :=
  c.begins ++ rounds.flatMap Round.calls

theorem Chronicle.calls_append {F : Type} (c : Chronicle F) (rounds more : List (Round F)) :
    c.calls (rounds ++ more) = c.calls rounds ++ more.flatMap Round.calls := by
  rw [calls, calls, List.flatMap_append, List.append_assoc]

namespace Arena

variable {F : Type} [Scalar F]

namespace Telling

def moveOne (b : Bullet F) : Staged (Arena F) (Bullet F × List (Move F)) := do
  let s ← get
  if s.world.removed.contains b.entity.id then pure (b, [])
  else
    let ((_, moved), calls) ← listening (b.update host.recorded)
    pure (moved, [⟨b, calls⟩])

def moveAll : List (Bullet F) → Staged (Arena F) (List (Bullet F) × List (Move F))
  | [] => pure ([], [])
  | b :: bullets => do
    let (b, move) ← moveOne b
    let (bullets, moves) ← moveAll bullets
    pure (b :: bullets, move ++ moves)

def tick : Staged (Arena F) (Unit × List (Bullet F) × List (Move F)) := do
  let bullets ← Stage.ask takeOut
  let (moved, moves) ← moveAll bullets
  Stage.act (putBack moved)
  pure ((), bullets, moves)

def turn (origin : Vec F) (e : Emitter F) : Staged (Arena F) (Emitter F × Round F) := do
  let e ← dropRemoved e
  let ((_, moved), calls) ← listening (Emitter.update host.recorded origin e)
  let ((), held, moves) ← tick
  Stage.act notePeak
  let s ← get
  pure (moved, { root? := e.root?.map fun b => ⟨b, calls⟩, held, moves, after := s.world })

def turns (origin : Vec F) : Nat → Emitter F → Staged (Arena F) (Emitter F × List (Round F))
  | 0, e => pure (e, [])
  | n + 1, e => do
    let (e, round) ← turn origin e
    let (e, rounds) ← turns origin n e
    pure (e, round :: rounds)

def run (s : SimulationSettings F) (p : Pattern) :
    Staged (Arena F) (Except RunError Report × Chronicle F) := do
  let origin : Vec F := ⟨s.origin.1, s.origin.2⟩
  let root ← Stage.ask (makeRoot origin)
  let (outcome, begins) ← listening (Emitter.make host.recorded emitterId root p)
  match outcome with
  | .error e => pure (.error e, ⟨root.id, begins, []⟩)
  | .ok e =>
    let (e, rounds) ← turns origin s.ticks e
    let e ← dropRemoved e
    let a ← get
    let r := a.world.finish s.ticks e
    Stage.log fun j => j.success .simulationComplete "Simulation complete"
      [("ticks", toString r.ticks), ("spawned", toString r.spawned), ("alive", toString r.alive)]
    pure (.ok r, ⟨root.id, begins, rounds⟩)

end Telling

/-! ## The chronicle is of the simulation -/

theorem tells_moveOne (b : Bullet F) : Tells (moveOne b) (Telling.moveOne b) := by
  refine Tells.after fun s => ?_
  dsimp only
  split
  · exact .pure _ _
  · exact (Tells.listening (b.records_update host)).bind fun _ _ => .pure _ _

theorem tells_moveAll (bullets : List (Bullet F)) :
    Tells (bullets.mapM moveOne) (Telling.moveAll bullets) := by
  induction bullets with
  | nil => exact .pure _ _
  | cons b bullets ih =>
    rw [List.mapM_cons, Telling.moveAll]
    exact (tells_moveOne b).bind fun _ _ => ih.bind fun _ _ => .pure _ _

theorem tells_tick : Tells (tick : Staged (Arena F) Unit) Telling.tick :=
  Tells.after fun bullets => (tells_moveAll bullets).bind fun _ _ => fun _ => rfl

theorem tells_turn (origin : Vec F) (e : Emitter F) :
    Tells (turn origin e) (Telling.turn origin e) :=
  Tells.after fun e => (Tells.listening (e.records_update host origin)).bind fun _ _ =>
    tells_tick.bind fun _ _ => fun _ => rfl

theorem tells_turns (origin : Vec F) (n : Nat) (e : Emitter F) :
    Tells (turns origin n e) (Telling.turns origin n e) := by
  induction n generalizing e with
  | zero => exact .pure _ _
  | succ n ih => exact (tells_turn origin e).bind fun e _ => (ih e).bind fun _ _ => .pure _ _

theorem tells_run (s : SimulationSettings F) (p : Pattern) : Tells (run s p) (Telling.run s p) := by
  refine Tells.after fun root => ?_
  refine (Tells.listening (Emitter.records_make host emitterId p root)).bind fun outcome _ => ?_
  cases outcome with
  | error e => exact .pure _ _
  | ok e => exact (tells_turns _ _ _).bind fun _ _ => fun _ => rfl

theorem simulate_told (s : SimulationSettings F) (random : RandomSource F) (p : Pattern)
    (j : Journal) :
    let told := (Telling.run s p).run { world := .ofSettings s random, journal := j }
    (simulate s random p).run j = (told.1.1, told.2.journal) := by
  change (let ended := (run s p).run _; (ended.1, ended.2.journal)) = _
  rw [tells_run s p]

end Arena

end Barrage
