import Barrage.Proofs.Host.CoupledTicks
import Barrage.Simulation
import Mathlib.Data.List.Chain

/-!
How many entities a simulation holds. A watched simulation keeps every world that it comes through,
one for each thing that its host is asked to do and one for each step of the simulation itself; else
it is the simulation. In none of these worlds is more alive than may be: bullets that are moved are
counted apart while others are fired, and an entity that is on its way has its place left free.
-/

set_option autoImplicit false

namespace Barrage

/-! ## Watching worlds -/

structure Watched (σ : Type) where
  world : σ
  past : List σ := []

namespace Watched

variable {σ α : Type}

def all (w : Watched σ) : List σ := w.past ++ [w.world]

def next (w : Watched σ) (world : σ) : Watched σ := ⟨world, w.all⟩

def act (f : σ → σ) (w : Watched σ) : Watched σ := w.next (f w.world)

def ask (f : σ → α × σ) (w : Watched σ) : α × Watched σ := ((f w.world).1, w.next (f w.world).2)

end Watched

def Host.watched {F σ : Type} (h : Host F σ) : Host F (Watched σ) where
  create wanted := Watched.ask (h.create wanted)
  spawn b := Watched.act (h.spawn b)
  remove e := Watched.act (h.remove e)
  target e w := h.target e w.world
  rank w := h.rank w.world
  random := Watched.ask h.random

namespace Arena

variable {F : Type} [Scalar F]

namespace Watching

def moveOne (b : Bullet F) : Staged (Watched (Arena F)) (Bullet F) := do
  let s ← get
  if s.world.world.removed.contains b.entity.id then pure b
  else
    let (_, b) ← b.update host.watched
    pure b

def tick : Staged (Watched (Arena F)) Unit := do
  let bullets ← Stage.ask (Watched.ask takeOut)
  let moved ← bullets.mapM moveOne
  Stage.act (Watched.act (putBack moved))

def dropRemoved (e : Emitter F) : Staged (Watched (Arena F)) (Emitter F) := do
  let gone ← Stage.ask (Watched.ask takeRootRemoval)
  pure (if gone then e.detach.2 else e)

def turn (origin : Vec F) (e : Emitter F) : Staged (Watched (Arena F)) (Emitter F) := do
  let e ← dropRemoved e
  let (_, e) ← Emitter.update host.watched origin e
  tick
  Stage.act (Watched.act notePeak)
  pure e

def turns (origin : Vec F) : Nat → Emitter F → Staged (Watched (Arena F)) (Emitter F)
  | 0, e => pure e
  | n + 1, e => do
    let e ← turn origin e
    turns origin n e

def run (s : SimulationSettings F) (p : Pattern) :
    Staged (Watched (Arena F)) (Except RunError Report) := do
  let origin : Vec F := ⟨s.origin.1, s.origin.2⟩
  let root ← Stage.ask (Watched.ask (makeRoot origin))
  let outcome ← Emitter.make host.watched emitterId root p
  match outcome with
  | .error e => pure (.error e)
  | .ok e =>
    let e ← turns origin s.ticks e
    let e ← dropRemoved e
    let a ← get
    let r := a.world.world.finish s.ticks e
    Stage.log fun j => j.success .simulationComplete "Simulation complete"
      [("ticks", toString r.ticks), ("spawned", toString r.spawned), ("alive", toString r.alive)]
    pure (.ok r)

end Watching

/-! ## What holds of every world -/

/-- One thing that the host is asked to do, or one step of the simulation itself. -/
inductive Step : Arena F → Arena F → Prop where
  | create (wanted : Emission F) (a : Arena F) : Step a (Arena.create wanted a).2
  | spawn (b : Bullet F) (a : Arena F) : Step a (Arena.spawn b a)
  | remove (e : Entity F) (a : Arena F) : Step a (Arena.remove e a)
  | random (a : Arena F) : Step a (Arena.host.random a).2
  | makeRoot (origin : Vec F) (a : Arena F) : Step a (Arena.makeRoot origin a).2
  | takeRootRemoval (a : Arena F) : Step a (Arena.takeRootRemoval a).2
  | takeOut (a : Arena F) : Step a (Arena.takeOut a).2
  | putBack (moved : List (Bullet F)) (a : Arena F) : Step a (Arena.putBack moved a)
  | notePeak (a : Arena F) : Step a (Arena.notePeak a)

/-- No more is alive than may be, and none was. -/
structure Within (max : Nat) (a : Arena F) : Prop where
  limit : a.maxEntities = max
  alive : a.alive ≤ max
  peak : a.report.peakAlive ≤ max

structure Held (max moving : Nat) (a : Arena F) : Prop extends Within max a where
  moving : a.moving = moving

/-- There is room for the entity that is on its way. -/
structure Roomy (max moving : Nat) (a : Arena F) : Prop extends Held max moving a where
  room : a.alive < max

/-- A world that something holds of, and the same after others, step by step, in which no more was
alive than may be. -/
structure Seen (max : Nat) (now : Arena F → Prop) (a : Arena F) (w : Watched (Arena F)) : Prop where
  world : w.world = a
  chain : w.all.IsChain Step
  past : ∀ before ∈ w.past, before.Within max
  now : now a

variable {max moving : Nat} {now now' : Arena F → Prop} {a a' : Arena F} {w : Watched (Arena F)}

namespace Seen

theorem next (seen : Seen max now a w) (step : Step a a') (within : a.Within max)
    (holds : now' a') : Seen max now' a' (w.next a') where
  world := rfl
  chain := by
    refine List.isChain_append.2 ⟨seen.chain, .singleton a', ?_⟩
    intro last inside new only
    have latest : last = w.world := by
      change last ∈ (w.past ++ [w.world]).getLast? at inside
      simpa using inside.symm
    cases only
    rw [latest, seen.world]
    exact step
  past := by
    intro before member
    rcases List.mem_append.1 member with earlier | last
    · exact seen.past before earlier
    · rw [List.mem_singleton.1 last, seen.world]
      exact within
  now := holds

theorem act {f : Arena F → Arena F} (seen : Seen max now a w) (step : Step a (f a))
    (within : a.Within max) (holds : now' (f a)) : Seen max now' (f a) (Watched.act f w) := by
  rw [Watched.act, seen.world]
  exact seen.next step within holds

theorem ask {α : Type} {f : Arena F → α × Arena F} (seen : Seen max now a w)
    (step : Step a (f a).2) (within : a.Within max) (holds : now' (f a).2) :
    (f a).1 = (Watched.ask f w).1 ∧ Seen max now' (f a).2 (Watched.ask f w).2 := by
  rw [Watched.ask, seen.world]
  exact ⟨rfl, seen.next step within holds⟩

end Seen

/-! ## What the host is asked to do -/

omit [Scalar F] in
theorem Held.next (held : a.Held max moving) (limit : a'.maxEntities = a.maxEntities)
    (same : a'.moving = a.moving) (alive : a'.alive ≤ max)
    (peak : a'.report.peakAlive = a.report.peakAlive) : a'.Held max moving where
  limit := limit.trans held.limit
  alive := alive
  peak := peak ▸ held.peak
  moving := same.trans held.moving

omit [Scalar F] in
theorem Held.remove (held : a.Held max moving) (e : Entity F) :
    (Arena.remove e a).Held max moving := by
  unfold Arena.remove
  split
  · exact held
  · exact held.next rfl rfl held.alive rfl

theorem Held.create (held : a.Held max moving) (wanted : Emission F) :
    (Arena.create wanted a).2.Held max moving := by
  unfold Arena.create
  split
  · exact held.next rfl rfl held.alive rfl
  · exact held.next rfl rfl held.alive rfl

theorem Roomy.create (held : a.Held max moving) {wanted : Emission F} {e : Entity F}
    (made : (Arena.create wanted a).1 = some e) :
    (Arena.create wanted a).2.Roomy max moving where
  toHeld := held.create wanted
  room := by
    unfold Arena.create at made ⊢
    split at made
    · cases made
    · next free =>
      rw [if_neg free]
      exact held.limit ▸ Nat.lt_of_not_ge free

omit [Scalar F] in
theorem Roomy.spawn (roomy : a.Roomy max moving) (b : Bullet F) :
    (Arena.spawn b a).Held max moving := by
  have alive : (Arena.spawn b a).alive = a.alive + 1 := by
    rw [Arena.spawn, Arena.alive, Arena.alive, Array.size_push, Nat.add_assoc]
  exact roomy.toHeld.next rfl rfl (alive ▸ roomy.room) rfl

theorem create_eq_none_iff (wanted : Emission F) (a : Arena F) :
    (create wanted a).1 = none ↔ a.maxEntities ≤ a.alive := by
  unfold create
  split
  · next full => exact ⟨fun _ => full, fun _ => rfl⟩
  · next free => exact ⟨nofun, fun full => absurd full free⟩

theorem alike_watched (within : ∀ {a}, now a → a.Within max)
    (random : ∀ {a}, now a → now (host.random a).2) :
    (host : Host F (Arena F)).Alike (Seen max now) host.watched where
  target := by
    intro a w seen e
    exact congrArg Arena.target seen.world.symm
  rank := by
    intro a w seen
    exact congrArg Arena.rank seen.world.symm
  random seen := seen.ask (.random _) (within seen.now) (random seen.now)

/-- While no entity is on its way no more are alive than may be, and one less while one is. -/
theorem deals_watched : (host : Host F (Arena F)).Deals (Seen max (Held max moving))
    (Seen max (Roomy max moving)) host.watched where
  free := alike_watched (·.toWithin) fun held => held.next rfl rfl held.alive rfl
  taken := alike_watched (·.toWithin) fun roomy =>
    ⟨roomy.toHeld.next rfl rfl roomy.alive rfl, roomy.room⟩
  refused seen wanted noneMade := by
    obtain ⟨same, seen⟩ := seen.ask (.create wanted _) seen.now.toWithin (seen.now.create wanted)
    exact ⟨same.symm.trans noneMade, seen⟩
  made seen wanted e made := by
    obtain ⟨same, seen⟩ := seen.ask (.create wanted _) seen.now.toWithin
      (Roomy.create seen.now made)
    exact ⟨same.symm.trans made, seen⟩
  spawn seen b := seen.act (.spawn b _) seen.now.toWithin (seen.now.spawn b)
  giveBack seen e := seen.act (.remove e _) seen.now.toWithin (seen.now.toHeld.remove e)
  remove seen e := seen.act (.remove e _) seen.now.toWithin (seen.now.remove e)

/-! ## Ticks -/

theorem together_moveOne (b : Bullet F) :
    Together (Stage.Related (Seen max (Held max moving))) (moveOne b) (Watching.moveOne b) := by
  intro s s' both
  unfold moveOne Watching.moveOne
  rw [run_bind_eq, run_bind_eq]
  change (fun r r' => r.1 = r'.1 ∧ Stage.Related _ r.2 r'.2)
    ((if s.world.removed.contains b.entity.id then pure b else _ : Staged (Arena F) _).run s)
    ((if s'.world.world.removed.contains b.entity.id then pure b else _ : Staged _ _).run s')
  rw [both.world.world]
  split
  · exact ⟨rfl, both⟩
  · exact ((Bullet.together_update deals_watched b).bind fun _ => .pure _) s s' both

omit [Scalar F] in
theorem Held.takeOut (held : a.Held max 0) :
    (Arena.takeOut a).2.Held max (Arena.takeOut a).1.length where
  limit := held.limit
  alive := by
    have same : a.alive = (Arena.takeOut a).2.alive := by
      rw [Arena.alive, held.moving, Nat.zero_add]
      rfl
    exact same ▸ held.alive
  peak := held.peak
  moving := Array.length_toList.symm

omit [Scalar F] in
theorem Held.putBack {moved : List (Bullet F)} (held : a.Held max moved.length) :
    (Arena.putBack moved a).Held max 0 where
  limit := held.limit
  alive := by
    have fewer : ((moved.toArray ++ a.bullets).filter fun b =>
        !a.removed.contains b.entity.id).size ≤ moved.length + a.bullets.size := by
      refine Nat.le_trans Array.size_filter_le (Nat.le_of_eq ?_)
      rw [Array.size_append, List.size_toArray]
    have counted : a.alive = moved.length + a.bullets.size := by rw [Arena.alive, held.moving]
    change 0 + _ ≤ max
    rw [Nat.zero_add]
    exact Nat.le_trans fewer (counted ▸ held.alive)
  peak := held.peak
  moving := rfl

/-- Between two steps of a simulation: no bullet is being moved and no entity is on its way. -/
abbrev Quiet (max : Nat) : Stage (Arena F) → Stage (Watched (Arena F)) → Prop :=
  Stage.Related (Seen max (Held max 0))

theorem together_ask {α : Type} {f : Arena F → α × Arena F} (step : ∀ a, Step a (f a).2)
    (kept : ∀ a, a.Held max 0 → (f a).2.Held max 0) :
    Together (Quiet max) (Stage.ask f) (Stage.ask (Watched.ask f)) := by
  intro s s' both
  obtain ⟨same, seen⟩ := both.world.ask (step _) both.world.now.toWithin
    (kept _ both.world.now)
  exact ⟨same, seen, both.journal⟩

theorem together_tick : Together (Quiet (F := F) max) tick Watching.tick := by
  have takenOut : Coupled (Quiet (F := F) max) (Stage.ask takeOut) (Stage.ask (Watched.ask takeOut))
      fun bullets bullets' s s' => bullets = bullets' ∧
        Stage.Related (Seen max (Held max bullets.length)) s s' := by
    intro s s' both
    obtain ⟨same, seen⟩ := both.world.ask (.takeOut _) both.world.now.toWithin
      both.world.now.takeOut
    exact ⟨same, seen, both.journal⟩
  have back : ∀ bullets : List (Bullet F),
      Leads (Stage.Related (Seen max (Held max bullets.length))) (Quiet max)
        (do let moved ← bullets.mapM moveOne; Stage.act (putBack moved))
        (do let moved ← bullets.mapM Watching.moveOne
            Stage.act (Watched.act (putBack moved))) := by
    intro bullets
    refine (Together.mapM together_moveOne bullets).bind ?_
    rintro moved _ s s' ⟨rfl, length, both⟩
    have held := both.world.now
    rw [← length] at held
    exact ⟨rfl, both.world.act (.putBack moved _) held.toWithin held.putBack, both.journal⟩
  refine takenOut.bind ?_
  rintro bullets _ s s' ⟨rfl, both⟩
  exact back bullets s s' both

theorem together_dropRemoved (e : Emitter F) :
    Together (Quiet max) (dropRemoved e) (Watching.dropRemoved e) := by
  refine (together_ask .takeRootRemoval fun a held => ?_).bind fun _ => .pure _
  unfold takeRootRemoval
  split
  · exact held
  · split
    · exact held.next rfl rfl held.alive rfl
    · exact held

theorem together_turn (origin : Vec F) (e : Emitter F) :
    Together (Quiet max) (turn origin e) (Watching.turn origin e) := by
  have noted : Together (Quiet (F := F) max) (Stage.act notePeak)
      (Stage.act (Watched.act notePeak)) := by
    intro s s' both
    have held := both.world.now
    have peak : (notePeak s.world).Held max 0 :=
      ⟨⟨held.limit, held.alive, Nat.max_le.2 ⟨held.peak, held.alive⟩⟩, held.moving⟩
    exact ⟨rfl, both.world.act (.notePeak _) held.toWithin peak, both.journal⟩
  exact (together_dropRemoved e).bind fun e =>
    (Emitter.together_update deals_watched origin e).bind fun _ => together_tick.bind fun _ =>
    noted.bind fun _ => .pure _

theorem together_turns (origin : Vec F) (n : Nat) (e : Emitter F) :
    Together (Quiet max) (turns origin n e) (Watching.turns origin n e) := by
  induction n generalizing e with
  | zero => exact .pure _
  | succ n ih => exact (together_turn origin e).bind ih

/-! ## Simulations -/

/-- A watched simulation comes to the report of the simulation, which is about the last world. -/
theorem coupled_run (s : SimulationSettings F) (p : Pattern) :
    Coupled (Quiet max) (run s p) (Watching.run s p) fun outcome outcome' t t' =>
      (outcome = outcome' ∧ Quiet max t t') ∧
        ∀ r, outcome = .ok r → r.alive ≤ max ∧ r.peakAlive ≤ max := by
  have root : Together (Quiet max) (Stage.ask (makeRoot ⟨s.origin.1, s.origin.2⟩))
      (Stage.ask (Watched.ask (makeRoot ⟨s.origin.1, s.origin.2⟩))) :=
    together_ask (.makeRoot _) fun a held => held.next rfl rfl held.alive rfl
  refine root.followed fun root => ?_
  refine (Emitter.together_make deals_watched emitterId root p).followed fun outcome => ?_
  cases outcome with
  | error e => exact Coupled.pure fun t t' both => ⟨⟨rfl, both⟩, nofun⟩
  | ok e =>
    refine (together_turns _ s.ticks e).followed fun e =>
      (together_dropRemoved e).followed fun e => ?_
    rintro ⟨a, j⟩ ⟨⟨w, past⟩, j'⟩ ⟨⟨same, chain, before, held⟩, journal⟩
    obtain rfl : w = a := same
    obtain rfl : j = j' := journal
    refine ⟨⟨rfl, ⟨rfl, chain, before, held⟩, rfl⟩, ?_⟩
    rintro r ⟨⟩
    exact ⟨held.alive, held.peak⟩

theorem Within.full_iff (within : a.Within max) (wanted : Emission F) :
    (create wanted a).1 = none ↔ a.alive = max := by
  rw [create_eq_none_iff, within.limit]
  exact ⟨fun full => Nat.le_antisymm within.alive full, Nat.le_of_eq ∘ Eq.symm⟩

/-- Watching changes nothing, and in every world of a simulation no more is alive than may be. An
entity is refused exactly if as many are alive as may be. -/
theorem capacity (s : SimulationSettings F) (random : RandomSource F) (p : Pattern) (j : Journal) :
    let seen := (Watching.run s p).run { world := { world := .ofSettings s random }, journal := j }
    (simulate s random p).run j = (seen.1, seen.2.journal) ∧
    seen.2.world.all.IsChain Step ∧
    (∀ a ∈ seen.2.world.all, a.maxEntities = s.maxEntities ∧ a.alive ≤ s.maxEntities ∧
      ∀ wanted, (create wanted a).1 = none ↔ a.alive = s.maxEntities) ∧
    ∀ r, seen.1 = .ok r → r.alive ≤ s.maxEntities ∧ r.peakAlive ≤ s.maxEntities := by
  intro seen
  have start : Quiet s.maxEntities { world := .ofSettings s random, journal := j }
      { world := { world := .ofSettings s random }, journal := j } :=
    ⟨⟨rfl, .singleton _, nofun, ⟨rfl, Nat.zero_le _, Nat.zero_le _⟩, rfl⟩, rfl⟩
  obtain ⟨⟨outcome, both⟩, report⟩ := coupled_run s p _ _ start
  refine ⟨Prod.ext outcome both.journal, both.world.chain, fun a member => ?_, fun r ended => ?_⟩
  · have within : a.Within s.maxEntities := by
      rcases List.mem_append.1 member with earlier | last
      · exact both.world.past a earlier
      · rw [List.mem_singleton.1 last, both.world.world]
        exact both.world.now.toWithin
    exact ⟨within.limit, within.alive, within.full_iff⟩
  · exact report r (outcome.trans ended)

end Arena

end Barrage
