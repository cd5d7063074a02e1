import Barrage.Bullet
import Barrage.Proofs.Task.Countable

/-!
The tasks of a bullet in one list. Each task has a place in it and names the task above it and the
tasks below it by their places. Nothing rules out a circle of tasks, so starting and running go from
place to place only as far as a supply of fuel lasts: every recursion and every round of a loop
takes one unit.
-/

set_option autoImplicit false

namespace Barrage

variable {F σ α β : Type}

structure Slot (F : Type) where
  node : NodeId
  args : List F
  work : Work
  owner? : Option Nat
  children : List Nat
  finished : Bool
  progress : work.Progress F

structure Machine (F σ : Type) where
  slots : List (Slot F)
  actor : Actor F σ

/-- A computation that may run out of fuel, or of numbers to count passes with; then there is no
result. -/
abbrev Machining (F σ : Type) := StateT (Machine F σ) Option

def Halts (x : Machining F σ α) (m : Machine F σ) (a : α) (m' : Machine F σ) : Prop :=
  x.run m = some (a, m')

theorem Halts.bind {x : Machining F σ α} {f : α → Machining F σ β} {m m' m'' : Machine F σ} {a : α}
    {b : β} (halts : Halts x m a m') (next : Halts (f a) m' b m'') : Halts (x >>= f) m b m'' := by
  rw [Halts, StateT.run_bind, halts]
  exact next

theorem Halts.pure (a : α) (m : Machine F σ) : Halts (pure a) m a m := rfl

def Work.rewind : (w : Work) → w.Progress F → w.Progress F
  | .fire .., shots => ({ shots with count := 0 } : Shots F)
  | _, progress => progress

namespace Slot

def bare (s : Slot F) : Plan F := .mk s.node s.args s.work []

def marked (s : Slot F) (finished : Bool) : Slot F := { s with finished }

/-- The task is to be done once more, and a fire counts its shots afresh. -/
def rewound (s : Slot F) : Slot F :=
  { s with finished := false, progress := s.work.rewind s.progress }

def passes? : Slot F → Option (Int × Nat)
  | ⟨_, _, .action bound, _, _, _, passed⟩ => some (bound, passed)
  | _ => none

def counted? (s : Slot F) : Option (Slot F) :=
  match s with
  | ⟨node, args, .action bound, owner?, children, finished, passed⟩ =>
    if Int.ofNat passed < Limit.passes then
      some ⟨node, args, .action bound, owner?, children, finished, Nat.succ passed⟩
    else none
  | s => some s

theorem counted?_action {node : NodeId} {args : List F} {bound : Int} {owner? : Option Nat}
    {children : List Nat} {finished : Bool} {passed : Nat}
    (number : Int.ofNat passed < Limit.passes) :
    (⟨node, args, .action bound, owner?, children, finished, passed⟩ : Slot F).counted?
      = some ⟨node, args, .action bound, owner?, children, finished, Nat.succ passed⟩ := by
  simp only [counted?, if_pos number]

end Slot

namespace Machine

def slotAt (id : Nat) : Machining F σ (Slot F) := fun m => m.slots[id]?.map fun s => (s, m)

def store (id : Nat) (s : Slot F) : Machining F σ Unit :=
  modify fun m => { m with slots := m.slots.set id s }

def acting (x : Acting F σ α) : Machining F σ α :=
  modifyGet fun m => let (r, actor) := x.run m.actor; (r, { m with actor })

/-- The arguments in scope: those of a task and all tasks above it, and those around all tasks. -/
def frames (scope : Frames F) : (fuel : Nat) → (id? : Option Nat) → Machining F σ (Frames F)
  | _, none => pure scope
  | 0, some _ => failure
  | fuel + 1, some id => do
    let s ← slotAt id
    let outer ← frames scope fuel s.owner?
    pure (s.args :: outer)

variable [Scalar F]

section Starting

variable (h : Host F σ) (scope : Frames F)

/-- Prepares a task after all tasks below it; fires keep their shots. -/
def prepare (fuel id : Nat) : Machining F σ Unit := do
  let s ← slotAt id
  let frames ← frames scope fuel (some id)
  let progress ← acting (s.work.prepareAgain h frames s.progress)
  store id { s with progress }

def reset : (fuel id : Nat) → Machining F σ Unit
  | 0, _ => failure
  | fuel + 1, id => do
    let s ← slotAt id
    store id s.rewound
    forM s.children (reset fuel)
    prepare h scope fuel id

def start : (fuel id : Nat) → Machining F σ Unit
  | 0, _ => failure
  | fuel + 1, id => do
    let s ← slotAt id
    if s.work = .again then reset h scope (fuel + 1) id
    else do
      store id (s.marked false)
      forM s.children (start fuel)
      prepare h scope fuel id

end Starting

def finish (id : Nat) : Machining F σ Status := do
  let s ← slotAt id
  store id (s.marked true)
  pure .done

/-- Does tasks in order, until one waits; `clear` tells whether all tasks before are finished. The
task at a place is the one above them. -/
def runInOrder (run : Nat → Machining F σ Status) (id : Nat) :
    List Nat → (clear : Bool) → Machining F σ Status
  | [], clear => do
    let s ← slotAt id
    store id (s.marked clear)
    pure (.ofDone clear)
  | child :: children, clear => do
    let s ← slotAt child
    if s.finished then runInOrder run id children clear
    else do
      let status ← run child
      match status with
      | .waiting => do
        let s ← slotAt id
        store id (s.marked false)
        pure .waiting
      | status => runInOrder run id children (clear && status.isDone)

/-- Does the passes of an action: a body, and what comes after each pass. -/
def loop (body : Machining F σ Status) (again : Machining F σ Unit) (id : Nat) :
    (fuel : Nat) → Machining F σ Status
  | 0 => failure
  | fuel + 1 => do
    let s ← slotAt id
    match s.passes? with
    | none => finish id
    | some (bound, passed) =>
      if bound ≤ Int.ofNat passed then finish id
      else do
        let status ← body
        match status with
        | .done => do
          let s ← slotAt id
          match s.counted? with
          | none => failure
          | some s => do
            store id s
            again
            loop body again id fuel
        | status => pure status

end Machine

/-! ## Running -/

variable [Scalar F]

def Env.tickAlone (env : Env F σ) (node : NodeId) (frames : Frames F) (holders : List (Plan F)) :
    (w : Work) → w.Progress F → Acting F σ (Status × w.Progress F)
  | .wait _, left => tickWait left
  | .turn .., t => do
    let (ended, t) ← tickTurn t
    pure (.ofDone ended, t)
  | .glide .., g => do
    let (ended, g) ← tickGlide g
    pure (.ofDone ended, g)
  | .accelerate .., g => do
    let (ended, g) ← tickAcceleration g
    pure (.ofDone ended, g)
  | .fire direction speed, shots => do
    let shots ← env.shoot node frames holders direction speed shots
    pure (.done, shots)
  | .vanish, progress => do
    env.vanish node
    pure (.done, progress)
  | .sequence, progress => pure (.done, progress)
  | .again, progress => pure (.done, progress)
  | .action _, progress => pure (.done, progress)

namespace Machine

variable (env : Env F σ) (scope : Frames F)

def holders (s : Slot F) : Machining F σ (List (Plan F)) :=
  match s.children.getLast? with
  | none => pure []
  | some id => do
    let holder ← slotAt id
    pure [holder.bare]

def runAlone (fuel id : Nat) : Machining F σ Status := do
  let s ← slotAt id
  let frames ← frames scope fuel (some id)
  let holders ← holders s
  let (status, progress) ← acting (env.tickAlone s.node frames holders s.work s.progress)
  store id { s with finished := s.finished || status.isDone, progress }
  pure status

def run : (fuel id : Nat) → Machining F σ Status
  | 0, _ => failure
  | fuel + 1, id => do
    let s ← slotAt id
    match s.work with
    | .sequence | .again => runInOrder (run fuel) id s.children true
    | .action _ =>
      loop (runInOrder (run fuel) id s.children true)
        (forM s.children (start env.host scope fuel)) id fuel
    | _ => runAlone env scope fuel id

end Machine

/-! ## Lists for plans -/

def Work.blank : (w : Work) → w.Progress F
  | .action _ => (0 : Nat)
  | .wait _ => (Scalar.zero : F)
  | .turn .. => (⟨.none, Scalar.zero, Scalar.zero, Scalar.zero, Scalar.zero⟩ : Turn F)
  | .glide .. => (⟨Scalar.zero, Scalar.zero⟩ : Glide F F)
  | .accelerate .. => (⟨Vec.zero, Scalar.zero⟩ : Glide (Vec F) F)
  | .fire .. => (⟨0, Scalar.zero, Scalar.zero⟩ : Shots F)
  | .sequence | .again | .vanish => ()

mutual

def Plan.blank : (p : Plan F) → Cell F p
  | .mk _ _ work children => .mk false work.blank (Plan.blanks children)

def Plan.blanks : (ps : List (Plan F)) → Cells F ps
  | [] => .nil
  | p :: ps => .cons (Plan.blank p) (Plan.blanks ps)

end

namespace Slot

mutual

def ofCell (index : Nat) (owner? : Option Nat) : (p : Plan F) → Cell F p → List (Slot F)
  | .mk node args work children, .mk finished progress below =>
    { node, args, work, owner?, finished, progress
      children := TaskRow.indices (index + 1) children } ::
        ofCells (index + 1) (some index) children below

def ofCells (index : Nat) (owner? : Option Nat) : (ps : List (Plan F)) → Cells F ps → List (Slot F)
  | [], .nil => []
  | p :: ps, .cons head tail =>
    ofCell index owner? p head ++ ofCells (index + p.size) owner? ps tail

end

omit [Scalar F]

mutual

theorem length_ofCell (index : Nat) (owner? : Option Nat) : (p : Plan F) → (cell : Cell F p) →
    (ofCell index owner? p cell).length = p.size
  | .mk node args work children, .mk finished progress below => by
    rw [ofCell, List.length_cons, length_ofCells, Plan.size, Nat.add_comm]

theorem length_ofCells (index : Nat) (owner? : Option Nat) : (ps : List (Plan F)) →
    (below : Cells F ps) → (ofCells index owner? ps below).length = Plan.sizes ps
  | [], .nil => rfl
  | p :: ps, .cons head tail => by
    rw [ofCells, List.length_append, length_ofCell, length_ofCells, Plan.sizes]

end

def seen (s : Slot F) : NodeId × List F × Option Nat × List Nat × Bool × Nat :=
  (s.node, s.args, s.owner?, s.children, s.finished, s.work.shotCount s.progress)

mutual

theorem seen_ofCell (index : Nat) (owner? : Option Nat) (outer : Frames F) : (p : Plan F) →
    (cell : Cell F p) → (ofCell index owner? p cell).map seen
      = (TaskRow.ofCell index owner? outer p cell).map fun row =>
        (row.node, row.args, row.owner?, row.children, row.finished, row.shots)
  | .mk node args work children, .mk finished progress below => by
    rw [ofCell, TaskRow.ofCell, List.map_cons, List.map_cons,
      seen_ofCells (index + 1) (some index) (args :: outer) children below]
    rfl

theorem seen_ofCells (index : Nat) (owner? : Option Nat) (outer : Frames F) :
    (ps : List (Plan F)) → (below : Cells F ps) → (ofCells index owner? ps below).map seen
      = (TaskRow.ofCells index owner? outer ps below).map fun row =>
        (row.node, row.args, row.owner?, row.children, row.finished, row.shots)
  | [], .nil => rfl
  | p :: ps, .cons head tail => by
    rw [ofCells, TaskRow.ofCells, List.map_append, List.map_append,
      seen_ofCell index owner? outer p head, seen_ofCells (index + p.size) owner? outer ps tail]

end

end Slot

end Barrage
