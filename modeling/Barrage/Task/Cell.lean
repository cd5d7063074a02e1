import Barrage.Task.Plan

/-!
The state of the tasks of a plan: for every task whether it is finished and how far it is. The shape
of a state is that of its plan.
-/

set_option autoImplicit false

namespace Barrage

/-- What a fire remembers of its shots. -/
structure Shots (F : Type) where
  /-- The number of shots since the fire was last started afresh, counted with 32 bits. -/
  count : UInt32
  direction : F
  speed : F
  deriving DecidableEq, Repr

def Work.Progress (F : Type) : Work → Type
  /- The passes that are done. -/
  | .action _ => Nat
  /- The time that is left. -/
  | .wait _ => F
  | .turn .. => Turn F
  | .glide .. => Glide F F
  | .accelerate .. => Glide (Vec F) F
  | .fire .. => Shots F
  | .sequence | .again | .vanish => Unit

/-- The number of shots since the last fresh start; none for tasks that do not fire. -/
def Work.shotCount {F : Type} : (w : Work) → w.Progress F → Nat
  | .fire .., shots => (Shots.count shots).toNat
  | _, _ => 0

mutual

/-- The state of a plan. -/
inductive Cell (F : Type) : Plan F → Type where
  | mk {node : NodeId} {args : List F} {work : Work} {children : List (Plan F)}
      (finished : Bool) (progress : work.Progress F) (below : Cells F children) :
      Cell F (.mk node args work children)

inductive Cells (F : Type) : List (Plan F) → Type where
  | nil : Cells F []
  | cons {p : Plan F} {ps : List (Plan F)} (head : Cell F p) (tail : Cells F ps) :
      Cells F (p :: ps)

end

namespace Cell

variable {F : Type}

def finished {p : Plan F} : Cell F p → Bool
  | .mk finished .. => finished

@[simp] theorem finished_mk {node : NodeId} {args : List F} {work : Work}
    {children : List (Plan F)} (finished : Bool) (progress : work.Progress F)
    (below : Cells F children) :
    (Cell.mk finished progress below : Cell F (.mk node args work children)).finished
      = finished := rfl

end Cell

/-- What can be seen of one task. Tasks are numbered in the order of the plan, a task before all
tasks below it. -/
structure TaskRow (F : Type) where
  index : Nat
  node : NodeId
  owner? : Option Nat
  children : List Nat
  args : List F
  finished : Bool
  shots : Nat
  frames : Frames F

namespace TaskRow

variable {F : Type}

/-- The numbers of tasks that follow each other, from a first number on. -/
def indices (first : Nat) : List (Plan F) → List Nat
  | [] => []
  | p :: ps => first :: indices (first + p.size) ps

mutual

def ofCell (index : Nat) (owner? : Option Nat) (outer : Frames F) :
    (p : Plan F) → Cell F p → List (TaskRow F)
  | .mk node args work children, .mk finished progress below =>
    { index, node, owner?, args, finished
      children := indices (index + 1) children
      shots := work.shotCount progress
      frames := args :: outer } :: ofCells (index + 1) (some index) (args :: outer) children below

def ofCells (index : Nat) (owner? : Option Nat) (outer : Frames F) :
    (ps : List (Plan F)) → Cells F ps → List (TaskRow F)
  | [], .nil => []
  | p :: ps, .cons head tail =>
    ofCell index owner? outer p head ++ ofCells (index + p.size) owner? outer ps tail

end

end TaskRow

end Barrage
