import Barrage.Motion.Easing
import Barrage.Expression.Basic
import Barrage.Pattern.Tree
import Barrage.Task.Frames

/-!
Plans: what the tasks of an entity are, with all references followed. A plan never changes while it
is carried out; the state of its tasks is kept apart.
-/

set_option autoImplicit false

namespace Barrage

structure Wanted where
  policy : Policy
  expression : Expression
  deriving DecidableEq, Repr

structure ShotValue extends Wanted where
  /-- Whether it belongs to the bullet, and not to the fire. -/
  ofBullet : Bool
  deriving DecidableEq, Repr

structure ShotRule where
  /-- For the first shot, and for all shots if there is nothing for later ones. -/
  first? : Option ShotValue := none
  later? : Option ShotValue := none
  deriving DecidableEq, Repr

inductive Work where
  | sequence
  /-- Does the tasks below in order; whatever starts it again resets all below. -/
  | again
  | action (passes : Int)
  | wait (duration : Expression)
  | turn (direction? : Option Wanted) (term? : Option Expression)
  | glide (speed? : Option Wanted) (term? : Option Expression)
  | accelerate (horizontal? vertical? : Option Wanted) (term? : Option Expression)
  /-- Gives off a bullet; the tasks below only hold the arguments of bullets. -/
  | fire (direction speed : ShotRule)
  | vanish
  deriving DecidableEq, Repr

inductive Plan (F : Type) where
  | mk (node : NodeId) (args : List F) (work : Work) (children : List (Plan F))

namespace Plan

variable {F : Type}

def node : Plan F → NodeId
  | mk node .. => node

def args : Plan F → List F
  | mk _ args .. => args

def work : Plan F → Work
  | mk _ _ work _ => work

def children : Plan F → List (Plan F)
  | mk _ _ _ children => children

mutual

def size : Plan F → Nat
  | mk _ _ _ children => 1 + sizes children

def sizes : List (Plan F) → Nat
  | [] => 0
  | p :: ps => p.size + sizes ps

end

end Plan

end Barrage
