import Barrage.Text.Basic

/-!
The vocabulary of pattern documents: the kinds of elements, how a value is meant, and which way the
playing field faces.
-/

set_option autoImplicit false

namespace Barrage

inductive Kind where
  | bulletml
  | bullet
  | action
  | fire
  | changeDirection
  | changeSpeed
  | accel
  | wait
  | repeat
  | bulletRef
  | actionRef
  | fireRef
  | vanish
  | horizontal
  | vertical
  | term
  | times
  | direction
  | speed
  | param
  deriving DecidableEq, Repr, Inhabited

namespace Kind

def all : List Kind :=
  [bulletml, bullet, action, fire, changeDirection, changeSpeed, accel, wait, .repeat, bulletRef,
    actionRef, fireRef, vanish, horizontal, vertical, term, times, direction, speed, param]

def name : Kind → String
  | bulletml => "bulletml"
  | bullet => "bullet"
  | action => "action"
  | fire => "fire"
  | changeDirection => "changeDirection"
  | changeSpeed => "changeSpeed"
  | accel => "accel"
  | wait => "wait"
  | .repeat => "repeat"
  | bulletRef => "bulletRef"
  | actionRef => "actionRef"
  | fireRef => "fireRef"
  | vanish => "vanish"
  | horizontal => "horizontal"
  | vertical => "vertical"
  | term => "term"
  | times => "times"
  | direction => "direction"
  | speed => "speed"
  | param => "param"

def ofName? (s : String) : Option Kind := all.find? fun k => k.name = s

theorem ofName?_name (k : Kind) : ofName? k.name = some k := by cases k <;> decide

def referenced? : Kind → Option Kind
  | bulletRef => some bullet
  | actionRef => some action
  | fireRef => some fire
  | _ => none

def isReference (k : Kind) : Bool := k.referenced?.isSome

end Kind

inductive Policy where
  | none
  | aim
  | absolute
  | relative
  | sequence
  deriving DecidableEq, Repr, Inhabited

namespace Policy

def name : Policy → String
  | none => "none"
  | aim => "aim"
  | absolute => "absolute"
  | relative => "relative"
  | sequence => "sequence"

def ofAttribute? (s : String) : Option Policy :=
  match s with
  | "" | "none" => some none
  | "aim" => some aim
  | "absolute" => some absolute
  | "relative" => some relative
  | "sequence" => some sequence
  | _ => Option.none

/-- Directions aim unless they say otherwise. -/
def forDirection : Policy → Policy
  | none | aim => aim
  | p => p

end Policy

inductive Orientation where
  | none
  | vertical
  | horizontal
  deriving DecidableEq, Repr, Inhabited

namespace Orientation

def name : Orientation → String
  | none => "none"
  | vertical => "vertical"
  | horizontal => "horizontal"

def title : Orientation → String
  | none => "None"
  | vertical => "Vertical"
  | horizontal => "Horizontal"

def ofAttribute? (s : String) : Option Orientation :=
  match Text.lowerAscii s with
  | "none" => some none
  | "vertical" => some vertical
  | "horizontal" => some horizontal
  | _ => Option.none

end Orientation

end Barrage
