/-!
Arguments in scope: the argument lists of the references around a task, the innermost first. The
first list that is long enough has the value of a parameter. What a bullet inherits are the lists
that are longer than all lists before them; no other list can have a value.
-/

set_option autoImplicit false

namespace Barrage

/-- Argument lists, the innermost first. -/
abbrev Frames (F : Type) := List (List F)

namespace Frames

variable {F : Type}

/-- The value of a parameter, counted from one. -/
def param? (fs : Frames F) (index : Nat) : Option F :=
  if index = 0 then none else fs.findSome? fun frame => frame[index - 1]?

/-- The lists that are longer than a length and than all lists before them. -/
def longerThan (length : Nat) : Frames F → Frames F
  | [] => []
  | frame :: rest =>
    if length < frame.length then frame :: longerThan frame.length rest
    else longerThan length rest

def pruned (fs : Frames F) : Frames F := fs.longerThan 0

end Frames

end Barrage
