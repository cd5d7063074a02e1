import Barrage.Text.Basic

/-!
File paths by components. Repeated separators, a trailing separator and inner `.` components do not
count, so paths that differ only in these are the same path and have one place in the order.
-/

set_option autoImplicit false

namespace Barrage

structure Path where
  text : String
  deriving DecidableEq, Repr, Inhabited

namespace Path

inductive Component where
  | root
  | current
  | parent
  | name (text : String)
  deriving DecidableEq, Repr

def Component.rank : Component → Nat
  | .root => 0
  | .current => 1
  | .parent => 2
  | .name _ => 3

/-- Names are ordered by their characters, and after all other components. -/
def Component.lt : Component → Component → Bool
  | .name a, .name b => a < b
  | a, b => a.rank < b.rank

def components (p : Path) : List Component :=
  let cs := p.text.toList
  let parts := (Text.splitOnChar '/' cs).filter fun part => !part.isEmpty
  let start := if cs.head? = some '/' then [Component.root]
    else if parts.head? = some ['.'] then [.current] else []
  start ++ (parts.filter (· ≠ ['.'])).map fun part =>
    if part = ['.', '.'] then .parent else .name (String.ofList part)

/-- The order of component lists: the first difference decides, and a shorter list comes first. -/
def componentsLt : List Component → List Component → Bool
  | _, [] => false
  | [], _ :: _ => true
  | a :: as, b :: bs => a.lt b || (a == b && componentsLt as bs)

def lt (p q : Path) : Bool := componentsLt p.components q.components

def same (p q : Path) : Bool := p.components == q.components

def join (p : Path) (name : String) : Path :=
  ⟨if p.text.isEmpty || p.text.toList.getLast? = some '/' then p.text ++ name
    else p.text ++ "/" ++ name⟩

def fileName? (p : Path) : Option String :=
  match p.components.getLast? with
  | some (.name text) => some text
  | _ => none

/-- What follows the last dot of the file name, unless the name starts with that dot. -/
def extension? (p : Path) : Option String := do
  let name ← p.fileName?
  let reversed := name.toList.reverse
  let tail := reversed.takeWhile (· ≠ '.')
  match reversed.dropWhile (· ≠ '.') with
  | [] => none
  | [_] => none
  | _ => some (String.ofList tail.reverse)

end Path

end Barrage
