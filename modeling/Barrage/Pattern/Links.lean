import Barrage.Pattern.Tree

/-!
Links: what validation finds out about the nodes of a tree and later stages use. A reference is
linked to the node that it names, a fire to its bullet and an action to the repeat directly around
it.
-/

set_option autoImplicit false

namespace Barrage

structure NodeLinks where
  target? : Option NodeId := none
  bullet? : Option NodeId := none
  repeat? : Option NodeId := none
  deriving DecidableEq, Repr, Inhabited

def NodeLinks.isSet (l : NodeLinks) : Bool :=
  l.target?.isSome || l.bullet?.isSome || l.repeat?.isSome

structure Links where
  rows : Array NodeLinks
  deriving DecidableEq, Repr

namespace Links

def blank (size : Nat) : Links := ⟨Array.replicate size {}⟩

def at? (l : Links) (i : NodeId) : Option NodeLinks := l.rows[i]?

def target? (l : Links) (i : NodeId) : Option NodeId := (l.at? i).bind (·.target?)

def bullet? (l : Links) (i : NodeId) : Option NodeId := (l.at? i).bind (·.bullet?)

def repeat? (l : Links) (i : NodeId) : Option NodeId := (l.at? i).bind (·.repeat?)

def setTarget (l : Links) (i target : NodeId) : Links :=
  ⟨l.rows.modify i fun row => { row with target? := some target }⟩

def setBullet (l : Links) (i bullet : NodeId) : Links :=
  ⟨l.rows.modify i fun row => { row with bullet? := some bullet }⟩

def setRepeat (l : Links) (i around : NodeId) : Links :=
  ⟨l.rows.modify i fun row => { row with repeat? := some around }⟩

end Links

end Barrage
