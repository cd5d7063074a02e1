import Barrage.Pattern.Validation
import Barrage.Path

/-!
Patterns: a tree that has passed validation, with its links, the way the field faces and the file
that it came from. A pattern is entered at the action labelled `top`, or else at each of `top1` to
`top9`.
-/

set_option autoImplicit false

namespace Barrage

structure Pattern where
  tree : Tree
  links : Links
  orientation : Orientation := .none
  file? : Option Path := none

namespace Pattern

def topLabel : String := "top"

def numberedLabels : List String := (List.range 9).map fun n => topLabel ++ toString (n + 1)

def actionLabelled? (p : Pattern) (label : String) : Option NodeId :=
  p.tree.findLabel? label .action Tree.root

/-- The actions that an emitter runs, each as an entity of its own. -/
def entryPoints (p : Pattern) : List NodeId :=
  match p.actionLabelled? topLabel with
  | some top => [top]
  | none => numberedLabels.filterMap p.actionLabelled?

def target? (p : Pattern) (i : NodeId) : Option NodeId := p.links.target? i

def bullet? (p : Pattern) (i : NodeId) : Option NodeId := p.links.bullet? i

def repeat? (p : Pattern) (i : NodeId) : Option NodeId := p.links.repeat? i

end Pattern

end Barrage
