import Barrage.Pattern.Links
import Barrage.Journal.Code

/-!
References: a reference names, by its label, a node of the kind that it refers to. The node is
looked up from the root once, and the link that was found is kept.
-/

set_option autoImplicit false

namespace Barrage

inductive ReferenceError where
  | unresolved (reference : Kind) (label : String) (target : Kind) (span : Span)
  | missingLabel (reference : Kind) (span : Span)
  | notAReference (kind : Kind) (span : Span)
  deriving DecidableEq, Repr

namespace ReferenceError

def code : ReferenceError → Code
  | unresolved .. | missingLabel .. => .unresolvedReference
  | notAReference .. => .internalError

def span : ReferenceError → Span
  | unresolved _ _ _ s | missingLabel _ s | notAReference _ s => s

def label? : ReferenceError → Option String
  | unresolved _ label .. => some label
  | _ => none

def message : ReferenceError → String
  | unresolved reference label target s =>
    s!"Unresolved <{reference.name}> '{label}': no <{target.name}> with that label at {s.text}"
  | missingLabel reference s => s!"<{reference.name}> without a label at {s.text}"
  | notAReference kind _ => s!"<{kind.name}> is not a reference node"

end ReferenceError

structure Resolution where
  reference : Kind
  label : String
  target : NodeId
  deriving DecidableEq, Repr

def Tree.lookUp (t : Tree) (n : Node) : Except ReferenceError Resolution :=
  match n.kind.referenced? with
  | none => .error (.notAReference n.kind n.span)
  | some kind =>
    match n.label? with
    | none => .error (.missingLabel n.kind n.span)
    | some label =>
      match t.findLabel? label kind Tree.root with
      | none => .error (.unresolved n.kind label kind n.span)
      | some target => .ok ⟨n.kind, label, target⟩

structure Linking where
  links : Links
  resolved : Array Resolution := #[]

/-- The node that a reference is linked to; it is looked up if it is not linked yet. -/
def Tree.resolve (t : Tree) (i : NodeId) (l : Linking) : Except ReferenceError NodeId × Linking :=
  match l.links.target? i with
  | some target => (.ok target, l)
  | none =>
    match t.lookUp ((t.node? i).getD default) with
    | .error e => (.error e, l)
    | .ok found =>
      (.ok found.target,
        { links := l.links.setTarget i found.target, resolved := l.resolved.push found })

end Barrage
