import Barrage.Pattern.Reference

/-!
Validation: the walk over a tree that sets its links. Every fire needs a bullet and every reference
a node that it names. The first failure ends the walk; links that were set before it stay.
-/

set_option autoImplicit false

namespace Barrage

inductive ValidationError where
  | missingBullet (span : Span)
  | orphanedAction (kind : Kind) (span : Span)
  | reference (error : ReferenceError)
  deriving DecidableEq, Repr

namespace ValidationError

def code : ValidationError → Code
  | missingBullet _ => .missingBullet
  | orphanedAction .. => .orphanedAction
  | reference error => error.code

def span : ValidationError → Span
  | missingBullet s | orphanedAction _ s => s
  | reference error => error.span

def message : ValidationError → String
  | missingBullet s => s!"<fire> without a bullet description at {s.text}"
  | orphanedAction kind s => s!"<{kind.name}> has no parent node at {s.text}"
  | reference error => error.message

end ValidationError

structure ValidationStats where
  nodes : Nat := 0
  references : Nat := 0
  fires : Nat := 0
  deriving DecidableEq, Repr

structure Walk extends Linking where
  stats : ValidationStats := {}

abbrev Validating := ExceptT ValidationError (StateM Walk)

namespace Tree

def spanOf (t : Tree) (i : NodeId) : Span :=
  match t.node? i with
  | some n => n.span
  | none => Span.nowhere

def linkTarget (t : Tree) (i : NodeId) : Validating Unit := do
  let outcome ← modifyGet fun w =>
    let (outcome, l) := t.resolve i w.toLinking
    (outcome, { w with toLinking := l })
  match outcome with
  | .error e => throw (.reference e)
  | .ok _ => modify fun w => { w with stats.references := w.stats.references + 1 }

/-- Links an action to the repeat directly around it, if there is one. -/
def linkRepeat (t : Tree) (i : NodeId) : Validating Unit :=
  match t.parent? i with
  | none => throw (.orphanedAction ((t.kind? i).getD default) (t.spanOf i))
  | some p =>
    if t.kind? p = some .repeat then
      modify fun w => { w with links := w.links.setRepeat i p }
    else pure ()

/-- The bullet of a fire: the first one inside it, or what its first bullet reference is linked to.
-/
def bulletFor? (t : Tree) (l : Links) (i : NodeId) : Option NodeId :=
  match t.child? i .bullet with
  | some bullet => some bullet
  | none => (t.child? i .bulletRef).bind l.target?

def linkBullet (t : Tree) (i : NodeId) : Validating Unit := do
  let w ← get
  match t.bulletFor? w.links i with
  | none => throw (.missingBullet (t.spanOf i))
  | some bullet =>
    modify fun w => { w with
      links := w.links.setBullet i bullet
      stats.fires := w.stats.fires + 1 }

/-- Walks a node and all below it. What a fire reference holds is not walked. -/
def validateNode (t : Tree) (i : NodeId) : Validating Unit := do
  modify fun w => { w with stats.nodes := w.stats.nodes + 1 }
  match t.kind? i with
  | some .action =>
    t.linkRepeat i
    (t.childrenAbove i).forM fun ⟨c, _h⟩ => t.validateNode c
  | some .actionRef =>
    t.linkRepeat i
    (t.childrenAbove i).forM fun ⟨c, _h⟩ => t.validateNode c
    t.linkTarget i
  | some .fireRef => t.linkTarget i
  | some .fire =>
    (t.childrenAbove i).forM fun ⟨c, _h⟩ => t.validateNode c
    t.linkBullet i
  | some .bulletRef =>
    (t.childrenAbove i).forM fun ⟨c, _h⟩ => t.validateNode c
    t.linkTarget i
  | _ => (t.childrenAbove i).forM fun ⟨c, _h⟩ => t.validateNode c
termination_by t.size - i
decreasing_by all_goals exact Nat.sub_lt_sub_left (Nat.lt_trans _h.1 _h.2) _h.1

/-- Validates a tree from its root on, with the links that are set already. -/
def validate (t : Tree) (l : Linking) : Except ValidationError Unit × Walk :=
  (t.validateNode root).run.run { toLinking := l }

end Tree

end Barrage
