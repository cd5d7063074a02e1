import Barrage.Pattern.Kind
import Barrage.Expression.Basic
import Barrage.Source.Position

/-!
Pattern trees: the nodes of a document in document order, numbered from zero. Children come after
their parent and parents before their children, so walks down and up a tree end.
-/

set_option autoImplicit false

namespace Barrage

abbrev NodeId := Nat

structure Node where
  kind : Kind
  policy : Policy := .none
  label? : Option String := none
  /-- The name of a pattern, which also holds below the node. -/
  name? : Option String := none
  expression : Expression := {}
  children : List NodeId := []
  parent? : Option NodeId := none
  span : Span := Span.nowhere
  deriving Repr, Inhabited

def Node.hasLabel (n : Node) (label : String) : Bool := n.label? = some label

/-- The nodes of a document. Numbers of children lie above their parent's, and within the tree; the
number of a parent lies below its child's. -/
structure Tree where
  nodes : Array Node
  forward : ∀ (i : Nat) (n : Node), nodes[i]? = some n →
    ∀ c ∈ n.children, i < c ∧ c < nodes.size
  backward : ∀ (i : Nat) (n : Node), nodes[i]? = some n →
    ∀ p : Nat, n.parent? = some p → p < i

namespace Tree

def empty : Tree := ⟨#[], by simp, by simp⟩

def size (t : Tree) : Nat := t.nodes.size

def root : NodeId := 0

def node? (t : Tree) (i : NodeId) : Option Node := t.nodes[i]?

def children (t : Tree) (i : NodeId) : List NodeId :=
  match t.node? i with
  | some n => n.children
  | none => []

def parent? (t : Tree) (i : NodeId) : Option NodeId := (t.node? i).bind (·.parent?)

def kind? (t : Tree) (i : NodeId) : Option Kind := (t.node? i).map (·.kind)

theorem lt_of_mem_children {t : Tree} {i c : NodeId} (h : c ∈ t.children i) :
    i < c ∧ c < t.size := by
  unfold children node? at h
  split at h
  · next n hn => exact t.forward i n hn c h
  · simp at h

theorem lt_of_parent? {t : Tree} {i p : NodeId} (h : t.parent? i = some p) : p < i := by
  unfold parent? node? at h
  obtain ⟨n, hn, hp⟩ := Option.bind_eq_some_iff.1 h
  exact t.backward i n hn p hp

/-- The children of a node, with the fact that their numbers lie above its own. -/
def childrenAbove (t : Tree) (i : NodeId) : List { c : NodeId // i < c ∧ c < t.size } :=
  (t.children i).attach.map fun ⟨c, h⟩ => ⟨c, lt_of_mem_children h⟩

theorem childrenAbove_map_val (t : Tree) (i : NodeId) :
    (t.childrenAbove i).map Subtype.val = t.children i := by
  simp [childrenAbove, List.map_map, Function.comp_def]

theorem mem_children_of_childrenAbove {t : Tree} {i : NodeId}
    {c : { c : NodeId // i < c ∧ c < t.size }} (member : c ∈ t.childrenAbove i) :
    c.1 ∈ t.children i :=
  t.childrenAbove_map_val i ▸ List.mem_map_of_mem member

def isLabelled (t : Tree) (label : String) (kind : Kind) (i : NodeId) : Bool :=
  match t.node? i with
  | some n => n.kind = kind && n.hasLabel label
  | none => false

/-- The node of a kind with a label below a start. All children are looked at before any node below
one of them. -/
def findLabel? (t : Tree) (label : String) (kind : Kind) (start : NodeId) : Option NodeId :=
  match (t.children start).find? (t.isLabelled label kind) with
  | some c => some c
  | none => (t.childrenAbove start).findSome? fun ⟨c, _h⟩ => t.findLabel? label kind c
termination_by t.size - start
decreasing_by exact Nat.sub_lt_sub_left (Nat.lt_trans _h.1 _h.2) _h.1

def findParent? (t : Tree) (kind : Kind) (i : NodeId) : Option NodeId :=
  match _h : t.parent? i with
  | none => none
  | some p => if t.kind? p = some kind then some p else t.findParent? kind p
termination_by i
decreasing_by exact lt_of_parent? _h

def hasKind (t : Tree) (kind : Kind) (i : NodeId) : Bool := t.kind? i = some kind

def child? (t : Tree) (i : NodeId) (kind : Kind) : Option NodeId :=
  (t.children i).find? (t.hasKind kind)

def childrenOfKind (t : Tree) (i : NodeId) (kind : Kind) : List NodeId :=
  (t.children i).filter (t.hasKind kind)

def patternName? (t : Tree) (i : NodeId) : Option String :=
  match (t.node? i).bind (·.name?) with
  | some name => some name
  | none => match _h : t.parent? i with
    | some p => t.patternName? p
    | none => none
termination_by i
decreasing_by exact lt_of_parent? _h

def expression (t : Tree) (i : NodeId) : Expression :=
  match t.node? i with
  | some n => n.expression
  | none => {}

def policy (t : Tree) (i : NodeId) : Policy :=
  match t.node? i with
  | some n => n.policy
  | none => .none

def adopt (t : Tree) (parent? : Option NodeId) : Array Node :=
  match parent? with
  | none => t.nodes
  | some p => t.nodes.modify p fun m => { m with children := m.children ++ [t.size] }

theorem size_adopt (t : Tree) (parent? : Option NodeId) :
    (t.adopt parent?).size = t.nodes.size := by
  unfold adopt
  split <;> simp

/-- Adoption gives a node at most the next node as a further child, and changes nothing else. -/
theorem of_adopt {t : Tree} {parent? : Option NodeId} {i : Nat} {n : Node}
    (h : (t.adopt parent?)[i]? = some n) :
    ∃ m, t.nodes[i]? = some m ∧ n.parent? = m.parent? ∧
      ∀ c ∈ n.children, c ∈ m.children ∨ c = t.size := by
  unfold adopt at h
  split at h
  · exact ⟨n, h, rfl, fun c hc => .inl hc⟩
  · rw [Array.getElem?_modify] at h
    split at h
    · obtain ⟨m, hm, rfl⟩ := Option.map_eq_some_iff.1 h
      exact ⟨m, hm, rfl, fun c hc => by simpa using hc⟩
    · exact ⟨n, h, rfl, fun c hc => .inl hc⟩

theorem lt_size_of_node? {t : Tree} {i : Nat} {n : Node} (h : t.nodes[i]? = some n) :
    i < t.size := (Array.getElem?_eq_some_iff.1 h).1

/-- Adds a node without children below another, or without a parent. A parent that is not in the
tree is none. -/
def push (t : Tree) (n : Node) (parent? : Option NodeId) : Tree :=
  let parent? := parent?.filter fun p => decide (p < t.size)
  { nodes := (t.adopt parent?).push { n with children := [], parent? }
    forward := by
      intro i m hi c hc
      rw [Array.getElem?_push, t.size_adopt] at hi
      rw [Array.size_push, t.size_adopt]
      split at hi
      · obtain rfl := Option.some.inj hi
        simp at hc
      · obtain ⟨k, hk, _, hm⟩ := of_adopt hi
        have := lt_size_of_node? hk
        rcases hm c hc with hc | rfl
        · have := t.forward i k hk c hc
          exact ⟨this.1, Nat.lt_succ_of_lt this.2⟩
        · exact ⟨this, Nat.lt_succ_self _⟩
    backward := by
      intro i m hi p hp
      rw [Array.getElem?_push, t.size_adopt] at hi
      split at hi
      · next h =>
        obtain rfl := Option.some.inj hi
        exact h ▸ of_decide_eq_true (Option.filter_eq_some_iff.1 hp).2
      · obtain ⟨k, hk, hkm, _⟩ := of_adopt hi
        exact t.backward i k hk p (hkm ▸ hp) }

theorem size_push (t : Tree) (n : Node) (parent? : Option NodeId) :
    (t.push n parent?).size = t.size + 1 := by
  simp [push, size, size_adopt]

variable {F σ : Type} [Scalar F]

def value (t : Tree) (i : NodeId) (r : Reading F σ) (s : σ) : F × σ :=
  (t.expression i).evaluate r s

def childValue (t : Tree) (i : NodeId) (kind : Kind) (r : Reading F σ) (s : σ) : F × σ :=
  match t.child? i kind with
  | some c => t.value c r s
  | none => (Scalar.zero, s)

end Tree

end Barrage
