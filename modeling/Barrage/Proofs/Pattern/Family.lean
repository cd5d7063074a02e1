import Barrage.Pattern.Format
import Barrage.Proofs.Computation

/-!
Parents and children in the trees that documents are read into. A node is a child of its parent and
of no other node, and only the root has no parent. So every node can be reached from the root, and
the way up from a node is the way down to it.
-/

set_option autoImplicit false

namespace Barrage

namespace Tree

/-- Parents and children agree, and only the root has no parent. -/
structure Rooted (t : Tree) : Prop where
  parent_of_child : ∀ {i c : NodeId}, c ∈ t.children i → t.parent? c = some i
  child_of_parent : ∀ {i p : NodeId}, t.parent? i = some p → i ∈ t.children p
  root_of_orphan : ∀ {i : NodeId}, i < t.size → t.parent? i = none → i = root

theorem lt_of_parent?_eq_some {t : Tree} {i p : NodeId} (h : t.parent? i = some p) :
    i < t.size := by
  obtain ⟨n, found, -⟩ := Option.bind_eq_some_iff.1 h
  exact lt_size_of_node? found

theorem parent?_root (t : Tree) : t.parent? root = none := by
  cases h : t.parent? root with
  | none => rfl
  | some p => exact absurd (lt_of_parent? h) (Nat.not_lt_zero p)

theorem node?_eq_none {t : Tree} {i : NodeId} (h : t.size ≤ i) : t.node? i = none :=
  Array.getElem?_eq_none h

/-! ## One more node -/

theorem node?_push (t : Tree) (n : Node) {p : NodeId} (h : p < t.size) (i : NodeId) :
    (t.push n (some p)).node? i =
      if i = t.size then some { n with children := [], parent? := some p }
      else (t.adopt (some p))[i]? := by
  have kept : (some p).filter (fun q => decide (q < t.size)) = some p := by simp [h]
  simp only [push, node?, kept, Array.getElem?_push, size_adopt]
  rfl

theorem parent?_push (t : Tree) (n : Node) {p : NodeId} (h : p < t.size) (i : NodeId) :
    (t.push n (some p)).parent? i = if i = t.size then some p else t.parent? i := by
  simp only [parent?, node?_push t n h]
  split
  · rfl
  · simp only [adopt, node?, Array.getElem?_modify]
    split
    · cases t.nodes[i]? <;> rfl
    · rfl

theorem children_push (t : Tree) (n : Node) {p : NodeId} (h : p < t.size) (i : NodeId) :
    (t.push n (some p)).children i =
      if i = p then t.children p ++ [t.size] else t.children i := by
  simp only [children, node?_push t n h]
  by_cases last : i = t.size
  -- the new node has no children yet, and it is not its own parent
  · subst last
    have other : t.size ≠ p := Nat.ne_of_gt h
    simp [other, node?_eq_none (Nat.le_refl t.size)]
  · simp only [last, if_false, adopt, node?, Array.getElem?_modify]
    by_cases same : p = i
    · subst same
      have found : t.nodes[p]? = some t.nodes[p] := Array.getElem?_eq_getElem h
      simp [found]
    · have other : i ≠ p := fun e => same e.symm
      simp [same, other]

/-- A new node stands behind the others, and these stay what they are beside their relatives. -/
theorem map_nodes_push {α : Type} {f : Node → α}
    (blind : ∀ n children parent?, f { n with children, parent? } = f n) (t : Tree) (n : Node)
    (parent? : Option NodeId) :
    (t.push n parent?).nodes.toList.map f = t.nodes.toList.map f ++ [f n] := by
  have adopted : (t.adopt (parent?.filter fun p => decide (p < t.size))).toList.map f =
      t.nodes.toList.map f := by
    unfold adopt
    split
    · rfl
    · refine List.ext_getElem? fun i => ?_
      rw [List.getElem?_map, List.getElem?_map, Array.getElem?_toList, Array.getElem?_toList,
        Array.getElem?_modify]
      split
      · rw [Option.map_map]
        exact congrArg (Option.map · _) (funext fun m => blind m _ _)
      · rfl
  rw [push, Array.toList_push, List.map_append, adopted, List.map_singleton, blind]

theorem Rooted.push {t : Tree} (r : t.Rooted) (n : Node) {p : NodeId} (h : p < t.size) :
    (t.push n (some p)).Rooted where
  parent_of_child := by
    intro i c member
    rw [children_push t n h] at member
    rw [parent?_push t n h]
    split at member
    -- the parent has its old children and the new node
    · next same =>
      subst same
      rcases List.mem_append.1 member with old | new
      · rw [if_neg (Nat.ne_of_lt (lt_of_mem_children old).2), r.parent_of_child old]
      · rw [if_pos (List.mem_singleton.1 new)]
    · rw [if_neg (Nat.ne_of_lt (lt_of_mem_children member).2), r.parent_of_child member]
  child_of_parent := by
    intro i q found
    rw [parent?_push t n h] at found
    rw [children_push t n h]
    split at found
    · next last =>
      obtain rfl := Option.some.inj found
      simp [last]
    · have old := r.child_of_parent found
      split
      · next same => exact List.mem_append_left _ (same ▸ old)
      · exact old
  root_of_orphan := by
    intro i bound orphan
    rw [parent?_push t n h] at orphan
    split at orphan
    · cases orphan
    · next other =>
      rw [size_push] at bound
      exact r.root_of_orphan (Nat.lt_of_le_of_ne (Nat.le_of_lt_succ bound) other) orphan

theorem Rooted.first {t : Tree} (h : t.size = 0) (n : Node) : (t.push n none).Rooted where
  parent_of_child := by
    intro i c member
    obtain ⟨above, bound⟩ := lt_of_mem_children member
    rw [size_push, h] at bound
    exact absurd (Nat.lt_of_lt_of_le above (Nat.le_of_lt_succ bound)) (Nat.not_lt_zero i)
  child_of_parent := by
    intro i p found
    have bound := lt_of_parent?_eq_some found
    rw [size_push, h] at bound
    have above : p < 0 := Nat.lt_of_lt_of_le (lt_of_parent? found) (Nat.le_of_lt_succ bound)
    exact absurd above (Nat.not_lt_zero p)
  root_of_orphan := by
    intro i bound _
    rw [size_push, h] at bound
    exact Nat.lt_one_iff.1 bound

end Tree

namespace Draft

open Markup

variable {d d' : Draft}

theorem readAttribute_tree {element : String} {n m : Node} {a : Markup.Attribute}
    (ended : Ends (readAttribute element n a) d m d') : d'.tree = d.tree := by
  unfold readAttribute at ended
  -- a way of reading ends well only where it goes on with the draft or notes an attribute
  split at ended
  · split at ended
    · split at ended
      · simp only [Ends.bind_iff, Ends.modify_iff, Ends.pure_iff] at ended
        obtain ⟨-, -, rfl, -, rfl⟩ := ended
        rfl
      · exact absurd ended Ends.not_throw
    · split at ended
      · rw [(Ends.pure_iff.1 ended).2]
      · exact absurd ended Ends.not_throw
  · split at ended
    · exact absurd ended Ends.not_throw
    · rw [(Ends.pure_iff.1 ended).2]
  · rw [(Ends.pure_iff.1 ended).2]
  · simp only [Ends.bind_iff, Ends.modify_iff, Ends.pure_iff] at ended
    obtain ⟨-, -, rfl, -, rfl⟩ := ended
    rfl

theorem readAttributes_tree {element : String} {attributes : List Markup.Attribute} {n m : Node}
    (ended : Ends (attributes.foldlM (readAttribute element) n) d m d') : d'.tree = d.tree := by
  induction attributes generalizing d n with
  | nil => rw [(Ends.pure_iff.1 ended).2]
  | cons a rest ih =>
    obtain ⟨k, e, first, later⟩ := Ends.bind_iff.1 ended
    rw [ih later, readAttribute_tree first]

theorem readNode_tree {e : Element} {n : Node} (ended : Ends (readNode e) d n d') :
    d'.tree = d.tree := by
  unfold readNode at ended
  split at ended
  · exact absurd ended Ends.not_throw
  · obtain ⟨m, c, attributes, rest⟩ := Ends.bind_iff.1 ended
    dsimp only at rest
    split at rest
    · exact absurd rest Ends.not_throw
    · rw [(Ends.pure_iff.1 rest).2, readAttributes_tree attributes]

/-- Where the next node may stand: below a node that is in the tree, or first. -/
def Fits (t : Tree) (parent? : Option NodeId) : Prop :=
  match parent? with
  | some p => p < t.size
  | none => t.size = 0

theorem pushNode_rooted {n : Node} {parent? : Option NodeId} {id : NodeId}
    (ended : Ends (pushNode n parent?) d id d') (fits : Fits d.tree parent?) (r : d.tree.Rooted) :
    d'.tree.Rooted ∧ id = d.tree.size ∧ d'.tree.size = d.tree.size + 1 := by
  obtain ⟨rfl, rfl⟩ := Prod.mk.inj (Ends.modifyGet_iff.1 ended)
  refine ⟨?_, rfl, Tree.size_push ..⟩
  cases parent? with
  | none => exact .first fits n
  | some p => exact r.push n fits

mutual

theorem readElement_rooted : (e : Element) → (parent? : Option NodeId) → (d d' : Draft) →
    Ends (readElement parent? e) d () d' → Fits d.tree parent? → d.tree.Rooted →
    d'.tree.Rooted ∧ d.tree.size ≤ d'.tree.size
  | .mk name attributes children span, parent?, d, d', ended, fits, r => by
    simp only [readElement, Ends.bind_iff] at ended
    obtain ⟨n, b, node, id, c, pushed, below⟩ := ended
    have same := readNode_tree node
    obtain ⟨rooted, rfl, size⟩ := pushNode_rooted pushed (same ▸ fits) (same ▸ r)
    obtain ⟨rooted, grown⟩ := readContents_rooted children _ c d' below
      (by rw [size]; exact Nat.lt_succ_self _) rooted
    refine ⟨rooted, ?_⟩
    rw [← same]
    exact Nat.le_trans (Nat.le_of_lt (by rw [size]; exact Nat.lt_succ_self _)) grown

theorem readContents_rooted : (cs : List Content) → (p : NodeId) → (d d' : Draft) →
    Ends (readContents p cs) d () d' → p < d.tree.size → d.tree.Rooted →
    d'.tree.Rooted ∧ d.tree.size ≤ d'.tree.size
  | [], p, d, d', ended, _, r => by
    rw [readContents, Ends.pure_iff] at ended
    obtain ⟨-, rfl⟩ := ended
    exact ⟨r, Nat.le_refl _⟩
  | c :: rest, p, d, d', ended, bound, r => by
    simp only [readContents, Ends.bind_iff] at ended
    obtain ⟨_, b, first, later⟩ := ended
    obtain ⟨rooted, grown⟩ := readContent_rooted c p d b first bound r
    obtain ⟨rooted, grown'⟩ := readContents_rooted rest p b d' later
      (Nat.lt_of_lt_of_le bound grown) rooted
    exact ⟨rooted, Nat.le_trans grown grown'⟩

theorem readContent_rooted : (c : Content) → (p : NodeId) → (d d' : Draft) →
    Ends (readContent p c) d () d' → p < d.tree.size → d.tree.Rooted →
    d'.tree.Rooted ∧ d.tree.size ≤ d'.tree.size
  | .element e, p, d, d', ended, bound, r => by
    rw [readContent] at ended
    exact readElement_rooted e (some p) d d' ended bound r
  | .text _ _, p, d, d', ended, _, r => by
    rw [readContent, Ends.pure_iff] at ended
    obtain ⟨-, rfl⟩ := ended
    exact ⟨r, Nat.le_refl _⟩

end

theorem ofDocument_rooted {root : Element} (read : ofDocument root = (.ok (), d)) :
    d.tree.Rooted := by
  have ended : Ends (readRoot root) {} () d := read
  unfold readRoot at ended
  split at ended
  · refine (readElement_rooted root none {} d ended rfl ?_).1
    exact ⟨fun member => by simp [Tree.children, Tree.node?, Tree.empty] at member,
      fun found => by simp [Tree.parent?, Tree.node?, Tree.empty] at found,
      fun bound => absurd bound (Nat.not_lt_zero _)⟩
  · exact absurd ended Ends.not_throw

end Draft

end Barrage
