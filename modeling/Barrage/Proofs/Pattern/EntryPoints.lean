import Barrage.Pattern.Basic
import Barrage.Proofs.Pattern.Linking
import Barrage.Proofs.Pattern.Preorder

/-!
Where patterns are entered. A search from the root of a document finds an action with a label if
there is one, so the entry points are those that the actions of the document call for.
-/

set_option autoImplicit false

namespace Barrage

/-! ## Searching for a label -/

namespace Tree

variable {t : Tree} {label : String} {kind : Kind} {i c p : NodeId}

theorem findLabel?_of_child (inside : c ∈ t.children p)
    (found : t.isLabelled label kind c ∨ (t.findLabel? label kind c).isSome) :
    (t.findLabel? label kind p).isSome := by
  rw [findLabel?]
  split
  · rfl
  · next noChild =>
    have below := found.resolve_left (List.find?_eq_none.1 noChild c inside)
    obtain ⟨above, member, rfl⟩ := List.mem_map.1 (t.childrenAbove_map_val p ▸ inside)
    exact List.findSome?_isSome_iff.2 ⟨above, member, below⟩

theorem findLabel?_of_deeper (r : t.Rooted) (i : NodeId) (inside : i < t.size)
    (found : (t.findLabel? label kind i).isSome) : (t.findLabel? label kind root).isSome := by
  cases above : t.parent? i with
  | none => exact r.root_of_orphan inside above ▸ found
  | some p =>
    have lower := lt_of_parent? above
    exact findLabel?_of_deeper r p (Nat.lt_trans lower inside)
      (findLabel?_of_child (r.child_of_parent above) (.inr found))
termination_by i

theorem findLabel?_complete (r : t.Rooted) (labelled : t.isLabelled label kind i)
    (other : i ≠ root) : (t.findLabel? label kind root).isSome := by
  have inside : i < t.size := by
    unfold isLabelled at labelled
    split at labelled
    · next n atNode => exact lt_size_of_node? atNode
    · cases labelled
  cases above : t.parent? i with
  | none => exact absurd (r.root_of_orphan inside above) other
  | some p =>
    exact findLabel?_of_deeper r p (Nat.lt_trans (lt_of_parent? above) inside)
      (findLabel?_of_child (r.child_of_parent above) (.inl labelled))

end Tree

/-! ## Entry points -/

theorem forall₂_filterMap {α β : Type} {P : α → β → Prop} {f : α → Option β}
    (sound : ∀ {a b}, f a = some b → P a b) (as : List α) :
    List.Forall₂ P (as.filter fun a => (f a).isSome) (as.filterMap f) := by
  induction as with
  | nil => exact .nil
  | cons a as ih =>
    cases found : f a with
    | none => simpa [found] using ih
    | some b => simpa [found] using ⟨sound found, ih⟩

namespace Pattern

/-- Where a pattern is entered whose actions have certain labels: at one labelled `top`, or else at
one for each number that is a label, in the order of the numbers. -/
structure Entries (labelled : String → NodeId → Prop) (entries : List NodeId) : Prop where
  eq_nil_iff : entries = [] ↔ ∀ label ∈ topLabel :: numberedLabels, ∀ i, ¬ labelled label i
  top : (∃ i, labelled topLabel i) → ∃ i, entries = [i] ∧ labelled topLabel i
  numbered : (∀ i, ¬ labelled topLabel i) → ∃ labels : List String,
    labels.Sublist numberedLabels ∧
      (∀ label ∈ numberedLabels, label ∈ labels ↔ ∃ i, labelled label i) ∧
      List.Forall₂ labelled labels entries ∧ entries.Nodup

example : numberedLabels =
    ["top1", "top2", "top3", "top4", "top5", "top6", "top7", "top8", "top9"] := by decide

variable {p : Pattern}

theorem entries_of_search {labelled : String → NodeId → Prop}
    (sound : ∀ {label i}, p.actionLabelled? label = some i → labelled label i)
    (complete : ∀ {label i}, labelled label i → (p.actionLabelled? label).isSome)
    (unique : ∀ {label label' i}, labelled label i → labelled label' i → label = label') :
    Entries labelled p.entryPoints := by
  have exists_iff : ∀ label, (p.actionLabelled? label).isSome ↔ ∃ i, labelled label i := by
    intro label
    constructor
    · intro found
      obtain ⟨i, found⟩ := Option.isSome_iff_exists.1 found
      exact ⟨i, sound found⟩
    · rintro ⟨i, there⟩
      exact complete there
  unfold entryPoints
  cases first : p.actionLabelled? topLabel with
  | some i =>
    refine ⟨?_, fun _ => ⟨i, rfl, sound first⟩, fun nowhere => absurd (sound first) (nowhere i)⟩
    exact iff_of_false nofun fun nowhere => nowhere _ List.mem_cons_self i (sound first)
  | none =>
    have noTop : ¬ ∃ i, labelled topLabel i := by
      rw [← exists_iff, first]
      exact nofun
    refine ⟨?_, fun there => absurd there noTop, fun _ => ⟨_, List.filter_sublist,
      fun label member => ?_, forall₂_filterMap sound _, ?_⟩⟩
    · rw [List.filterMap_eq_nil_iff, List.forall_mem_cons, and_iff_right (not_exists.1 noTop)]
      refine forall₂_congr fun label _ => ?_
      rw [← Option.not_isSome_iff_eq_none, exists_iff, not_exists]
    · rw [List.mem_filter, exists_iff]
      exact and_iff_right member
    · refine List.Nodup.filterMap ?_ (by decide)
      intro label label' i found found'
      exact unique (sound found) (sound found')

end Pattern

/-! ## Actions of documents -/

open Markup

def Markup.Element.HasAction (root : Element) (label : String) (i : Nat) : Prop :=
  ∃ e, root.elements[i]? = some e ∧ e.name = Kind.action.name ∧
    said? e.attributes "label" = some label

namespace Draft

variable {root : Element} {d : Draft} {label : String} {i : Nat}

theorem node?_of_element (read : ofDocument root = (.ok (), d)) {e : Element}
    (found : root.elements[i]? = some e) : ∃ n, d.tree.node? i = some n ∧ n.Matches e := by
  obtain ⟨length, each⟩ := List.forall₂_iff_get.1 (matches_ofDocument read)
  obtain ⟨bound, rfl⟩ := List.getElem?_eq_some_iff.1 found
  have inside : i < d.tree.nodes.toList.length := length ▸ bound
  exact ⟨_, Array.getElem?_eq_getElem inside, each i inside bound⟩

theorem element_of_node? (read : ofDocument root = (.ok (), d)) {n : Node}
    (found : d.tree.node? i = some n) : ∃ e, root.elements[i]? = some e ∧ n.Matches e := by
  obtain ⟨length, each⟩ := List.forall₂_iff_get.1 (matches_ofDocument read)
  obtain ⟨inside, rfl⟩ := Array.getElem?_eq_some_iff.1 found
  have bound : i < root.elements.length := length ▸ inside
  exact ⟨_, List.getElem?_eq_getElem bound, each i inside bound⟩

theorem isLabelled_iff (read : ofDocument root = (.ok (), d)) :
    d.tree.isLabelled label .action i ↔ root.HasAction label i := by
  constructor
  · intro labelled
    unfold Tree.isLabelled at labelled
    split at labelled
    · next n atNode =>
      obtain ⟨kind, named⟩ : n.kind = .action ∧ n.label? = some label := by
        simpa [Node.hasLabel] using labelled
      obtain ⟨e, atPlace, same⟩ := element_of_node? read atNode
      exact ⟨e, atPlace, kind ▸ (Kind.name_of_ofName? same.kind).symm, same.label ▸ named⟩
    · cases labelled
  · rintro ⟨e, atPlace, name, said⟩
    obtain ⟨n, atNode, same⟩ := node?_of_element read atPlace
    have kind : n.kind = .action := by
      have found := same.kind
      rw [name, Kind.ofName?_name] at found
      exact (Option.some.inj found).symm
    simp [Tree.isLabelled, atNode, Node.hasLabel, kind, same.label, said]

theorem ne_root_of_hasAction (read : ofDocument root = (.ok (), d))
    (action : root.HasAction label i) : i ≠ Tree.root := by
  rintro rfl
  obtain ⟨e, atPlace, name, -⟩ := action
  have first : root.elements[Tree.root]? = some root := by
    rw [Element.elements_eq]
    rfl
  obtain rfl := Option.some.inj (first.symm.trans atPlace)
  rw [(along_alone.ofDocument read).1] at name
  exact absurd name (by decide)

/-- The entry points of a pattern are those that the actions of its document call for. -/
theorem entries_of_document (read : ofDocument root = (.ok (), d)) {p : Pattern}
    (tree : p.tree = d.tree) : Pattern.Entries root.HasAction p.entryPoints := by
  have rooted := ofDocument_rooted read
  refine Pattern.entries_of_search ?_ ?_ ?_
  · intro label i found
    rw [Pattern.actionLabelled?, tree] at found
    exact (isLabelled_iff read).1 (Tree.isLabelled_of_findLabel? found)
  · intro label i action
    rw [Pattern.actionLabelled?, tree]
    exact Tree.findLabel?_complete rooted ((isLabelled_iff read).2 action)
      (ne_root_of_hasAction read action)
  · rintro label label' i ⟨e, atPlace, -, said⟩ ⟨e', atPlace', -, said'⟩
    obtain rfl := Option.some.inj (atPlace.symm.trans atPlace')
    exact Option.some.inj (said.symm.trans said')

end Draft

end Barrage
