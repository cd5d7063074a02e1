import Barrage.Proofs.Pattern.ChosenBullet
import Barrage.Task.Build

/-!
Patterns whose references can be followed. Each reference is linked to a node of the kind that it
refers to, and that node may hold references in turn, so references are nested in each other; a
pattern that refers to itself nests them without end. Every loaded pattern is linked in this way,
but for references inside a fire reference.
-/

set_option autoImplicit false

namespace Barrage

/-! ## Linked patterns -/

/-- Each reference is linked to a node of the kind that it refers to. -/
def Pattern.Linked (p : Pattern) : Prop :=
  ∀ i kind referenced, p.tree.kind? i = some kind → kind.referenced? = some referenced →
    ∃ target, p.target? i = some target ∧ p.tree.kind? target = some referenced

/-- Each action that is linked to a repeat is linked to a node of the tree. -/
def Pattern.Surrounded (p : Pattern) : Prop :=
  ∀ i around, p.repeat? i = some around → around < p.tree.size

/-- Every reference that is linked at all is linked to a node of the tree. -/
def Pattern.Within (p : Pattern) : Prop :=
  ∀ r target, p.target? r = some target → target < p.tree.size

theorem Pattern.Linked.target {p : Pattern} (linked : p.Linked) {i : NodeId} {kind : Kind}
    (found : p.tree.kind? i = some kind) (refers : kind.isReference) :
    ∃ target, p.target? i = some target ∧ target < p.tree.size := by
  obtain ⟨referenced, same⟩ := Option.isSome_iff_exists.1 refers
  obtain ⟨target, leads, ofKind⟩ := linked _ _ _ found same
  exact ⟨target, leads, Tree.lt_size_of_kind? ofKind⟩

/-- Actions are linked to no other repeat than the one directly around them. -/
def Links.Around (t : Tree) (l : Links) : Prop :=
  ∀ i around, l.repeat? i = some around → t.parent? i = some around

theorem Links.kept_around (t : Tree) : t.Kept (Links.Around t) where
  setRepeat := by
    intro l i p above holds k around linked
    rcases link_update _ linked with ⟨row, rfl, -, set⟩ | before
    · obtain rfl := Option.some.inj set
      exact above
    · exact holds k around before
  setTarget := by
    intro l i target _ holds k around linked
    have same := link_update_eq (l := l) (i := i) (·.repeat?)
      (f := fun row => { row with target? := some target }) (fun _ => rfl) k
    exact holds k around (same.symm.trans linked)
  setBullet := by
    intro l i bullet _ holds k around linked
    have same := link_update_eq (l := l) (i := i) (·.repeat?)
      (f := fun row => { row with bullet? := some bullet }) (fun _ => rfl) k
    exact holds k around (same.symm.trans linked)

namespace Load

variable {s : LoaderSettings} {j j' : Journal} {source : String} {p : Pattern}

/-- In a loaded pattern an action is linked to no other repeat than the one directly around it. -/
theorem around_of_pattern (loaded : Ends (pattern s source) j p j') : p.links.Around p.tree := by
  obtain ⟨-, w, walked, same⟩ := parts_of_pattern loaded
  rw [← same]
  refine (Links.kept_around p.tree).validateNode Tree.root { links := .blank p.tree.size } w ?_
    walked
  intro i around linked
  obtain ⟨row, atRow, set⟩ := Option.bind_eq_some_iff.1 linked
  rw [Links.at?, Links.blank, Array.getElem?_replicate] at atRow
  split at atRow
  · cases atRow
    cases set
  · cases atRow

theorem linked_of_pattern (loaded : Ends (pattern s source) j p j')
    (outside : ∀ i kind, p.tree.kind? i = some kind → kind.isReference →
      p.tree.findParent? .fireRef i = none) : p.Linked := by
  intro i kind referenced found refers
  obtain ⟨n, atNode, rfl⟩ := Option.map_eq_some_iff.1 found
  have isReference : n.kind.isReference := by rw [Kind.isReference, refers]; rfl
  obtain ⟨target, linked, n', m, named, label, atNode', atTarget, refers', same,
    -⟩ := ((pattern_links loaded atNode).1 (outside i _ found isReference)).1 isReference
  obtain rfl := Option.some.inj (atNode.symm.trans atNode')
  refine ⟨target, linked, ?_⟩
  rw [Tree.kind?, atTarget, Option.map_some, same]
  exact refers'.symm.trans refers

/-- Links of a loaded pattern lead to nodes, also where references are not linked at all. -/
theorem within_of_pattern (loaded : Ends (pattern s source) j p j') (nonempty : 0 < p.tree.size) :
    p.Within := by
  obtain ⟨-, w, walked, same⟩ := parts_of_pattern loaded
  have blank := Tree.sound_blank p.tree p.tree.size
  obtain ⟨grows, -⟩ := Tree.settles_validateNode p.tree Tree.root nonempty
    { links := .blank p.tree.size } w Array.size_replicate blank walked
  rw [same] at grows
  intro r target linked
  obtain ⟨n, m, kind, label, -, atTarget, -⟩ := (grows.sound blank).target linked
  exact Tree.lt_size_of_node? atTarget

theorem surrounded_of_pattern (loaded : Ends (pattern s source) j p j') : p.Surrounded := by
  intro i around linked
  have above := around_of_pattern loaded i around linked
  obtain ⟨n, atNode, -⟩ := Option.bind_eq_some_iff.1 above
  exact Nat.lt_trans (Tree.lt_of_parent? above) (Tree.lt_size_of_node? atNode)

end Load

/-! ## Nested references -/

/-- A node makes a task below another one without any reference being followed: it is a child, or
below a child that is an action or a repeat. -/
inductive Tree.Unfolds (t : Tree) : NodeId → NodeId → Prop where
  | child {i c : NodeId} (inside : c ∈ t.children i) : Unfolds t i c
  | block {i b c : NodeId} (inside : b ∈ t.children i)
      (ofKind : t.kind? b = some .action ∨ t.kind? b = some .repeat) (deeper : Unfolds t b c) :
      Unfolds t i c

/-- A chain of nested action references: the first is below a node, and each other one below the
action that the one before it leads to. -/
inductive Pattern.Nested (p : Pattern) : NodeId → List NodeId → Prop where
  | nil (i : NodeId) : Nested p i []
  | cons {i r target : NodeId} {chain : List NodeId} (below : p.tree.Unfolds i r)
      (refers : p.tree.kind? r = some .actionRef) (linked : p.target? r = some target)
      (deeper : Nested p target chain) : Nested p i (r :: chain)

theorem Pattern.Nested.outward {p : Pattern} {i b : NodeId} {chain : List NodeId}
    (nested : p.Nested b chain) (inside : b ∈ p.tree.children i)
    (ofKind : p.tree.kind? b = some .action ∨ p.tree.kind? b = some .repeat) :
    p.Nested i chain := by
  cases nested with
  | nil => exact .nil i
  | cons below refers linked deeper => exact .cons (.block inside ofKind below) refers linked deeper

/-! ## Patterns with further nodes -/

/-- A tree has all nodes of another one, and perhaps further ones behind them. -/
def Tree.Extended (t t' : Tree) : Prop := ∀ i, i < t.size → t'.node? i = t.node? i

/-- A pattern has all nodes and links of another one, and perhaps further ones. -/
structure Pattern.Extended (p p' : Pattern) : Prop where
  tree : p.tree.Extended p'.tree
  links : ∀ i, i < p.tree.size → p'.links.at? i = p.links.at? i

namespace Tree.Extended

variable {t t' : Tree} {i : NodeId}

theorem kind? (extended : t.Extended t') (inside : i < t.size) : t'.kind? i = t.kind? i := by
  rw [Tree.kind?, extended i inside]
  rfl

theorem children (extended : t.Extended t') (inside : i < t.size) :
    t'.children i = t.children i := by
  rw [Tree.children, extended i inside]
  rfl

theorem expression (extended : t.Extended t') (inside : i < t.size) :
    t'.expression i = t.expression i := by
  rw [Tree.expression, extended i inside]
  rfl

theorem policy (extended : t.Extended t') (inside : i < t.size) : t'.policy i = t.policy i := by
  rw [Tree.policy, extended i inside]
  rfl

theorem childrenOfKind (extended : t.Extended t') (inside : i < t.size) (kind : Kind) :
    t'.childrenOfKind i kind = t.childrenOfKind i kind := by
  rw [Tree.childrenOfKind, Tree.childrenOfKind, extended.children inside]
  refine List.filter_congr fun c child => ?_
  rw [Tree.hasKind, extended.kind? (lt_of_mem_children child).2]
  rfl

theorem child? (extended : t.Extended t') (inside : i < t.size) (kind : Kind) :
    t'.child? i kind = t.child? i kind := by
  rw [Tree.child?, Tree.child?, ← List.head?_filter, ← List.head?_filter]
  exact congrArg List.head? (extended.childrenOfKind inside kind)

theorem lt_size_of_child? {kind : Kind} {c : NodeId} (found : t.child? i kind = some c) :
    c < t.size :=
  (lt_of_mem_children (List.mem_of_find?_eq_some found)).2

theorem wanted? (extended : t.Extended t') (inside : i < t.size) (kind : Kind) :
    t'.wanted? i kind = t.wanted? i kind := by
  rw [Tree.wanted?, Tree.wanted?, extended.child? inside]
  refine Option.map_congr fun c found => ?_
  have within := lt_size_of_child? found
  rw [extended.policy within, extended.expression within]

theorem childExpression? (extended : t.Extended t') (inside : i < t.size) (kind : Kind) :
    t'.childExpression? i kind = t.childExpression? i kind := by
  rw [Tree.childExpression?, Tree.childExpression?, extended.child? inside]
  exact Option.map_congr fun c found => extended.expression (lt_size_of_child? found)

theorem simpleWork? (extended : t.Extended t') (inside : i < t.size) :
    t'.simpleWork? i = t.simpleWork? i := by
  unfold Tree.simpleWork?
  simp only [extended.kind? inside, extended.expression inside, extended.wanted? inside,
    extended.childExpression? inside]

theorem shotRule (extended : t.Extended t') (inside : i < t.size) {bullet? : Option NodeId}
    (within : ∀ b ∈ bullet?, b < t.size) (kind : Kind) :
    t'.shotRule kind i bullet? = t.shotRule kind i bullet? := by
  have bullets : (bullet?.bind fun b => t'.wanted? b kind) = bullet?.bind fun b =>
      t.wanted? b kind := by
    cases bullet? with
    | none => rfl
    | some b => exact extended.wanted? (within b rfl) kind
  unfold Tree.shotRule
  rw [extended.wanted? inside, bullets]

end Tree.Extended

namespace Pattern.Extended

variable {p p' : Pattern} {i : NodeId}

theorem target? (extended : p.Extended p') (inside : i < p.tree.size) :
    p'.target? i = p.target? i := by
  rw [Pattern.target?, Links.target?, extended.links i inside]
  rfl

theorem repeat? (extended : p.Extended p') (inside : i < p.tree.size) :
    p'.repeat? i = p.repeat? i := by
  rw [Pattern.repeat?, Links.repeat?, extended.links i inside]
  rfl

end Pattern.Extended

end Barrage
