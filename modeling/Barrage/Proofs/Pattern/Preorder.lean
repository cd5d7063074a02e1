import Barrage.Proofs.Markup.StartTags
import Barrage.Proofs.Pattern.Facing
import Mathlib.Algebra.GroupWithZero.Nat

/-!
The nodes of a pattern are the elements of its document in document order. Each node has what the
element at its place says, and its children stand at the places of the element's own. So parents
come before their children, each node but the first is the child of exactly one other, and whoever
walks up or down the tree comes to an end.
-/

set_option autoImplicit false

namespace Barrage

open Markup

/-! ## What a node says -/

namespace Markup

def said? (attributes : List Attribute) (name : String) : Option String :=
  (attributes.filter fun a => a.name = name).getLast?.map (·.value)

theorem said?_append (front back : List Attribute) (name : String) :
    said? (front ++ back) name = (said? back name).or (said? front name) := by
  rw [said?, List.filter_append, List.getLast?_append, Option.map_or]
  rfl

theorem said?_eq_attribute? {e : Element} (distinct : (e.attributes.map (·.name)).Nodup)
    (name : String) : said? e.attributes name = e.attribute? name := by
  rw [said?, Element.filter_name_eq_find? distinct, Element.attribute?]
  cases e.attributes.find? fun a => a.name = name <;> rfl

end Markup

structure Node.Told (attributes : List Attribute) (n m : Node) : Prop where
  kind : m.kind = n.kind
  span : m.span = n.span
  label : m.label? = (said? attributes "label").or n.label?
  name : m.name? = (said? attributes "name").or n.name?
  named : n.kind ≠ .bulletml → ∀ a ∈ attributes, a.name = "type" →
    (Policy.ofAttribute? a.value).isSome
  policy : m.policy = if n.kind = .bulletml then n.policy
    else ((said? attributes "type").bind Policy.ofAttribute?).getD n.policy

namespace Node.Told

variable {front back : List Attribute} {n m k : Node}

theorem nil (n : Node) : Told [] n n where
  kind := rfl
  span := rfl
  label := rfl
  name := rfl
  named _ _ inside := nomatch inside
  policy := (ite_self _).symm

theorem append (first : Told front n m) (next : Told back m k) : Told (front ++ back) n k where
  kind := next.kind.trans first.kind
  span := next.span.trans first.span
  label := by rw [next.label, first.label, said?_append, Option.or_assoc]
  name := by rw [next.name, first.name, said?_append, Option.or_assoc]
  named other a inside := by
    rcases List.mem_append.1 inside with before | behind
    · exact first.named other a before
    · exact next.named (first.kind ▸ other) a behind
  policy := by
    rw [next.policy, first.policy, first.kind, said?_append]
    split
    · rfl
    · next other =>
      cases last : said? back "type" with
      | none => rfl
      | some v =>
        obtain ⟨a, found, rfl⟩ := Option.map_eq_some_iff.1 last
        obtain ⟨inside, isType⟩ := List.mem_filter.1 (List.mem_of_getLast? found)
        -- a type that is stated later replaces an earlier one, as it names a policy too
        have named := next.named (first.kind ▸ other) a inside (of_decide_eq_true isType)
        obtain ⟨p, reads⟩ := Option.isSome_iff_exists.1 named
        simp [reads]

end Node.Told

namespace Draft

variable {d d' : Draft} {n m : Node}

theorem readAttribute_told {element : String} {a : Markup.Attribute}
    (ended : Ends (readAttribute element n a) d m d') : Node.Told [a] n m := by
  have said : ∀ name, said? [a] name = if a.name = name then some a.value else none := by
    intro name
    rw [said?, List.filter_singleton]
    split <;> simp_all
  unfold readAttribute at ended
  split at ended
  · next isType =>
    split at ended
    · next root =>
      split at ended
      · simp only [Ends.bind_iff, Ends.modify_iff, Ends.pure_iff] at ended
        obtain ⟨-, -, -, rfl, -⟩ := ended
        constructor <;> simp [said, isType, root]
      · exact absurd ended Ends.not_throw
    · next other =>
      split at ended
      · next policy named =>
        obtain ⟨rfl, -⟩ := Ends.pure_iff.1 ended
        constructor <;> simp [said, isType, other, named]
      · exact absurd ended Ends.not_throw
  · next isLabel =>
    split at ended
    · exact absurd ended Ends.not_throw
    · obtain ⟨rfl, -⟩ := Ends.pure_iff.1 ended
      constructor <;> simp [said, isLabel]
  · next isName =>
    obtain ⟨rfl, -⟩ := Ends.pure_iff.1 ended
    constructor <;> simp [said, isName]
  · next notType notLabel notName =>
    simp only [Ends.bind_iff, Ends.modify_iff, Ends.pure_iff] at ended
    obtain ⟨-, -, -, rfl, -⟩ := ended
    constructor <;> simp [said, if_neg notType, if_neg notLabel, if_neg notName]
    exact fun _ isType => (notType isType).elim

theorem readAttributes_told {element : String} {attributes : List Markup.Attribute}
    (ended : Ends (attributes.foldlM (readAttribute element) n) d m d') :
    Node.Told attributes n m := by
  induction attributes generalizing d n with
  | nil =>
    obtain ⟨rfl, -⟩ := Ends.pure_iff.1 ended
    exact .nil _
  | cons a rest ih =>
    obtain ⟨k, b, first, later⟩ := Ends.bind_iff.1 ended
    exact (readAttribute_told first).append (ih later)

end Draft

/-- How values of a kind are meant where one type is stated: a field's in no way, a direction's at
the target unless it is absolute, relative or in sequence. -/
def Kind.meant (kind : Kind) (stated : Policy) : Policy :=
  if kind = .bulletml then .none
  else if kind = .direction ∧ stated ∉ [.absolute, .relative, .sequence] then .aim
  else stated

/-- A node has what an element says: its kind, what it is called, how its value is meant and what
the value is. -/
structure Node.Matches (n : Node) (e : Element) : Prop where
  kind : Kind.ofName? e.name = some n.kind
  label : n.label? = said? e.attributes "label"
  name : n.name? = said? e.attributes "name"
  named : n.kind ≠ .bulletml → ∀ a ∈ e.attributes, a.name = "type" →
    (Policy.ofAttribute? a.value).isSome
  policy : n.policy =
    n.kind.meant (((said? e.attributes "type").bind Policy.ofAttribute?).getD .none)
  expression : Expression.parse e.text = .ok n.expression
  span : n.span = e.span

namespace Draft

variable {d d' : Draft}

theorem readNode_matches {e : Element} {n : Node} (ended : Ends (readNode e) d n d') :
    n.Matches e := by
  unfold readNode at ended
  split at ended
  · exact absurd ended Ends.not_throw
  · next kind found =>
    obtain ⟨m, c, attributes, rest⟩ := Ends.bind_iff.1 ended
    obtain ⟨sameKind, span, label, name, named, policy⟩ := readAttributes_told attributes
    dsimp only at rest sameKind span label name named policy
    split at rest
    · exact absurd rest Ends.not_throw
    · next compiled =>
      obtain ⟨rfl, -⟩ := Ends.pure_iff.1 rest
      rw [Option.or_none] at label name
      refine ⟨sameKind ▸ found, label, name, fun other => named (sameKind ▸ other), ?_, compiled,
        span⟩
      dsimp only
      rw [policy, Kind.meant, sameKind]
      by_cases field : kind = .bulletml
      · rw [if_pos field, if_pos field, if_neg (by rw [field]; decide)]
      · rw [if_neg field, if_neg field]
        generalize ((said? e.attributes "type").bind Policy.ofAttribute?).getD .none = stated
        by_cases direction : kind = .direction
        · cases stated <;> simp [direction, Policy.forDirection]
        · rw [if_neg direction, if_neg fun both => direction both.1]

end Draft

/-! ## One node for each element -/

namespace Tree

/-- The nodes in document order, without their parents and children. -/
def alone (t : Tree) : List Node :=
  t.nodes.toList.map fun n => { n with children := [], parent? := none }

theorem alone_push (t : Tree) (n : Node) (parent? : Option NodeId) :
    (t.push n parent?).alone = t.alone ++ [{ n with children := [], parent? := none }] :=
  map_nodes_push (fun _ _ _ => rfl) t n parent?

end Tree

namespace Draft

theorem along_alone : Along fun es d d' => ∃ more,
    d'.tree.alone = d.tree.alone ++ more ∧ List.Forall₂ Node.Matches more es where
  start _ := ⟨[], (List.append_nil _).symm, .nil⟩
  more := by
    rintro es more d d' d'' ⟨first, grown, alike⟩ ⟨next, grownMore, alikeMore⟩
    refine ⟨first ++ next, ?_, List.rel_append alike alikeMore⟩
    rw [grownMore, grown, List.append_assoc]
  single := by
    intro e n d b d' parent? id node pushed
    obtain ⟨-, rfl⟩ := Prod.mk.inj (Ends.modifyGet_iff.1 pushed)
    obtain ⟨kind, label, name, named, policy, expression, span⟩ := readNode_matches node
    refine ⟨[{ n with children := [], parent? := none }], ?_,
      .cons ⟨kind, label, name, named, policy, expression, span⟩ .nil⟩
    rw [Tree.alone_push, readNode_tree node]

theorem matches_ofDocument {root : Element} {d : Draft} (read : ofDocument root = (.ok (), d)) :
    List.Forall₂ Node.Matches d.tree.nodes.toList root.elements := by
  obtain ⟨-, more, grown, alike⟩ := along_alone.ofDocument read
  change d.tree.alone = [] ++ more at grown
  rw [List.nil_append] at grown
  rw [← grown, Tree.alone, List.forall₂_map_left_iff] at alike
  exact alike.imp fun n e ⟨kind, label, name, named, policy, expression, span⟩ =>
    ⟨kind, label, name, named, policy, expression, span⟩

end Draft

/-! ## Places of children -/

namespace Tree

/-- The places that elements take in document order, if the first one takes a given place. -/
def placesFrom (first : NodeId) : List Element → List NodeId
  | [] => []
  | e :: rest => first :: placesFrom (first + e.size) rest

theorem placesFrom_append (first : NodeId) (es more : List Element) :
    placesFrom first (es ++ more) =
      placesFrom first es ++ placesFrom (first + (es.map Element.size).sum) more := by
  induction es generalizing first with
  | nil => rfl
  | cons e rest ih =>
    rw [List.cons_append, placesFrom, placesFrom, ih, List.map_cons, List.sum_cons,
      Nat.add_assoc, List.cons_append]

theorem children_push_none (t : Tree) (n : Node) (i : NodeId) :
    (t.push n none).children i = t.children i := by
  have found : (t.push n none).node? i =
      if i = t.size then some { n with children := [], parent? := none } else t.node? i := by
    simp only [push, node?, Option.filter_none, Array.getElem?_push, size_adopt]
    rfl
  rw [children, found, children]
  by_cases last : i = t.size
  · rw [if_pos last, last, node?_eq_none (Nat.le_refl t.size)]
  · rw [if_neg last]

theorem children_push_of_below {t : Tree} {parent? : Option NodeId}
    (below : ∀ p ∈ parent?, p < t.size) (n : Node) (i : NodeId) :
    (t.push n parent?).children i =
      if parent? = some i then t.children i ++ [t.size] else t.children i := by
  cases parent? with
  | none => exact children_push_none t n i
  | some p =>
    rw [children_push t n (below p rfl)]
    by_cases same : i = p
    · rw [if_pos same, if_pos (congrArg some same.symm), same]
    · rw [if_neg same, if_neg fun other => same (Option.some.inj other).symm]

/-- What elements that are read below a node do to a tree: each one takes a place behind the nodes
that are there, the outermost ones become children of the node, and below them each has its own
children at their places. -/
structure Grown (parent? : Option NodeId) (es outermost : List Element) (t t' : Tree) : Prop where
  number : es.length = (outermost.map Element.size).sum
  size : t'.size = t.size + es.length
  kept : ∀ i < t.size, t'.children i =
    if parent? = some i then t.children i ++ placesFrom t.size outermost else t.children i
  inside : ∀ k e, es[k]? = some e →
    t'.children (t.size + k) = placesFrom (t.size + k + 1) e.childElements

namespace Grown

variable {parent? : Option NodeId} {es more outermost others : List Element} {t t' t'' : Tree}

theorem nil (parent? : Option NodeId) (t : Tree) : Grown parent? [] [] t t where
  number := rfl
  size := rfl
  kept i _ := by rw [placesFrom, List.append_nil, ite_self]
  inside _ _ member := nomatch member

theorem append (first : Grown parent? es outermost t t')
    (next : Grown parent? more others t' t'') (below : ∀ p ∈ parent?, p < t.size) :
    Grown parent? (es ++ more) (outermost ++ others) t t'' where
  number := by
    rw [List.length_append, first.number, next.number, List.map_append, List.sum_append]
  size := by
    rw [next.size, first.size, List.length_append, Nat.add_assoc]
  kept i inside := by
    have within : i < t'.size := by
      rw [first.size]
      exact Nat.lt_add_right _ inside
    rw [next.kept i within, first.kept i inside, placesFrom_append, ← first.number, first.size]
    split
    · rw [List.append_assoc]
    · rfl
  inside k e found := by
    rw [List.getElem?_append] at found
    split at found
    · next early =>
      have within : t.size + k < t'.size := by
        rw [first.size]
        exact Nat.add_lt_add_left early _
      have other : parent? ≠ some (t.size + k) := fun same =>
        absurd (below _ same) (Nat.not_lt.2 (Nat.le_add_right _ _))
      rw [next.kept _ within, if_neg other, first.inside k e found]
    · next late =>
      have place : t.size + k = t'.size + (k - es.length) := by
        rw [first.size]
        omega
      rw [place]
      exact next.inside _ e found

theorem node {e : Element} {n : Node} (below : ∀ p ∈ parent?, p < t.size)
    (grown : Grown (some t.size) e.inner e.childElements (t.push n parent?) t') :
    Grown parent? e.elements [e] t t' where
  number := e.length_elements
  size := by
    rw [grown.size, size_push, Element.elements_eq, List.length_cons, Nat.add_assoc,
      Nat.add_comm 1]
  kept i inside := by
    have within : i < (t.push n parent?).size := by
      rw [size_push]
      exact Nat.lt_succ_of_lt inside
    have other : some t.size ≠ some i := fun same => inside.ne (Option.some.inj same).symm
    rw [grown.kept i within, if_neg other, children_push_of_below below]
    rfl
  inside k x found := by
    rw [Element.elements_eq] at found
    -- the first element is the new node itself; what is below it got its children from there
    cases k with
    | zero =>
      obtain rfl := Option.some.inj found
      have within : t.size < (t.push n parent?).size := by
        rw [size_push]
        exact Nat.lt_succ_self _
      have other : parent? ≠ some t.size := fun same => (below _ same).ne rfl
      have noChildren : t.children t.size = [] := by rw [children, node?_eq_none (Nat.le_refl _)]
      rw [Nat.add_zero, grown.kept _ within, if_pos rfl, children_push_of_below below,
        if_neg other, noChildren, size_push, List.nil_append]
    | succ k =>
      have place : t.size + (k + 1) = (t.push n parent?).size + k := by
        rw [size_push]
        omega
      rw [place]
      exact grown.inside k x found

end Grown

end Tree

namespace Draft

open Barrage.Tree (Grown placesFrom)

variable {d d' : Draft}

mutual

theorem readElement_grown : (e : Element) → (parent? : Option NodeId) → (d d' : Draft) →
    Ends (readElement parent? e) d () d' → (∀ p ∈ parent?, p < d.tree.size) →
    Grown parent? e.elements [e] d.tree d'.tree
  | .mk name attributes children span, parent?, d, d', ended, below => by
    simp only [readElement, Ends.bind_iff] at ended
    obtain ⟨n, b, node, id, c, pushed, inside⟩ := ended
    have same := readNode_tree node
    obtain ⟨rfl, rfl⟩ := Prod.mk.inj (Ends.modifyGet_iff.1 pushed)
    rw [same] at inside
    have grown := readContents_grown children d.tree.size _ d' inside (by
      dsimp only
      rw [Tree.size_push]
      exact Nat.lt_succ_self _)
    exact Grown.node below grown

theorem readContents_grown : (cs : List Content) → (p : NodeId) → (d d' : Draft) →
    Ends (readContents p cs) d () d' → p < d.tree.size →
    Grown (some p) (Element.elementsAmong cs) (cs.filterMap Content.element?) d.tree d'.tree
  | [], p, d, d', ended, _ => by
    rw [readContents, Ends.pure_iff] at ended
    obtain ⟨-, rfl⟩ := ended
    exact .nil _ _
  | c :: rest, p, d, d', ended, bound => by
    simp only [readContents, Ends.bind_iff] at ended
    obtain ⟨_, b, first, later⟩ := ended
    have grown := readContent_grown c p d b first bound
    have further := readContents_grown rest p b d' later
      (bound.trans_le (by rw [grown.size]; exact Nat.le_add_right _ _))
    have both := grown.append further (fun q same => Option.some.inj same ▸ bound)
    rw [Element.elementsAmong]
    cases c <;> exact both

theorem readContent_grown : (c : Content) → (p : NodeId) → (d d' : Draft) →
    Ends (readContent p c) d () d' → p < d.tree.size →
    Grown (some p) (Element.elementsOf c) c.element?.toList d.tree d'.tree
  | .element e, p, d, d', ended, bound => by
    rw [readContent] at ended
    exact readElement_grown e (some p) d d' ended fun q same => Option.some.inj same ▸ bound
  | .text _ _, p, d, d', ended, _ => by
    rw [readContent, Ends.pure_iff] at ended
    obtain ⟨-, rfl⟩ := ended
    exact .nil _ _

end

theorem ofDocument_grown {root : Element} {d : Draft} (read : ofDocument root = (.ok (), d)) :
    Grown none root.elements [root] .empty d.tree := by
  have ended : Ends (readRoot root) {} () d := read
  unfold readRoot at ended
  split at ended
  · exact readElement_grown root none {} d ended fun _ member => nomatch member
  · exact absurd ended Ends.not_throw

end Draft

/-! ## Walks -/

namespace Tree

theorem lt_of_mem_placesFrom {first i : NodeId} {es : List Element}
    (inside : i ∈ placesFrom first es) : first ≤ i := by
  induction es generalizing first with
  | nil => cases inside
  | cons e rest ih =>
    rcases List.mem_cons.1 inside with rfl | inside
    · exact Nat.le_refl _
    · exact (Nat.le_add_right _ _).trans (ih inside)

theorem placesFrom_pairwise (first : NodeId) (es : List Element) :
    (placesFrom first es).Pairwise (· < ·) := by
  induction es generalizing first with
  | nil => exact .nil
  | cons e rest ih =>
    refine .cons (fun i inside => ?_) (ih _)
    have positive : 0 < e.size := by
      cases e
      rw [Element.size]
      omega
    exact (Nat.lt_add_of_pos_right positive).trans_le (lt_of_mem_placesFrom inside)

theorem length_up_le {t : Tree} {i : NodeId} {walk : List NodeId}
    (up : List.IsChain (fun i p => t.parent? i = some p) (i :: walk)) : walk.length ≤ i := by
  induction walk generalizing i with
  | nil => exact Nat.zero_le _
  | cons p walk ih =>
    obtain ⟨step, up⟩ := List.isChain_cons_cons.1 up
    exact (ih up).trans_lt (lt_of_parent? step)

theorem length_down_lt {t : Tree} {i : NodeId} {walk : List NodeId} (inside : i < t.size)
    (down : List.IsChain (fun i c => c ∈ t.children i) (i :: walk)) :
    i + walk.length < t.size := by
  induction walk generalizing i with
  | nil => exact inside
  | cons c walk ih =>
    obtain ⟨step, down⟩ := List.isChain_cons_cons.1 down
    obtain ⟨below, within⟩ := lt_of_mem_children step
    rw [List.length_cons, ← Nat.succ_add_eq_add_succ]
    exact (Nat.add_le_add_right below _).trans_lt (ih within down)

/-- A tree whose nodes are the elements of a document, in document order. -/
structure Mirrors (t : Tree) (root : Element) : Prop where
  nodes : List.Forall₂ Node.Matches t.nodes.toList root.elements
  size : t.size = root.size
  children : ∀ i e, root.elements[i]? = some e →
    t.children i = placesFrom (i + 1) e.childElements
  orphan : ∀ i < t.size, t.parent? i = none ↔ i = Tree.root
  /-- A node but the first stands once below its parent, and below no other node. -/
  family : ∀ i < t.size, i ≠ Tree.root → ∃ p < i, t.parent? i = some p ∧
    ∀ q, (t.children q).count i = if q = p then 1 else 0
  ordered : ∀ i, (t.children i).Pairwise (· < ·)
  up : ∀ i walk, List.IsChain (fun i p => t.parent? i = some p) (i :: walk) → walk.length ≤ i
  down : ∀ i walk, i < t.size → List.IsChain (fun i c => c ∈ t.children i) (i :: walk) →
    i + walk.length < t.size

end Tree

namespace Draft

open Barrage.Tree (placesFrom)

/-- The nodes of a document that is a pattern are its elements in document order, each below the
node of the element around it, so they are as many as the lexer counts; and no attribute is repeated
in a document. -/
theorem tree_mirrors {root : Element} {d : Draft} (read : ofDocument root = (.ok (), d)) :
    d.tree.Mirrors root ∧
    ∀ source source? depth, (Lexing.ofSource source).outcome = .ok () →
      readDocument (.ofTokens (Lexing.ofSource source).tokens source?) = (.ok root, depth) →
      (Lexing.ofSource source).metrics.elements = d.tree.size ∧
      ∀ e ∈ root.elements, ∀ name, said? e.attributes name = e.attribute? name := by
  have grown := ofDocument_grown read
  have rooted := ofDocument_rooted read
  have size : d.tree.size = root.size := by
    rw [grown.size, root.length_elements]
    exact Nat.zero_add _
  have children : ∀ i e, root.elements[i]? = some e →
      d.tree.children i = placesFrom (i + 1) e.childElements := by
    intro i e found
    have inside := grown.inside i e found
    rwa [show Tree.empty.size = 0 from rfl, Nat.zero_add] at inside
  have ordered : ∀ i, (d.tree.children i).Pairwise (· < ·) := by
    intro i
    rcases Nat.lt_or_ge i root.elements.length with within | beyond
    · rw [children i _ (List.getElem?_eq_getElem within)]
      exact Tree.placesFrom_pairwise _ _
    · rw [root.length_elements, ← size] at beyond
      rw [Tree.children, Tree.node?_eq_none beyond]
      exact .nil
  refine ⟨⟨matches_ofDocument read, size, children, ?_, ?_, ordered, fun _ _ => Tree.length_up_le,
    fun _ _ => Tree.length_down_lt⟩, ?_⟩
  · intro i inside
    refine ⟨rooted.root_of_orphan inside, ?_⟩
    rintro rfl
    exact d.tree.parent?_root
  · intro i inside other
    obtain ⟨p, found⟩ := Option.ne_none_iff_exists'.1 (mt (rooted.root_of_orphan inside) other)
    refine ⟨p, Tree.lt_of_parent? found, found, fun q => ?_⟩
    split
    · next same =>
      rw [same]
      exact List.count_eq_one_of_mem ((ordered p).imp Nat.ne_of_lt) (rooted.child_of_parent found)
    · next elsewhere =>
      refine List.count_eq_zero_of_not_mem fun member => elsewhere ?_
      exact Option.some.inj ((rooted.parent_of_child member).symm.trans found)
  · intro source source? depth accepted document
    refine ⟨(elements_of_metrics accepted document).trans size.symm, fun e inside name => ?_⟩
    exact said?_eq_attribute? (distinct_of_readDocument document e inside) name

/-- A fire with a direction and a bullet, and a wait behind it, in an action. -/
def waiting : String :=
  "<bulletml><action><fire><direction/><bullet/></fire><wait>1</wait></action></bulletml>"

theorem tree_mirrors_waiting : ∃ root d, ofDocument root = (.ok (), d) ∧ d.tree.Mirrors root ∧
    d.tree.children 1 = [2, 5] ∧ d.tree.children 2 = [3, 4] ∧
    d.tree.policy 3 = .aim ∧ (Lexing.ofSource waiting).metrics.elements = 6 := by
  have accepted : (Lexing.ofSource waiting).outcome = .ok () := by decide +kernel
  have built : (readDocument (.ofTokens (Lexing.ofSource waiting).tokens)).1.toOption.map
      (fun root => ((ofDocument root).1, (ofDocument root).2.tree.size,
        (ofDocument root).2.tree.children 1, (ofDocument root).2.tree.children 2,
        (ofDocument root).2.tree.policy 3)) = some (.ok (), 6, [2, 5], [3, 4], .aim) := by
    decide +kernel
  match document : readDocument (.ofTokens (Lexing.ofSource waiting).tokens) with
  | (.error _, _) =>
    rw [document] at built
    cases built
  | (.ok root, depth) =>
    rw [document] at built
    obtain ⟨reads, built⟩ := Prod.mk.inj (Option.some.inj built)
    obtain ⟨size, built⟩ := Prod.mk.inj built
    obtain ⟨action, built⟩ := Prod.mk.inj built
    obtain ⟨fire, direction⟩ := Prod.mk.inj built
    have read : ofDocument root = (.ok (), (ofDocument root).2) := Prod.ext reads rfl
    obtain ⟨mirrors, counted⟩ := tree_mirrors read
    exact ⟨root, _, read, mirrors, action, fire, direction,
      (counted waiting none depth accepted document).1.trans size⟩

end Draft

end Barrage
