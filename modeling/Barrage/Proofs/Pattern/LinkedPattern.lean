import Barrage.Pattern.Load
import Barrage.Proofs.Pattern.Family
import Barrage.Proofs.Pattern.Linking

/-!
The links of loaded patterns. A walk from the root comes to every node but those inside a fire
reference. So outside of fire references each reference is linked to a node that it names and each
fire to a bullet, while nodes inside a fire reference have no links at all.
-/

set_option autoImplicit false

namespace Barrage

namespace Tree

variable {t : Tree}

theorem findParent?_of_parent? {kind : Kind} {i p : NodeId} (above : t.parent? i = some p) :
    t.findParent? kind i = if t.kind? p = some kind then some p else t.findParent? kind p := by
  rw [findParent?]
  split
  · next noParent => rw [above] at noParent; cases noParent
  · next q found =>
    obtain rfl := Option.some.inj (above.symm.trans found)
    rfl

theorem findParent?_of_orphan {kind : Kind} {i : NodeId} (orphan : t.parent? i = none) :
    t.findParent? kind i = none := by
  rw [findParent?]
  split
  · rfl
  · next p above => rw [orphan] at above; cases above

theorem Walked.extend {i p c : NodeId} (walked : t.Walked i p)
    (notFireRef : t.kind? p ≠ some .fireRef)
    (inside : c ∈ t.children p) : t.Walked i c := by
  induction walked with
  | self => exact .child notFireRef inside (.self c)
  | child openAbove insideAbove _ ih => exact .child openAbove insideAbove (ih notFireRef inside)

theorem findParent?_of_walked (r : t.Rooted) {i j : NodeId} (walked : t.Walked i j)
    (outside : t.findParent? .fireRef i = none) : t.findParent? .fireRef j = none := by
  induction walked with
  | self => exact outside
  | child notFireRef inside _ ih =>
    refine ih ?_
    rw [findParent?_of_parent? (r.parent_of_child inside), if_neg notFireRef]
    exact outside

theorem walked_of_findParent? (r : t.Rooted) (i : NodeId) (bound : i < t.size)
    (outside : t.findParent? .fireRef i = none) : t.Walked root i := by
  cases above : t.parent? i with
  | none =>
    rw [r.root_of_orphan bound above]
    exact .self root
  | some p =>
    have below := lt_of_parent? above
    rw [findParent?_of_parent? above] at outside
    split at outside
    · cases outside
    -- the walk comes to the parent, which is no fire reference, so it goes on to the node
    · next notFireRef =>
      exact (walked_of_findParent? r p (Nat.lt_trans below bound) outside).extend notFireRef
        (r.child_of_parent above)
termination_by i

/-- The walk of a whole tree comes to the nodes that are not inside a fire reference. -/
theorem walked_root_iff (r : t.Rooted) {i : NodeId} (bound : i < t.size) :
    t.Walked root i ↔ t.findParent? .fireRef i = none :=
  ⟨fun walked => findParent?_of_walked r walked (findParent?_of_orphan (parent?_root t)),
    walked_of_findParent? r i bound⟩

theorem at?_blank {size : Nat} {i : NodeId} (bound : i < size) :
    (Links.blank size).at? i = some {} := by
  simp [Links.at?, Links.blank, bound]

theorem sound_blank (t : Tree) (size : Nat) : (Links.blank size).Sound t := by
  have row : ∀ {i l}, (Links.blank size).at? i = some l → l = {} := by
    intro i l found
    rw [Links.at?, Links.blank, Array.getElem?_replicate] at found
    split at found
    · exact (Option.some.inj found).symm
    · cases found
  constructor
  · intro i target found
    obtain ⟨l, atRow, set⟩ := Option.bind_eq_some_iff.1 found
    rw [row atRow] at set
    cases set
  · intro i bullet found
    obtain ⟨l, atRow, set⟩ := Option.bind_eq_some_iff.1 found
    rw [row atRow] at set
    cases set

end Tree

namespace Load

variable {s : LoaderSettings} {j j' : Journal}

theorem of_stage {α ε : Type} {wrap : ε → LoadError} {x : Logged (Except ε α)} {a : α}
    (ended : Ends (stage wrap x) j a j') : x.run j = (.ok a, j') := by
  have step : (stage wrap x).run.run j = ((x.run j).1.mapError wrap, (x.run j).2) := rfl
  unfold Ends at ended
  rw [step] at ended
  cases result : x.run j with
  | mk outcome k =>
    rw [result] at ended
    cases outcome with
    | error e => cases ended
    | ok b => cases ended; rfl

theorem ofDocument_of_draft {root : Markup.Element} {d : Draft}
    (drafted : (draft s root).run j = (.ok d, j')) : Draft.ofDocument root = (.ok (), d) := by
  unfold draft at drafted
  cases read : Draft.ofDocument root with
  | mk outcome e =>
    rw [read] at drafted
    cases outcome with
    | error e =>
      dsimp only at drafted
      split at drafted <;> cases drafted
    | ok u =>
      dsimp only at drafted
      split at drafted <;> · cases drafted; rfl

theorem validate_of_links {t : Tree} {before l : Links} {stats : ValidationStats}
    (linked : (links s t before).run j = ((.ok stats, l), j')) :
    ∃ w, t.validate { links := before } = (.ok (), w) ∧ w.links = l := by
  unfold links at linked
  cases walked : t.validate { links := before } with
  | mk outcome w =>
    rw [walked] at linked
    cases outcome with
    | error e => cases linked
    | ok u => cases linked; exact ⟨w, rfl, rfl⟩

/-- A loaded pattern has the tree of a document and the links of a walk that ended well. -/
theorem document_of_pattern {source : String} {p : Pattern}
    (loaded : Ends (pattern s source) j p j') : ∃ root d, Draft.ofDocument root = (.ok (), d) ∧
      p.tree = d.tree ∧ ∃ w, p.tree.validate { links := .blank p.tree.size } = (.ok (), w) ∧
        w.links = p.links := by
  -- the stages of a load in order; the tree comes from the third and the links from the fourth
  obtain ⟨stream, _, -, loaded⟩ := Ends.bind_iff.1 loaded
  obtain ⟨root, _, -, loaded⟩ := Ends.bind_iff.1 loaded
  obtain ⟨d, _, drafted, loaded⟩ := Ends.bind_iff.1 loaded
  obtain ⟨⟨stats, l⟩, k, linked, loaded⟩ := Ends.bind_iff.1 loaded
  obtain ⟨_, _, -, loaded⟩ := Ends.bind_iff.1 loaded
  obtain ⟨rfl, -⟩ := Ends.pure_iff.1 loaded
  refine ⟨root, d, ofDocument_of_draft (of_stage drafted), rfl, ?_⟩
  have linked := of_stage linked
  rw [run_bind_eq] at linked
  cases result : (links s d.tree (.blank d.tree.size)).run _ with
  | mk found k' =>
    rw [result] at linked
    rcases found with ⟨_ | stats', l'⟩
    · cases linked
    · cases linked
      exact validate_of_links result

theorem parts_of_pattern {source : String} {p : Pattern}
    (loaded : Ends (pattern s source) j p j') :
    p.tree.Rooted ∧ ∃ w, p.tree.validate { links := .blank p.tree.size } = (.ok (), w) ∧
      w.links = p.links := by
  obtain ⟨root, d, read, tree, walk⟩ := document_of_pattern loaded
  exact ⟨tree ▸ Draft.ofDocument_rooted read, walk⟩

/-- In a loaded pattern the references outside of fire references are linked to nodes that they
name, and the fires there to bullets. Nodes inside a fire reference have no links. -/
theorem pattern_links {source : String} {p : Pattern} (loaded : Ends (pattern s source) j p j')
    {i : NodeId} {n : Node} (atNode : p.tree.node? i = some n) :
    (p.tree.findParent? .fireRef i = none →
      (n.kind.isReference → ∃ target, p.target? i = some target ∧ p.tree.Names i target) ∧
      (n.kind = .fire →
        ∃ bullet, p.bullet? i = some bullet ∧ p.tree.kind? bullet = some .bullet)) ∧
    (p.tree.findParent? .fireRef i ≠ none → p.links.at? i = some {}) := by
  obtain ⟨rooted, w, walked, same⟩ := parts_of_pattern loaded
  have bound : i < p.tree.size := Tree.lt_size_of_node? atNode
  have blank := Tree.sound_blank p.tree p.tree.size
  obtain ⟨grows, covers⟩ := Tree.settles_validateNode p.tree Tree.root (Nat.zero_lt_of_lt bound)
    { links := .blank p.tree.size } w Array.size_replicate blank walked
  rw [same] at grows covers
  have sound := grows.sound blank
  have reached := Tree.walked_root_iff rooted bound
  refine ⟨fun outside => ⟨fun refers => ?_, fun fire => ?_⟩, fun inside => ?_⟩
  · obtain ⟨target, set⟩ :=
      Option.isSome_iff_exists.1 (covers.target (reached.2 outside) atNode refers)
    exact ⟨target, set, sound.target set⟩
  · have isFire : p.tree.kind? i = some .fire := by simp [Tree.kind?, atNode, fire]
    obtain ⟨bullet, set⟩ :=
      Option.isSome_iff_exists.1 (covers.bullet (reached.2 outside) isFire)
    exact ⟨bullet, set, sound.bullet set⟩
  · rw [grows.others (mt reached.1 inside)]
    exact Tree.at?_blank bound

/-- A document with a reference to a missing bullet inside a fire reference. -/
def nested : String :=
  "<bulletml><fire label='f'><bullet/></fire><action label='top'>"
    ++ "<fireRef label='f'><bulletRef label='nope'/></fireRef></action></bulletml>"

theorem pattern_links_nested : ∃ p j' n m, Ends (pattern {} nested) {} p j' ∧
    p.tree.node? 4 = some n ∧ n.kind = .fireRef ∧ (∃ target, p.target? 4 = some target) ∧
    p.tree.node? 5 = some m ∧ m.kind = .bulletRef ∧ p.links.at? 5 = some {} := by
  cases result : (pattern {} nested).run.run {} with
  | mk outcome j' =>
    have loads : (((pattern {} nested).run.run {}).1.toOption).isSome := by decide +kernel
    have found : ((((pattern {} nested).run.run {}).1.toOption).all fun p =>
        ((p.tree.node? 4).map (·.kind)) = some .fireRef ∧ p.tree.findParent? .fireRef 4 = none ∧
        ((p.tree.node? 5).map (·.kind)) = some .bulletRef ∧
        p.tree.findParent? .fireRef 5 = some 4) = true := by decide +kernel
    rw [result] at loads found
    cases outcome with
    | error e => cases loads
    | ok p =>
      simp only [Except.toOption, Option.all_some, decide_eq_true_eq,
        Option.map_eq_some_iff] at found
      obtain ⟨⟨n, at4, kind4⟩, outside, ⟨m, at5, kind5⟩, inside⟩ := found
      obtain ⟨target, set, -⟩ := ((pattern_links result at4).1 outside).1 (by rw [kind4]; rfl)
      exact ⟨p, j', n, m, result, at4, kind4, ⟨target, set⟩, at5, kind5,
        (pattern_links result at5).2 (by simp [inside])⟩

end Load

end Barrage
