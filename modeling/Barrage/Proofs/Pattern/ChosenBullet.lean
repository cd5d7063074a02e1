import Barrage.Proofs.Pattern.LinkedPattern

/-!
Which bullet a fire is linked to. A walk never changes a link to the node that a reference names
once it is set, so what it finds to be the bullet of a fire stays the bullet of that fire: the first
bullet inside the fire, or else what its first bullet reference is linked to.
-/

set_option autoImplicit false

namespace Barrage

namespace Links

variable {t : Tree} {l l' : Links} {i : NodeId}

/-- Every fire that is linked to a bullet is linked to the one that is found for it. -/
def Chosen (t : Tree) (l : Links) : Prop :=
  ∀ i bullet, l.bullet? i = some bullet → t.bulletFor? l i = some bullet

/-- No link to the node that a reference names is taken away or changed. -/
def Steady (l l' : Links) : Prop :=
  ∀ i target, l.target? i = some target → l'.target? i = some target

theorem Steady.bulletFor? (steady : l.Steady l') {bullet : NodeId}
    (found : t.bulletFor? l i = some bullet) : t.bulletFor? l' i = some bullet := by
  unfold Tree.bulletFor? at found ⊢
  split at found
  · exact found
  · obtain ⟨reference, inside, linked⟩ := Option.bind_eq_some_iff.1 found
    exact Option.bind_eq_some_iff.2 ⟨reference, inside, steady _ _ linked⟩

theorem link_update_eq (get : NodeLinks → Option NodeId) {f : NodeLinks → NodeLinks}
    (same : ∀ row, get (f row) = get row) (k : NodeId) :
    ((l.update i f).at? k).bind get = (l.at? k).bind get := by
  rw [at?_update]
  split
  · cases l.at? k with
    | none => rfl
    | some row => exact same row
  · rfl

theorem target?_setRepeat (around k : NodeId) : (l.setRepeat i around).target? k = l.target? k :=
  link_update_eq (f := fun row => { row with repeat? := some around }) _ (fun _ => rfl) k

theorem bullet?_setRepeat (around k : NodeId) : (l.setRepeat i around).bullet? k = l.bullet? k :=
  link_update_eq (f := fun row => { row with repeat? := some around }) _ (fun _ => rfl) k

theorem bullet?_setTarget (target k : NodeId) : (l.setTarget i target).bullet? k = l.bullet? k :=
  link_update_eq (f := fun row => { row with target? := some target }) _ (fun _ => rfl) k

theorem target?_setBullet (bullet k : NodeId) : (l.setBullet i bullet).target? k = l.target? k :=
  link_update_eq (f := fun row => { row with bullet? := some bullet }) _ (fun _ => rfl) k

theorem Chosen.setRepeat (chosen : l.Chosen t) (around : NodeId) :
    (l.setRepeat i around).Chosen t := by
  have steady : l.Steady (l.setRepeat i around) :=
    fun _ _ linked => (target?_setRepeat around _).trans linked
  intro k bullet found
  rw [bullet?_setRepeat] at found
  exact steady.bulletFor? (chosen k bullet found)

theorem Chosen.setTarget (chosen : l.Chosen t) (unset : l.target? i = none) (target : NodeId) :
    (l.setTarget i target).Chosen t := by
  have steady : l.Steady (l.setTarget i target) := by
    intro k named linked
    have other : i ≠ k := by
      rintro rfl
      rw [unset] at linked
      cases linked
    rw [← linked]
    exact congrArg (Option.bind · _) (at?_update_of_ne other)
  intro k bullet found
  rw [bullet?_setTarget] at found
  exact steady.bulletFor? (chosen k bullet found)

theorem Chosen.setBullet (chosen : l.Chosen t) {bullet : NodeId}
    (found : t.bulletFor? l i = some bullet) : (l.setBullet i bullet).Chosen t := by
  have steady : l.Steady (l.setBullet i bullet) :=
    fun _ _ linked => (target?_setBullet bullet _).trans linked
  intro k other linked
  rcases link_update _ linked with ⟨row, rfl, -, set⟩ | before
  · obtain rfl := Option.some.inj set
    exact steady.bulletFor? found
  · exact steady.bulletFor? (chosen k other before)

end Links

namespace Tree

open Links

variable {t : Tree} {i : NodeId}

/-- A part of a walk after which linked fires are still linked to the bullets found for them. -/
def Chooses (t : Tree) (x : Validating Unit) : Prop :=
  ∀ w w' : Walk, w.links.Chosen t → Ends x w () w' → w'.links.Chosen t

theorem chooses_validateNode (t : Tree) (i : NodeId) : t.Chooses (t.validateNode i) :=
  Kept.validateNode
    { setRepeat := fun _ chosen => chosen.setRepeat _
      setTarget := fun unset chosen => chosen.setTarget unset _
      setBullet := fun found chosen => chosen.setBullet found } i

end Tree

namespace Load

variable {s : LoaderSettings} {j j' : Journal} {source : String} {p : Pattern}

theorem bullet?_blank {size : Nat} {i bullet : NodeId} :
    (Links.blank size).bullet? i ≠ some bullet := by
  intro found
  obtain ⟨row, atRow, set⟩ := Option.bind_eq_some_iff.1 found
  rw [Links.at?, Links.blank, Array.getElem?_replicate] at atRow
  split at atRow
  · cases atRow
    cases set
  · cases atRow

theorem names_of_pattern (loaded : Ends (pattern s source) j p j') {i target : NodeId}
    (linked : p.target? i = some target) (bound : i < p.tree.size) : p.tree.Names i target := by
  obtain ⟨-, w, walked, same⟩ := parts_of_pattern loaded
  have blank := Tree.sound_blank p.tree p.tree.size
  obtain ⟨grows, -⟩ := Tree.settles_validateNode p.tree Tree.root (Nat.zero_lt_of_lt bound)
    { links := .blank p.tree.size } w Array.size_replicate blank walked
  rw [same] at grows
  exact (grows.sound blank).target linked

/-- In a loaded pattern fires outside of fire references are linked to the bullets that are found
for them, and fires inside are not linked to any. -/
theorem bullet?_of_pattern (loaded : Ends (pattern s source) j p j') {fire : NodeId}
    (isFire : p.tree.kind? fire = some .fire) :
    p.bullet? fire = if p.tree.findParent? .fireRef fire = none
      then p.tree.bulletFor? p.links fire else none := by
  obtain ⟨rooted, w, walked, same⟩ := parts_of_pattern loaded
  obtain ⟨n, atNode, -⟩ := Option.map_eq_some_iff.1 isFire
  have bound := Tree.lt_size_of_node? atNode
  obtain ⟨grows, covers⟩ := Tree.settles_validateNode p.tree Tree.root (Nat.zero_lt_of_lt bound)
    { links := .blank p.tree.size } w Array.size_replicate (Tree.sound_blank _ _) walked
  have chosen := Tree.chooses_validateNode p.tree Tree.root { links := .blank p.tree.size } w
    (fun _ _ linked => absurd linked bullet?_blank) walked
  rw [same] at grows covers chosen
  have reached := Tree.walked_root_iff rooted bound
  split
  · next outside =>
    obtain ⟨bullet, set⟩ := Option.isSome_iff_exists.1 (covers.bullet (reached.2 outside) isFire)
    exact set.trans (chosen fire bullet set).symm
  · next inside =>
    rw [Pattern.bullet?, Links.bullet?, grows.others (mt reached.1 inside), Tree.at?_blank bound]
    rfl

end Load

end Barrage
