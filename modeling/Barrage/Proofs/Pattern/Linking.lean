import Barrage.Pattern.Validation
import Barrage.Proofs.Computation

/-!
What the walk of a validation sets. A walk goes on below every node but a fire reference. It sets
links of the nodes that it comes to and of no others; if it ends well, each reference among them is
linked to a node that it names and each fire to a bullet.
-/

set_option autoImplicit false

namespace Barrage

namespace Tree

inductive Walked (t : Tree) : NodeId → NodeId → Prop where
  | self (i : NodeId) : Walked t i i
  | child {i c j : NodeId} : t.kind? i ≠ some .fireRef → c ∈ t.children i → Walked t c j →
    Walked t i j

/-- A reference names a node: the node is of the kind that it refers to and has its label. -/
def Names (t : Tree) (i target : NodeId) : Prop :=
  ∃ n m kind label, t.node? i = some n ∧ t.node? target = some m ∧
    n.kind.referenced? = some kind ∧ m.kind = kind ∧ n.label? = some label ∧ m.label? = some label

theorem isLabelled_of_findLabel? {t : Tree} {label : String} {kind : Kind} {start r : NodeId}
    (found : t.findLabel? label kind start = some r) : t.isLabelled label kind r := by
  fun_induction t.findLabel? label kind start with
  | case1 start c first =>
    obtain rfl := Option.some.inj found
    exact List.find?_some first
  | case2 start none ih =>
    obtain ⟨⟨c, above⟩, -, below⟩ := List.exists_of_findSome?_eq_some found
    exact ih c above below

theorem names_of_lookUp {t : Tree} {i : NodeId} {r : Resolution}
    (found : t.lookUp ((t.node? i).getD default) = .ok r) : t.Names i r.target := by
  cases atNode : t.node? i with
  | none =>
    rw [atNode] at found
    cases found
  | some n =>
    rw [atNode, Option.getD_some] at found
    unfold lookUp at found
    split at found
    · cases found
    · next kind refers =>
      split at found
      · cases found
      · next label named =>
        split at found
        · cases found
        · next target labelled =>
          cases found
          have matching := isLabelled_of_findLabel? labelled
          unfold isLabelled at matching
          split at matching
          · next m atTarget =>
            simp only [Node.hasLabel, Bool.and_eq_true, decide_eq_true_eq] at matching
            exact ⟨n, m, kind, label, atNode, atTarget, refers, matching.1, named, matching.2⟩
          · cases matching

theorem lt_size_of_kind? {t : Tree} {i : NodeId} {kind : Kind} (found : t.kind? i = some kind) :
    i < t.size := by
  obtain ⟨n, atNode, -⟩ := Option.map_eq_some_iff.1 found
  exact lt_size_of_node? atNode

theorem kind?_of_child? {t : Tree} {i c : NodeId} {kind : Kind} (found : t.child? i kind = some c) :
    t.kind? c = some kind := by
  have matching := List.find?_some found
  simpa [hasKind] using matching

theorem Names.isBullet {t : Tree} {i bullet : NodeId} (names : t.Names i bullet)
    (isRef : t.kind? i = some .bulletRef) : t.kind? bullet = some .bullet := by
  obtain ⟨n, m, kind, label, atNode, atTarget, refers, same, -, -⟩ := names
  have kindSame : n.kind = .bulletRef := by simpa [kind?, atNode] using isRef
  rw [kindSame] at refers
  obtain rfl := Option.some.inj refers
  simp [kind?, atTarget, same]

end Tree

namespace Links

variable {t : Tree} {l l' l'' : Links}

/-- Every link leads to a node that belongs there. -/
structure Sound (t : Tree) (l : Links) : Prop where
  target : ∀ {i target : NodeId}, l.target? i = some target → t.Names i target
  bullet : ∀ {i bullet : NodeId}, l.bullet? i = some bullet → t.kind? bullet = some .bullet

structure Grows (t : Tree) (nodes : NodeId → Prop) (l l' : Links) : Prop where
  size : l'.rows.size = l.rows.size
  sound : l.Sound t → l'.Sound t
  others : ∀ {i : NodeId}, ¬ nodes i → l'.at? i = l.at? i
  target : ∀ {i : NodeId}, (l.target? i).isSome → (l'.target? i).isSome
  bullet : ∀ {i : NodeId}, (l.bullet? i).isSome → (l'.bullet? i).isSome

structure Covers (t : Tree) (nodes : NodeId → Prop) (l : Links) : Prop where
  target : ∀ {i : NodeId} {n : Node}, nodes i → t.node? i = some n → n.kind.isReference →
    (l.target? i).isSome
  bullet : ∀ {i : NodeId}, nodes i → t.kind? i = some .fire → (l.bullet? i).isSome

theorem Grows.refl (t : Tree) (nodes : NodeId → Prop) (l : Links) : Grows t nodes l l :=
  ⟨rfl, id, fun _ => rfl, id, id⟩

theorem Grows.trans {nodes : NodeId → Prop} (first : Grows t nodes l l')
    (next : Grows t nodes l' l'') : Grows t nodes l l'' where
  size := next.size.trans first.size
  sound s := next.sound (first.sound s)
  others out := (next.others out).trans (first.others out)
  target set := next.target (first.target set)
  bullet set := next.bullet (first.bullet set)

theorem Grows.mono {nodes more : NodeId → Prop} (g : Grows t nodes l l')
    (all : ∀ i, nodes i → more i) : Grows t more l l' :=
  { g with others := fun out => g.others fun inside => out (all _ inside) }

theorem Covers.grows {nodes more : NodeId → Prop} (c : Covers t nodes l) (g : Grows t more l l') :
    Covers t nodes l' where
  target inside found refers := g.target (c.target inside found refers)
  bullet inside fire := g.bullet (c.bullet inside fire)

theorem Covers.union {first next both : NodeId → Prop} (c : Covers t first l)
    (c' : Covers t next l) (split : ∀ i, both i → first i ∨ next i) : Covers t both l where
  target inside found refers :=
    (split _ inside).elim (c.target · found refers) (c'.target · found refers)
  bullet inside fire := (split _ inside).elim (c.bullet · fire) (c'.bullet · fire)

/-! ## One row -/

variable {i : NodeId} {f : NodeLinks → NodeLinks}

def update (l : Links) (i : NodeId) (f : NodeLinks → NodeLinks) : Links := ⟨l.rows.modify i f⟩

theorem at?_update (k : NodeId) :
    (l.update i f).at? k = if i = k then (l.at? k).map f else l.at? k :=
  Array.getElem?_modify

theorem at?_update_self : (l.update i f).at? i = (l.at? i).map f := by
  rw [at?_update, if_pos rfl]

theorem at?_update_of_ne {k : NodeId} (other : i ≠ k) : (l.update i f).at? k = l.at? k := by
  rw [at?_update, if_neg other]

/-- A link after a change of one row: it is one of the new row, or it was there before. -/
theorem link_update (get : NodeLinks → Option NodeId) {k j : NodeId}
    (found : ((l.update i f).at? k).bind get = some j) :
    (∃ row, i = k ∧ l.at? k = some row ∧ get (f row) = some j) ∨ (l.at? k).bind get = some j := by
  by_cases same : i = k
  · subst same
    rw [at?_update_self] at found
    obtain ⟨_, changed, found⟩ := Option.bind_eq_some_iff.1 found
    obtain ⟨row, atRow, rfl⟩ := Option.map_eq_some_iff.1 changed
    exact .inl ⟨row, rfl, atRow, found⟩
  · rw [at?_update_of_ne same] at found
    exact .inr found

theorem link_update_isSome (get : NodeLinks → Option NodeId) {k : NodeId}
    (keeps : ∀ row, (get row).isSome → (get (f row)).isSome)
    (set : ((l.at? k).bind get).isSome) : (((l.update i f).at? k).bind get).isSome := by
  by_cases same : i = k
  · subst same
    rw [at?_update_self]
    cases atRow : l.at? i with
    | none => simp [atRow] at set
    | some row => exact keeps row (by simpa [atRow] using set)
  · rw [at?_update_of_ne same]
    exact set

theorem grows_update (target : ∀ row, row.target?.isSome → (f row).target?.isSome)
    (bullet : ∀ row, row.bullet?.isSome → (f row).bullet?.isSome)
    (names : ∀ row j, (f row).target? = some j → row.target? = some j ∨ t.Names i j)
    (isBullet : ∀ row j, (f row).bullet? = some j →
      row.bullet? = some j ∨ t.kind? j = some .bullet) :
    Grows t (· = i) l (l.update i f) where
  size := Array.size_modify
  others out := at?_update_of_ne (Ne.symm out)
  target set := link_update_isSome _ target set
  bullet set := link_update_isSome _ bullet set
  sound s := by
    constructor
    · intro k j found
      rcases link_update _ found with ⟨row, rfl, atRow, found⟩ | before
      · rcases names row j found with old | new
        · exact s.target (Option.bind_eq_some_iff.2 ⟨row, atRow, old⟩)
        · exact new
      · exact s.target before
    · intro k j found
      rcases link_update _ found with ⟨row, rfl, atRow, found⟩ | before
      · rcases isBullet row j found with old | new
        · exact s.bullet (Option.bind_eq_some_iff.2 ⟨row, atRow, old⟩)
        · exact new
      · exact s.bullet before

theorem at?_isSome {l : Links} {i : NodeId} (bound : i < l.rows.size) : (l.at? i).isSome := by
  simp [at?, bound]

theorem grows_setRepeat (around : NodeId) : Grows t (· = i) l (l.setRepeat i around) :=
  grows_update (fun _ set => set) (fun _ set => set) (fun _ _ found => .inl found)
    (fun _ _ found => .inl found)

theorem grows_setTarget {target : NodeId} (names : t.Names i target) :
    Grows t (· = i) l (l.setTarget i target) :=
  grows_update (fun _ _ => rfl) (fun _ set => set)
    (fun _ _ found => .inr (Option.some.inj found ▸ names)) (fun _ _ found => .inl found)

theorem target?_setTarget {target : NodeId} (bound : i < l.rows.size) :
    ((l.setTarget i target).target? i).isSome := by
  obtain ⟨row, atRow⟩ := Option.isSome_iff_exists.1 (at?_isSome bound)
  have changed : (l.setTarget i target).at? i = (l.at? i).map _ := at?_update_self
  rw [target?, changed, atRow]
  rfl

theorem grows_setBullet {bullet : NodeId} (isBullet : t.kind? bullet = some .bullet) :
    Grows t (· = i) l (l.setBullet i bullet) :=
  grows_update (fun _ set => set) (fun _ _ => rfl) (fun _ _ found => .inl found)
    (fun _ _ found => .inr (Option.some.inj found ▸ isBullet))

theorem bullet?_setBullet (bullet : NodeId) (bound : i < l.rows.size) :
    ((l.setBullet i bullet).bullet? i).isSome := by
  obtain ⟨row, atRow⟩ := Option.isSome_iff_exists.1 (at?_isSome bound)
  have changed : (l.setBullet i bullet).at? i = (l.at? i).map _ := at?_update_self
  rw [bullet?, changed, atRow]
  rfl

end Links

namespace Tree

open Links

variable {t : Tree} {i : NodeId} {w w' : Walk}

/-- What a part of a walk does to the links: it changes those of some nodes, and some nodes have
all that they need afterwards. -/
def Settles (t : Tree) (touched covered : NodeId → Prop) (x : Validating Unit) : Prop :=
  ∀ w w' : Walk, w.links.rows.size = t.size → w.links.Sound t → Ends x w () w' →
    Grows t touched w.links w'.links ∧ Covers t covered w'.links

def Free (t : Tree) (i : NodeId) : Prop :=
  ∀ kind, t.kind? i = some kind → kind.isReference = false ∧ kind ≠ .fire

theorem free_of_kind? {kind : Kind} (found : t.kind? i = some kind)
    (noReference : kind.isReference = false) (noFire : kind ≠ .fire) : t.Free i := by
  intro other same
  obtain rfl := Option.some.inj (found.symm.trans same)
  exact ⟨noReference, noFire⟩

theorem Settles.seq {touched covered covered' : NodeId → Prop} {x y : Validating Unit}
    (first : Settles t touched covered x) (next : Settles t touched covered' y) :
    Settles t touched (fun j => covered j ∨ covered' j) (x >>= fun _ => y) := by
  intro w w' size sound ended
  obtain ⟨_, v, ended, rest⟩ := Ends.bind_iff.1 ended
  obtain ⟨grows, covers⟩ := first w v size sound ended
  obtain ⟨grows', covers'⟩ := next v w' (grows.size.trans size) (grows.sound sound) rest
  exact ⟨grows.trans grows', (covers.grows grows').union covers' fun _ => id⟩

theorem Settles.mono {touched touched' covered covered' : NodeId → Prop} {x : Validating Unit}
    (settles : Settles t touched covered x) (more : ∀ j, touched j → touched' j)
    (fewer : ∀ j, covered' j → covered j ∨ t.Free j) : Settles t touched' covered' x := by
  intro w w' size sound ended
  obtain ⟨grows, covers⟩ := settles w w' size sound ended
  -- nodes that need nothing are covered by any links
  have free : Covers t t.Free w'.links := by
    refine ⟨fun none found refers => ?_, fun none fire => absurd rfl (none _ fire).2⟩
    rw [(none _ (by simp [kind?, found])).1] at refers
    cases refers
  exact ⟨grows.mono more, covers.union free fewer⟩

/-! ## One node -/

theorem settles_modify {f : Walk → Walk} (kept : ∀ w, (f w).links = w.links) :
    Settles t (· = i) (fun _ => False) (modify f) := by
  intro w w' _ _ ended
  rw [Ends.modify_iff.1 ended, kept]
  exact ⟨.refl .., fun inside => inside.elim, fun inside => inside.elim⟩

theorem settles_linkRepeat : Settles t (· = i) (fun _ => False) (t.linkRepeat i) := by
  intro w w' _ _ ended
  refine ⟨?_, fun inside => inside.elim, fun inside => inside.elim⟩
  unfold linkRepeat at ended
  split at ended
  · exact absurd ended Ends.not_throw
  · next p above =>
    split at ended
    · rw [Ends.modify_iff.1 ended]
      exact grows_setRepeat p
    · rw [(Ends.pure_iff.1 ended).2]
      exact .refl ..

theorem resolve_grows {l l' : Linking} {target : NodeId} (bound : i < l.links.rows.size)
    (resolved : t.resolve i l = (.ok target, l')) :
    Grows t (· = i) l.links l'.links ∧ (l'.links.target? i).isSome := by
  unfold resolve at resolved
  split at resolved
  -- a reference that is linked already keeps its link
  · next target linked =>
    cases resolved
    exact ⟨.refl .., Option.isSome_iff_exists.2 ⟨_, linked⟩⟩
  · split at resolved
    · cases resolved
    · next r found =>
      cases resolved
      exact ⟨grows_setTarget (names_of_lookUp found), target?_setTarget bound⟩

theorem settles_linkTarget (bound : i < t.size) (other : t.kind? i ≠ some .fire) :
    Settles t (· = i) (· = i) (t.linkTarget i) := by
  intro w w' size _ ended
  obtain ⟨outcome, v, got, rest⟩ := Ends.bind_iff.1 ended
  have resolved := Ends.modifyGet_iff.1 got
  rcases result : t.resolve i w.toLinking with ⟨_ | target, l⟩
  · rw [result] at resolved
    cases resolved
    exact absurd rest Ends.not_throw
  · rw [result] at resolved
    cases resolved
    rw [Ends.modify_iff.1 rest]
    obtain ⟨grows, set⟩ := resolve_grows (size ▸ bound) result
    exact ⟨grows, fun same _ _ => same ▸ set, fun same fire => absurd (same ▸ fire) other⟩

theorem kind?_of_bulletFor? {l : Links} {bullet : NodeId} (s : l.Sound t)
    (chosen : t.bulletFor? l i = some bullet) : t.kind? bullet = some .bullet := by
  unfold bulletFor? at chosen
  split at chosen
  · next c inside =>
    obtain rfl := Option.some.inj chosen
    exact kind?_of_child? inside
  -- a bullet reference below the fire is linked, and sound links of it lead to bullets
  · obtain ⟨reference, inside, linked⟩ := Option.bind_eq_some_iff.1 chosen
    exact (s.target linked).isBullet (kind?_of_child? inside)

theorem settles_linkBullet (bound : i < t.size) (fire : t.kind? i = some .fire) :
    Settles t (· = i) (· = i) (t.linkBullet i) := by
  intro before w' size sound ended
  obtain ⟨read, w, got, rest⟩ := Ends.bind_iff.1 ended
  obtain ⟨rfl, rfl⟩ := Ends.get_iff.1 got
  split at rest
  · exact absurd rest Ends.not_throw
  · next bullet chosen =>
    rw [Ends.modify_iff.1 rest]
    have set := bullet?_setBullet bullet (lt_of_lt_of_eq bound size.symm)
    refine ⟨grows_setBullet (kind?_of_bulletFor? sound chosen), ?_, fun same _ => same ▸ set⟩
    intro _ n same found refers
    have isFire : n.kind = .fire := by simpa [kind?, same ▸ found] using fire
    rw [isFire] at refers
    cases refers

/-! ## The walk -/

def WalkedBelow (t : Tree) (i j : NodeId) : Prop := ∃ c ∈ t.children i, t.Walked c j

theorem Walked.of_below {i j : NodeId} (notFireRef : t.kind? i ≠ some .fireRef)
    (below : t.WalkedBelow i j) : t.Walked i j :=
  let ⟨_, inside, walked⟩ := below
  .child notFireRef inside walked

theorem Walked.split {i j : NodeId} (walked : t.Walked i j) :
    j = i ∨ t.kind? i ≠ some .fireRef ∧ t.WalkedBelow i j := by
  cases walked with
  | self => exact .inl rfl
  | child notFireRef inside walked => exact .inr ⟨notFireRef, _, inside, walked⟩

/-- A part of a walk does what the walk of a node has to do if it does so for the node itself and
for the nodes below it. -/
theorem Settles.walked {covered : NodeId → Prop} {x : Validating Unit}
    (settles : Settles t (t.Walked i) covered x) (self : covered i ∨ t.Free i)
    (below : ∀ j, t.kind? i ≠ some .fireRef → t.WalkedBelow i j → covered j) :
    Settles t (t.Walked i) (t.Walked i) x := by
  refine settles.mono (fun _ => id) fun j walked => ?_
  rcases walked.split with rfl | ⟨notFireRef, inside⟩
  · exact self
  · exact .inl (below j notFireRef inside)

theorem settles_children {i : NodeId} (cs : List { c : NodeId // i < c ∧ c < t.size })
    (each : ∀ c ∈ cs, Settles t (t.Walked c) (t.Walked c) (t.validateNode c)) :
    Settles t (fun j => ∃ c ∈ cs, t.Walked c j) (fun j => ∃ c ∈ cs, t.Walked c j)
      (cs.forM fun ⟨c, _⟩ => t.validateNode c) := by
  induction cs with
  | nil =>
    intro w w' _ _ ended
    rw [(Ends.pure_iff.1 ended).2]
    exact ⟨.refl .., fun inside => by simp at inside, fun inside => by simp at inside⟩
  | cons c rest ih =>
    let touched : NodeId → Prop := fun j => ∃ d ∈ c :: rest, t.Walked d j
    have atHead : ∀ j, t.Walked c j → touched j := fun j walked => ⟨c, List.mem_cons_self, walked⟩
    have atRest : ∀ j, (∃ d ∈ rest, t.Walked d j) → touched j :=
      fun j ⟨d, inside, walked⟩ => ⟨d, List.mem_cons_of_mem _ inside, walked⟩
    have here := (each c List.mem_cons_self).mono atHead fun j => .inl
    have there :=
      (ih fun d inside => each d (List.mem_cons_of_mem _ inside)).mono atRest fun j => .inl
    refine (here.seq there).mono (fun _ => id) ?_
    rintro j ⟨d, inside, walked⟩
    rcases List.mem_cons.1 inside with rfl | inside
    · exact .inl (.inl walked)
    · exact .inl (.inr ⟨d, inside, walked⟩)

theorem settles_below (notFireRef : t.kind? i ≠ some .fireRef)
    (each : ∀ c, i < c ∧ c < t.size → Settles t (t.Walked c) (t.Walked c) (t.validateNode c)) :
    Settles t (t.Walked i) (t.WalkedBelow i)
      ((t.childrenAbove i).forM fun ⟨c, _⟩ => t.validateNode c) := by
  have same : ∀ j, (∃ c ∈ t.childrenAbove i, t.Walked c j) ↔ t.WalkedBelow i j := by
    intro j
    simp only [WalkedBelow, ← childrenAbove_map_val t i, List.mem_map]
    constructor
    · rintro ⟨c, inside, walked⟩
      exact ⟨c, ⟨c, inside, rfl⟩, walked⟩
    · rintro ⟨_, ⟨c, inside, rfl⟩, walked⟩
      exact ⟨c, inside, walked⟩
  exact (settles_children _ fun c _ => each c c.2).mono
    (fun j inside => .of_below notFireRef ((same j).1 inside))
    (fun j inside => .inl ((same j).2 inside))

/-- The walk of a node sets links of the nodes that it comes to, and all that they need. -/
theorem settles_validateNode (t : Tree) (i : NodeId) (bound : i < t.size) :
    Settles t (t.Walked i) (t.Walked i) (t.validateNode i) := by
  have each : ∀ c, i < c ∧ c < t.size → Settles t (t.Walked c) (t.Walked c) (t.validateNode c) :=
    fun c above => settles_validateNode t c above.2
  -- what is done at the node itself touches no other node
  have atNode : ∀ {covered x}, Settles t (· = i) covered x → Settles t (t.Walked i) covered x :=
    fun settles => settles.mono (by rintro j rfl; exact .self j) (fun j => .inl)
  have counted := atNode (settles_modify (i := i) (t := t)
    (f := fun w => { w with stats.nodes := w.stats.nodes + 1 }) fun _ => rfl)
  rw [validateNode]
  split
  -- an action
  · next kind =>
    have notFireRef : t.kind? i ≠ some .fireRef := by simp [kind]
    exact (counted.seq ((atNode settles_linkRepeat).seq (settles_below notFireRef each))).walked
      (.inr (free_of_kind? kind rfl (by simp))) (fun j _ below => by simp [below])
  -- an action reference
  · next kind =>
    have notFireRef : t.kind? i ≠ some .fireRef := by simp [kind]
    have target := atNode (settles_linkTarget bound (by simp [kind]))
    exact (counted.seq ((atNode settles_linkRepeat).seq
      ((settles_below notFireRef each).seq target))).walked
      (by simp) (fun j _ below => by simp [below])
  -- a fire reference; the walk does not go on below it
  · next kind =>
    have target := atNode (settles_linkTarget bound (by simp [kind]))
    exact (counted.seq target).walked (by simp) (fun _ notFireRef _ => absurd kind notFireRef)
  -- a fire, whose bullet is chosen after the nodes below it are linked
  · next kind =>
    have notFireRef : t.kind? i ≠ some .fireRef := by simp [kind]
    have bullet := atNode (settles_linkBullet bound kind)
    exact (counted.seq ((settles_below notFireRef each).seq bullet)).walked
      (by simp) (fun j _ below => by simp [below])
  -- a bullet reference
  · next kind =>
    have notFireRef : t.kind? i ≠ some .fireRef := by simp [kind]
    have target := atNode (settles_linkTarget bound (by simp [kind]))
    exact (counted.seq ((settles_below notFireRef each).seq target)).walked
      (by simp) (fun j _ below => by simp [below])
  -- all other nodes need no link
  · next noAction noActionRef noFireRef noFire noBulletRef =>
    have free : t.Free i := by
      intro kind found
      cases kind <;> simp_all [Kind.isReference, Kind.referenced?]
    exact (counted.seq (settles_below noFireRef each)).walked (.inr free)
      (fun j _ below => by simp [below])
termination_by t.size - i
decreasing_by exact Nat.sub_lt_sub_left bound above.1

/-! ## What a walk keeps -/

def Keeps (P : Links → Prop) (x : Validating Unit) : Prop :=
  ∀ w w' : Walk, P w.links → Ends x w () w' → P w'.links

structure Kept (t : Tree) (P : Links → Prop) : Prop where
  setRepeat : ∀ {l i p}, t.parent? i = some p → P l → P (l.setRepeat i p)
  setTarget : ∀ {l i target}, l.target? i = none → P l → P (l.setTarget i target)
  setBullet : ∀ {l i bullet}, t.bulletFor? l i = some bullet → P l → P (l.setBullet i bullet)

section Kept

variable {P : Links → Prop}

theorem Keeps.seq {x y : Validating Unit} (first : Keeps P x) (next : Keeps P y) :
    Keeps P (x >>= fun _ => y) := by
  intro w w' holds ended
  obtain ⟨_, v, ended, rest⟩ := Ends.bind_iff.1 ended
  exact next v w' (first w v holds ended) rest

theorem keeps_modify {f : Walk → Walk} (kept : ∀ w, (f w).links = w.links) :
    Keeps P (modify f) := by
  intro w w' holds ended
  rw [Ends.modify_iff.1 ended, kept]
  exact holds

namespace Kept

theorem linkRepeat (kept : t.Kept P) : Keeps P (t.linkRepeat i) := by
  intro w w' holds ended
  unfold Tree.linkRepeat at ended
  split at ended
  · exact absurd ended Ends.not_throw
  · next p above =>
    split at ended
    · rw [Ends.modify_iff.1 ended]
      exact kept.setRepeat above holds
    · rw [(Ends.pure_iff.1 ended).2]
      exact holds

theorem resolve (kept : t.Kept P) {l l' : Linking} {target : NodeId} (holds : P l.links)
    (resolved : t.resolve i l = (.ok target, l')) : P l'.links := by
  unfold Tree.resolve at resolved
  split at resolved
  · cases resolved
    exact holds
  -- only a reference that is not linked yet is looked up
  · next unset =>
    split at resolved
    · cases resolved
    · cases resolved
      exact kept.setTarget unset holds

theorem linkTarget (kept : t.Kept P) : Keeps P (t.linkTarget i) := by
  intro w w' holds ended
  obtain ⟨outcome, v, got, rest⟩ := Ends.bind_iff.1 ended
  have resolved := Ends.modifyGet_iff.1 got
  rcases result : t.resolve i w.toLinking with ⟨_ | target, l⟩
  · rw [result] at resolved
    cases resolved
    exact absurd rest Ends.not_throw
  · rw [result] at resolved
    cases resolved
    rw [Ends.modify_iff.1 rest]
    exact kept.resolve holds result

theorem linkBullet (kept : t.Kept P) : Keeps P (t.linkBullet i) := by
  intro before w' holds ended
  obtain ⟨read, w, got, rest⟩ := Ends.bind_iff.1 ended
  obtain ⟨rfl, rfl⟩ := Ends.get_iff.1 got
  split at rest
  · exact absurd rest Ends.not_throw
  · next bullet found =>
    rw [Ends.modify_iff.1 rest]
    exact kept.setBullet found holds

theorem children (cs : List { c : NodeId // i < c ∧ c < t.size })
    (each : ∀ c ∈ cs, Keeps P (t.validateNode c)) :
    Keeps P (cs.forM fun ⟨c, _⟩ => t.validateNode c) := by
  induction cs with
  | nil =>
    intro w w' holds ended
    rw [(Ends.pure_iff.1 ended).2]
    exact holds
  | cons c rest ih =>
    exact (each c List.mem_cons_self).seq
      (ih fun d inside => each d (List.mem_cons_of_mem _ inside))

theorem validateNode (kept : t.Kept P) (i : NodeId) : Keeps P (t.validateNode i) := by
  have below : Keeps P ((t.childrenAbove i).forM fun ⟨c, _⟩ => t.validateNode c) :=
    children _ fun c _ => validateNode kept c
  have counted : Keeps P (modify fun w => { w with stats.nodes := w.stats.nodes + 1 }) :=
    keeps_modify fun _ => rfl
  rw [Tree.validateNode]
  refine counted.seq ?_
  -- an action, an action reference, a fire reference, a fire, a bullet reference, and all others
  split
  · exact kept.linkRepeat.seq below
  · exact kept.linkRepeat.seq (below.seq kept.linkTarget)
  · exact kept.linkTarget
  · exact below.seq kept.linkBullet
  · exact below.seq kept.linkTarget
  · exact below
termination_by t.size - i
decreasing_by exact Nat.sub_lt_sub_left (Nat.lt_trans c.2.1 c.2.2) c.2.1

end Kept

end Kept

end Tree

end Barrage
