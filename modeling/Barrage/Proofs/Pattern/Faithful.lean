import Barrage.Proofs.Coupled
import Barrage.Proofs.Pattern.Linking

/-!
Links that agree with a search. A link that is set once is used instead of a search, and walks set
more of them while others are used. Every link is what a search of the tree finds, so what a walk
comes to does not depend on the links that were there before it.
-/

set_option autoImplicit false

namespace Barrage

/-! ## Links by their kind -/

inductive LinkKind where
  | target
  | bullet
  | around

namespace NodeLinks

def link? (row : NodeLinks) : LinkKind → Option NodeId
  | .target => row.target?
  | .bullet => row.bullet?
  | .around => row.repeat?

def withLink (row : NodeLinks) (k : LinkKind) (j : NodeId) : NodeLinks :=
  match k with
  | .target => { row with target? := some j }
  | .bullet => { row with bullet? := some j }
  | .around => { row with repeat? := some j }

theorem link?_withLink_self (row : NodeLinks) (k : LinkKind) (j : NodeId) :
    (row.withLink k j).link? k = some j := by
  cases k <;> rfl

theorem link?_withLink_of_ne (row : NodeLinks) {k k' : LinkKind} (other : k ≠ k') (j : NodeId) :
    (row.withLink k j).link? k' = row.link? k' := by
  cases k <;> cases k' <;> first | rfl | exact absurd rfl other

theorem ext_link? {row row' : NodeLinks} (same : ∀ k, row.link? k = row'.link? k) : row = row' := by
  obtain ⟨target?, bullet?, repeat?⟩ := row
  obtain rfl : target? = _ := same .target
  obtain rfl : bullet? = _ := same .bullet
  obtain rfl : repeat? = _ := same .around
  rfl

end NodeLinks

namespace Links

def link? (l : Links) (i : NodeId) (k : LinkKind) : Option NodeId := (l.at? i).bind (·.link? k)

structure Adds (i : NodeId) (k : LinkKind) (j : NodeId) (l l' : Links) : Prop where
  size : l'.rows.size = l.rows.size
  self : l'.link? i k = some j
  others : ∀ {i' k'}, (i', k') ≠ (i, k) → l'.link? i' k' = l.link? i' k'

variable {l l' l'' : Links} {i j : NodeId} {k : LinkKind}

theorem adds_update (bound : i < l.rows.size) : Adds i k j l (l.update i (·.withLink k j)) where
  size := Array.size_modify
  self := by
    obtain ⟨row, atRow⟩ := Option.isSome_iff_exists.1 (at?_isSome bound)
    rw [link?, at?_update_self, atRow]
    exact row.link?_withLink_self k j
  others := by
    intro i' k' other
    rw [link?, link?]
    by_cases same : i = i'
    · subst same
      have otherKind : k ≠ k' := fun same => other (same ▸ rfl)
      rw [at?_update_self]
      cases l.at? i with
      | none => rfl
      | some row => exact row.link?_withLink_of_ne otherKind j
    · rw [at?_update_of_ne same]

theorem adds_self (there : l.link? i k = some j) : Adds i k j l l :=
  ⟨rfl, there, fun _ => rfl⟩

def Within (l l' : Links) : Prop := ∀ i k j, l.link? i k = some j → l'.link? i k = some j

theorem Within.refl (l : Links) : Within l l := fun _ _ _ => id

theorem Within.trans (first : Within l l') (next : Within l' l'') : Within l l'' :=
  fun i k j found => next i k j (first i k j found)

theorem Within.antisymm (within : Within l l') (back : Within l' l)
    (size : l.rows.size = l'.rows.size) : l = l' := by
  have same : ∀ i k, l.link? i k = l'.link? i k := by
    intro i k
    cases here : l.link? i k with
    | some j => exact (within i k j here).symm
    | none =>
      cases there : l'.link? i k with
      | none => rfl
      | some j => exact absurd (here.symm.trans (back i k j there)) (by simp)
  have rows : l.rows = l'.rows := by
    refine Array.ext size fun i bound bound' => NodeLinks.ext_link? fun k => ?_
    have row : l.at? i = some l.rows[i] := Array.getElem?_eq_getElem bound
    have row' : l'.at? i = some l'.rows[i] := Array.getElem?_eq_getElem bound'
    simpa [link?, row, row'] using same i k
  cases l
  cases l'
  exact congrArg Links.mk rows

theorem link?_blank (size : Nat) (i : NodeId) (k : LinkKind) : (blank size).link? i k = none := by
  rw [link?, at?, blank, Array.getElem?_replicate]
  split
  · cases k <;> rfl
  · rfl

end Links

/-! ## What a search finds -/

namespace Tree

def soughtTarget? (t : Tree) (i : NodeId) : Option NodeId :=
  (t.lookUp ((t.node? i).getD default)).toOption.map (·.target)

/-- The bullet inside a node, or the one that the first bullet reference inside it names. -/
def soughtBullet? (t : Tree) (i : NodeId) : Option NodeId :=
  match t.child? i .bullet with
  | some bullet => some bullet
  | none => (t.child? i .bulletRef).bind t.soughtTarget?

/-- What belongs into a link of a node if the tree is searched for it. -/
def sought? (t : Tree) (i : NodeId) : LinkKind → Option NodeId
  | .target => t.soughtTarget? i
  | .bullet => if t.kind? i = some .fire then t.soughtBullet? i else none
  | .around =>
    if t.kind? i = some .action ∨ t.kind? i = some .actionRef then
      (t.parent? i).filter (t.hasKind .repeat)
    else none

end Tree

/-- Every link is what a search finds. -/
structure Links.Faithful (t : Tree) (l : Links) : Prop where
  size : l.rows.size = t.size
  sought : ∀ {i k j}, l.link? i k = some j → t.sought? i k = some j

namespace Links

variable {t : Tree} {l l' : Links} {i j : NodeId} {k : LinkKind}

theorem faithful_blank (t : Tree) : (blank t.size).Faithful t where
  size := Array.size_replicate
  sought found := by
    rw [link?_blank] at found
    cases found

theorem Adds.faithful (adds : Adds i k j l l') (faithful : l.Faithful t)
    (sought : t.sought? i k = some j) : l'.Faithful t where
  size := adds.size.trans faithful.size
  sought := by
    intro i' k' j' found
    by_cases same : (i', k') = (i, k)
    · cases same
      exact sought.trans (adds.self.symm.trans found)
    · rw [adds.others same] at found
      exact faithful.sought found

theorem Adds.within (adds : Adds i k j l l') (faithful : l.Faithful t)
    (sought : t.sought? i k = some j) : Within l l' := by
  intro i' k' j' found
  by_cases same : (i', k') = (i, k)
  · cases same
    exact adds.self.trans (sought.symm.trans (faithful.sought found))
  · rwa [adds.others same]

theorem Faithful.sound (faithful : l.Faithful t) : l.Sound t := by
  have names : ∀ {i target}, t.soughtTarget? i = some target → t.Names i target := by
    intro i target found
    obtain ⟨r, looked, rfl⟩ := Option.map_eq_some_iff.1 found
    cases result : t.lookUp ((t.node? i).getD default) with
    | error e =>
      rw [result] at looked
      cases looked
    | ok r' =>
      rw [result] at looked
      obtain rfl := Option.some.inj looked
      exact Tree.names_of_lookUp result
  constructor
  · intro i target found
    exact names (faithful.sought (k := .target) found)
  · intro i bullet found
    have sought := faithful.sought (k := .bullet) found
    simp only [Tree.sought?, Option.ite_none_right_eq_some] at sought
    obtain ⟨-, sought⟩ := sought
    unfold Tree.soughtBullet? at sought
    split at sought
    · next c inside =>
      obtain rfl := Option.some.inj sought
      exact Tree.kind?_of_child? inside
    · obtain ⟨r, inside, target⟩ := Option.bind_eq_some_iff.1 sought
      exact (names target).isBullet (Tree.kind?_of_child? inside)

end Links

/-! ## Resolving -/

namespace Tree

variable {t : Tree} {i : NodeId} {l l' : Linking}

theorem soughtTarget?_eq_some {r : Resolution}
    (found : t.lookUp ((t.node? i).getD default) = .ok r) :
    t.soughtTarget? i = some r.target := by
  rw [soughtTarget?, found]
  rfl

theorem lt_size_of_lookUp {r : Resolution}
    (found : t.lookUp ((t.node? i).getD default) = .ok r) : i < t.size := by
  obtain ⟨n, -, -, -, atNode, -⟩ := names_of_lookUp found
  exact lt_size_of_node? atNode

theorem resolve_ok (faithful : l.links.Faithful t) {r : Resolution}
    (found : t.lookUp ((t.node? i).getD default) = .ok r) :
    (t.resolve i l).1 = .ok r.target ∧
      Links.Adds i .target r.target l.links (t.resolve i l).2.links := by
  unfold resolve
  split
  · next target linked =>
    have sought := faithful.sought (k := .target) linked
    obtain rfl := Option.some.inj (sought.symm.trans (soughtTarget?_eq_some found))
    exact ⟨rfl, Links.adds_self linked⟩
  · rw [found]
    exact ⟨rfl, Links.adds_update (faithful.size ▸ lt_size_of_lookUp found)⟩

theorem resolve_error (faithful : l.links.Faithful t) {e : ReferenceError}
    (failed : t.lookUp ((t.node? i).getD default) = .error e) :
    t.resolve i l = (.error e, l) := by
  unfold resolve
  split
  · next target linked =>
    have sought := faithful.sought (k := .target) linked
    rw [sought?, soughtTarget?, failed] at sought
    cases sought
  · rw [failed]

/-! ## Walks side by side -/

/-- Two walks of a tree keep in step: they have counted the same, all their links are what a search
finds, and the second one has kept the links that it began with and only added ones that the first
one has too. -/
structure InStep (t : Tree) (began : Links) (w w' : Walk) : Prop where
  stats : w.stats = w'.stats
  first : w.links.Faithful t
  second : w'.links.Faithful t
  kept : began.Within w'.links
  added : ∀ i k j, w'.links.link? i k = some j →
    began.link? i k = some j ∨ w.links.link? i k = some j

variable {began : Links} {w w' v v' : Walk}

theorem InStep.adds {k : LinkKind} {j : NodeId} (inStep : InStep t began w w')
    (sought : t.sought? i k = some j) (adds : Links.Adds i k j w.links v.links)
    (adds' : Links.Adds i k j w'.links v'.links) (stats : v.stats = v'.stats) :
    InStep t began v v' where
  stats := stats
  first := adds.faithful inStep.first sought
  second := adds'.faithful inStep.second sought
  kept := inStep.kept.trans (adds'.within inStep.second sought)
  added := by
    intro i' k' j' found
    by_cases same : (i', k') = (i, k)
    · cases same
      obtain rfl := Option.some.inj (adds'.self.symm.trans found)
      exact .inr adds.self
    · rw [adds'.others same] at found
      rw [adds.others same]
      exact inStep.added i' k' j' found

abbrev Alike (t : Tree) (began : Links) (x : Validating Unit) : Prop :=
  Together (InStep t began) x.run x.run

theorem run_linkTarget (w : Walk) :
    (t.linkTarget i).run.run w = match t.resolve i w.toLinking with
      | (.error e, l) => (.error (.reference e), { w with toLinking := l })
      | (.ok _, l) =>
        (.ok (), { w with toLinking := l, stats.references := w.stats.references + 1 }) := by
  let look : Walk → Except ReferenceError NodeId × Walk := fun w =>
    ((t.resolve i w.toLinking).1, { w with toLinking := (t.resolve i w.toLinking).2 })
  have looked : (modifyGet look : Validating _).run.run w = (.ok (look w).1, (look w).2) := rfl
  unfold linkTarget
  refine (Ends.run_eq_bind (modifyGet look) _ w).trans ?_
  rw [looked]
  dsimp only [look]
  rcases t.resolve i w.toLinking with ⟨_ | target, l⟩ <;> rfl

theorem alike_linkTarget : Alike t began (t.linkTarget i) := by
  intro w w' inStep
  rw [run_linkTarget, run_linkTarget]
  cases found : t.lookUp ((t.node? i).getD default) with
  | error e =>
    rw [resolve_error inStep.first found, resolve_error inStep.second found]
    exact ⟨rfl, inStep⟩
  | ok r =>
    obtain ⟨same, adds⟩ := resolve_ok inStep.first found
    obtain ⟨same', adds'⟩ := resolve_ok inStep.second found
    generalize t.resolve i w.toLinking = result at same adds ⊢
    generalize t.resolve i w'.toLinking = result' at same' adds' ⊢
    obtain ⟨outcome, l⟩ := result
    obtain ⟨outcome', l'⟩ := result'
    obtain rfl : outcome = _ := same
    obtain rfl : outcome' = _ := same'
    refine ⟨rfl, inStep.adds (k := .target) (soughtTarget?_eq_some found) adds adds' ?_⟩
    dsimp only
    rw [inStep.stats]

theorem alike_linkRepeat (isAction : t.kind? i = some .action ∨ t.kind? i = some .actionRef) :
    Alike t began (t.linkRepeat i) := by
  intro w w' inStep
  unfold linkRepeat
  cases above : t.parent? i with
  | none => exact ⟨rfl, inStep⟩
  | some p =>
    dsimp only
    split
    · next isRepeat =>
      have sought : t.sought? i .around = some p := by
        rw [sought?, if_pos isAction, above]
        simp [hasKind, isRepeat]
      have bound : i < t.size := isAction.elim lt_size_of_kind? lt_size_of_kind?
      exact ⟨rfl, inStep.adds sought (Links.adds_update (inStep.first.size ▸ bound))
        (Links.adds_update (inStep.second.size ▸ bound)) inStep.stats⟩
    · exact ⟨rfl, inStep⟩

/-- Once the bullet references inside a fire are linked, its bullet is the one that a search finds.
-/
theorem bulletFor?_eq {l : Links} (faithful : l.Faithful t)
    (linked : ∀ r, t.child? i .bulletRef = some r → (l.target? r).isSome) :
    t.bulletFor? l i = t.soughtBullet? i := by
  unfold bulletFor? soughtBullet?
  cases t.child? i .bullet with
  | some bullet => rfl
  | none =>
    dsimp only
    cases inside : t.child? i .bulletRef with
    | none => rfl
    | some r =>
      obtain ⟨target, set⟩ := Option.isSome_iff_exists.1 (linked r inside)
      exact set.trans (faithful.sought (k := .target) set).symm

/-- The bullet of a fire is chosen as a search would choose it, once the bullet references inside it
are linked. -/
theorem run_linkBullet {w : Walk} (faithful : w.links.Faithful t)
    (linked : ∀ r, t.child? i .bulletRef = some r → (w.links.target? r).isSome) :
    (t.linkBullet i).run.run w = match t.soughtBullet? i with
      | none => (.error (.missingBullet (t.spanOf i)), w)
      | some bullet => (.ok (), { w with
          links := w.links.setBullet i bullet, stats.fires := w.stats.fires + 1 }) := by
  rw [← bulletFor?_eq faithful linked]
  unfold linkBullet
  rw [Ends.run_eq_bind]
  have got : (get : Validating Walk).run.run w = (.ok w, w) := rfl
  rw [got]
  dsimp only
  cases t.bulletFor? w.links i <;> rfl

theorem alike_children (cs : List { c : NodeId // i < c ∧ c < t.size })
    (each : ∀ c ∈ cs, Alike t began (t.validateNode c)) :
    Alike t began (cs.forM fun ⟨c, _⟩ => t.validateNode c) := by
  induction cs with
  | nil => exact Together.pure _
  | cons c rest ih =>
    exact Together.bindExcept (each c List.mem_cons_self) fun _ =>
      ih fun d inside => each d (List.mem_cons_of_mem _ inside)

theorem alike_fire (isFire : t.kind? i = some .fire)
    (children : Alike t began ((t.childrenAbove i).forM fun ⟨c, _⟩ => t.validateNode c)) :
    Alike t began (do
      (t.childrenAbove i).forM fun ⟨c, _⟩ => t.validateNode c
      t.linkBullet i) := by
  have linked : ∀ {w v : Walk}, w.links.Faithful t →
      Ends ((t.childrenAbove i).forM fun ⟨c, _⟩ => t.validateNode c) w () v →
      ∀ r, t.child? i .bulletRef = some r → (v.links.target? r).isSome := by
    intro w v faithful ended r inside
    obtain ⟨-, covers⟩ := settles_below (by simp [isFire])
      (fun c above => settles_validateNode t c above.2) w v faithful.size faithful.sound ended
    obtain ⟨n, atNode, isRef⟩ := Option.map_eq_some_iff.1 (kind?_of_child? inside)
    exact covers.target ⟨r, List.mem_of_find?_eq_some inside, .self r⟩ atNode (by rw [isRef]; rfl)
  refine Together.bindEnds children fun inStep ended ended' after => ?_
  rw [run_linkBullet after.first (linked inStep.first ended),
    run_linkBullet after.second (linked inStep.second ended')]
  cases chosen : t.soughtBullet? i with
  | none => exact ⟨rfl, after⟩
  | some bullet =>
    have sought : t.sought? i .bullet = some bullet := (if_pos isFire).trans chosen
    have bound := lt_size_of_kind? isFire
    refine ⟨rfl, after.adds sought (Links.adds_update (after.first.size ▸ bound))
      (Links.adds_update (after.second.size ▸ bound)) ?_⟩
    dsimp only
    rw [after.stats]

theorem alike_validateNode (t : Tree) (began : Links) (i : NodeId) :
    Alike t began (t.validateNode i) := by
  have children : Alike t began ((t.childrenAbove i).forM fun ⟨c, _⟩ => t.validateNode c) :=
    alike_children _ fun c _ => alike_validateNode t began c
  have counted : Alike t began
      (modify fun w => { w with stats.nodes := w.stats.nodes + 1 }) := by
    intro w w' inStep
    exact ⟨rfl, { inStep with stats := congrArg (fun s : ValidationStats =>
      { s with nodes := s.nodes + 1 }) inStep.stats }⟩
  rw [validateNode]
  refine counted.bindExcept fun _ => ?_
  -- an action, an action reference, a fire reference, a fire, a bullet reference, and all others
  split
  · next kind => exact (alike_linkRepeat (.inl kind)).bindExcept fun _ => children
  · next kind =>
    exact (alike_linkRepeat (.inr kind)).bindExcept fun _ =>
      children.bindExcept fun _ => alike_linkTarget
  · exact alike_linkTarget
  · next kind => exact alike_fire kind children
  · exact children.bindExcept fun _ => alike_linkTarget
  · exact children
termination_by t.size - i
decreasing_by exact Nat.sub_lt_sub_left (Nat.lt_trans c.2.1 c.2.2) c.2.1

end Tree

end Barrage
