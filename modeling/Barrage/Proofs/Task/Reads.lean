import Barrage.Task.Shot

/-!
What tasks read. The expressions of a task are those of its durations, goals and shots; of a plan
they are those of all its tasks.
-/

set_option autoImplicit false

namespace Barrage

variable {F : Type} {good : Expression → Prop}

structure ShotRule.Reads (good : Expression → Prop) (r : ShotRule) : Prop where
  first : ∀ v ∈ r.first?, good v.expression
  later : ∀ v ∈ r.later?, good v.expression

theorem ShotRule.reads_of_forall (all : ∀ e, good e) (r : ShotRule) : r.Reads good :=
  ⟨fun _ _ => all _, fun _ _ => all _⟩

theorem ShotRule.Reads.next {r : ShotRule} (reads : r.Reads good) {shots : Shots F} {v : ShotValue}
    {later : Bool} (next : shots.nextValue? r = some (v, later)) : good v.expression := by
  have first : (r.first?.map fun v => (v, false)) = some (v, later) → good v.expression := by
    intro found
    obtain ⟨w, known, same⟩ := Option.map_eq_some_iff.1 found
    cases same
    exact reads.first v known
  unfold Shots.nextValue? at next
  split at next
  · next w known =>
    split at next
    · cases next
      exact reads.later v known
    · exact first next
  · exact first next

def Work.Reads (good : Expression → Prop) : Work → Prop
  | .sequence | .again | .action _ | .vanish => True
  | .wait e => good e
  | .turn goal? term? | .glide goal? term? =>
    (∀ w ∈ goal?, good w.expression) ∧ ∀ e ∈ term?, good e
  | .accelerate horizontal? vertical? term? =>
    (∀ w ∈ horizontal?, good w.expression) ∧ (∀ w ∈ vertical?, good w.expression) ∧
      ∀ e ∈ term?, good e
  | .fire direction speed => direction.Reads good ∧ speed.Reads good

inductive Plan.Reads (good : Expression → Prop) : Plan F → Prop where
  | mk {node : NodeId} {args : List F} {work : Work} {children : List (Plan F)}
      (own : work.Reads good) (each : ∀ c ∈ children, Reads good c) :
      Reads good (.mk node args work children)

theorem Work.reads_of_forall (all : ∀ e, good e) (w : Work) : w.Reads good := by
  cases w <;> simp [Work.Reads, ShotRule.reads_of_forall, all]

theorem Plan.reads_of_forall (all : ∀ e, good e) : (p : Plan F) → p.Reads good
  | .mk _ _ work _ => .mk (work.reads_of_forall all) fun c _ => reads_of_forall all c

/-! ## Plans for the nodes of a tree -/

section Trees

variable {t : Tree} (all : ∀ i, good (t.expression i))

include all

theorem Tree.good_of_wanted? {i : NodeId} {kind : Kind} :
    ∀ w ∈ t.wanted? i kind, good w.expression := by
  intro w wanted
  obtain ⟨c, -, rfl⟩ := Option.map_eq_some_iff.1 wanted
  exact all c

theorem Tree.good_of_childExpression? {i : NodeId} {kind : Kind} :
    ∀ e ∈ t.childExpression? i kind, good e := by
  intro e found
  obtain ⟨c, -, rfl⟩ := Option.map_eq_some_iff.1 found
  exact all c

theorem Tree.reads_of_simpleWork? {i : NodeId} {work : Work}
    (simple : t.simpleWork? i = some work) : work.Reads good := by
  unfold Tree.simpleWork? at simple
  split at simple <;> cases simple
  · exact all i
  · exact ⟨good_of_wanted? all, good_of_childExpression? all⟩
  · exact ⟨good_of_wanted? all, good_of_childExpression? all⟩
  · exact ⟨good_of_wanted? all, good_of_wanted? all, good_of_childExpression? all⟩
  · trivial

theorem Tree.reads_shotRule (kind : Kind) (fire : NodeId) (bullet? : Option NodeId) :
    (t.shotRule kind fire bullet?).Reads good := by
  have each : ∀ v ∈ ((t.wanted? fire kind).map fun w => (⟨w, false⟩ : ShotValue)).toList ++
      ((bullet?.bind fun b => t.wanted? b kind).map fun w => (⟨w, true⟩ : ShotValue)).toList,
      good v.expression := by
    intro v inside
    rcases List.mem_append.1 inside with own | bullets
    · obtain ⟨w, wanted, rfl⟩ := Option.map_eq_some_iff.1 (Option.mem_toList.1 own)
      exact good_of_wanted? all w wanted
    · obtain ⟨w, wanted, rfl⟩ := Option.map_eq_some_iff.1 (Option.mem_toList.1 bullets)
      obtain ⟨b, -, wanted⟩ := Option.bind_eq_some_iff.1 wanted
      exact good_of_wanted? all w wanted
  exact ⟨fun v found => each v (List.mem_of_find?_eq_some found),
    fun v found => each v (List.mem_of_find?_eq_some found)⟩

end Trees

end Barrage
