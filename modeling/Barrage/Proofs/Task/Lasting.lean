import Barrage.Proofs.Task.Growth
import Barrage.Proofs.Task.Termination

/-!
What lasts while tasks are started, reset and run. Only how far tasks are changes then; what was
settled when they were made stays, so the list of all tasks is the same tree at any time.
-/

set_option autoImplicit false

namespace Barrage

variable {F σ α β : Type}

/-! ## Tasks and their entries -/

namespace Slot

def entry (id : Nat) (s : Slot F) : Entry F where
  node := s.node
  args := s.args
  role := s.work.role id s.children
  owner? := s.owner?
  children := s.children

def entries (slots : List (Slot F)) : List (Entry F) := slots.mapIdx entry

mutual

theorem entries_ofCell (index : Nat) (owner? : Option Nat) : (p : Plan F) → (cell : Cell F p) →
    (ofCell index owner? p cell).mapIdx (fun k s => s.entry (index + k)) =
      Entry.ofPlan index owner? p
  | .mk node args work children, .mk finished progress below => by
    have below' := entries_ofCells (index + 1) (some index) children below
    simp only [Nat.add_right_comm index 1] at below'
    rw [ofCell, List.mapIdx_cons, Entry.ofPlan, ← below']
    rfl

theorem entries_ofCells (index : Nat) (owner? : Option Nat) : (ps : List (Plan F)) →
    (below : Cells F ps) →
    (ofCells index owner? ps below).mapIdx (fun k s => s.entry (index + k)) =
      Entry.ofPlans index owner? ps
  | [], .nil => rfl
  | p :: ps, .cons head tail => by
    have tail' := entries_ofCells (index + p.size) owner? ps tail
    simp only [Nat.add_assoc, Nat.add_comm p.size] at tail'
    rw [ofCells, List.mapIdx_append, Entry.ofPlans, entries_ofCell index owner? p head,
      length_ofCell, tail']

end

theorem entries_slots {p : Plan F} (cell : Cell F p) :
    entries cell.slots = Entry.ofPlan 0 none p := by
  have ofCell := entries_ofCell 0 none p cell
  simp only [Nat.zero_add] at ofCell
  exact ofCell

theorem entry_counted? {id : Nat} {s s' : Slot F} (counted : s.counted? = some s') :
    s'.entry id = s.entry id := by
  unfold counted? at counted
  split at counted
  · split at counted
    · cases counted
      rfl
    · cases counted
  · cases counted
    rfl

end Slot

namespace Machine

def entries (m : Machine F σ) : List (Entry F) := Slot.entries m.slots

/-! ## Computations that keep it -/

/-- A computation leaves all entries as they are, and gives only results of some kind. -/
def Keeps (entries : List (Entry F)) (x : Machining F σ α) (result : α → Prop) : Prop :=
  ∀ m a m', m.entries = entries → Halts x m a m' → m'.entries = entries ∧ result a

namespace Keeps

variable {entries : List (Entry F)} {x : Machining F σ α} {f : α → Machining F σ β}
  {between : α → Prop} {result : β → Prop}

theorem pure {result : α → Prop} {a : α} (holds : result a) :
    Keeps (σ := σ) entries (pure a) result := by
  intro m b m' same halts
  cases halts
  exact ⟨same, holds⟩

theorem failure {result : α → Prop} : Keeps (σ := σ) entries failure result :=
  fun _ _ _ _ halts => nomatch halts

theorem bind (first : Keeps entries x between)
    (next : ∀ a, between a → Keeps entries (f a) result) : Keeps entries (x >>= f) result := by
  intro m b m' same halts
  rw [Halts, StateT.run_bind] at halts
  obtain ⟨⟨a, m₁⟩, ended, halts⟩ := Option.bind_eq_some_iff.1 halts
  obtain ⟨same, holds⟩ := first m a m₁ same ended
  exact next a holds m₁ b m' same halts

theorem slotAt (id : Nat) :
    Keeps (σ := σ) entries (slotAt id) fun s => entries[id]? = some (s.entry id) := by
  rintro m s m' rfl halts
  obtain ⟨s', found, same⟩ := Option.map_eq_some_iff.1 halts
  cases same
  refine ⟨rfl, ?_⟩
  rw [Machine.entries, Slot.entries, List.getElem?_mapIdx, found]
  rfl

theorem store {id : Nat} {s : Slot F} (known : entries[id]? = some (s.entry id)) :
    Keeps (σ := σ) entries (store id s) fun _ => True := by
  rintro m _ m' rfl halts
  cases halts
  refine ⟨List.ext_getElem? fun k => ?_, trivial⟩
  rw [Machine.entries, Slot.entries, List.getElem?_mapIdx] at known ⊢
  rw [Machine.entries, Slot.entries, List.getElem?_mapIdx, List.getElem?_set]
  split
  · next same =>
    subst same
    rw [known]
    obtain ⟨s', found, -⟩ := Option.map_eq_some_iff.1 known
    rw [if_pos (List.getElem?_eq_some_iff.1 found).1]
    rfl
  · rfl

theorem acting (x : Acting F σ α) : Keeps entries (acting x) fun _ => True := by
  rintro m a m' rfl halts
  cases halts
  exact ⟨rfl, trivial⟩

theorem forM {γ : Type} {f : γ → Machining F σ Unit} {cs : List γ}
    (each : ∀ c ∈ cs, Keeps entries (f c) fun _ => True) :
    Keeps entries (cs.forM f) fun _ => True := by
  induction cs with
  | nil => exact .pure trivial
  | cons c cs ih =>
    exact (each c List.mem_cons_self).bind fun _ _ =>
      ih fun d member => each d (List.mem_cons_of_mem _ member)

theorem frames (scope : Frames F) (fuel : Nat) (id? : Option Nat) :
    Keeps (σ := σ) entries (frames scope fuel id?) fun _ => True := by
  induction fuel generalizing id? with
  | zero =>
    cases id? with
    | none => exact .pure trivial
    | some id => exact .failure
  | succ fuel ih =>
    cases id? with
    | none => exact .pure trivial
    | some id => exact (slotAt id).bind fun s _ => (ih s.owner?).bind fun _ _ => .pure trivial

variable [Scalar F] (h : Host F σ) (scope : Frames F)

theorem prepare (fuel id : Nat) : Keeps entries (prepare h scope fuel id) fun _ => True :=
  (slotAt id).bind fun _ known => (frames scope fuel (some id)).bind fun _ _ =>
    (acting _).bind fun _ _ => store known

theorem reset (fuel id : Nat) : Keeps entries (reset h scope fuel id) fun _ => True := by
  induction fuel generalizing id with
  | zero => exact .failure
  | succ fuel ih =>
    exact (slotAt id).bind fun s known => (store (s := s.rewound) known).bind fun _ _ =>
      (forM fun c _ => ih c).bind fun _ _ => prepare h scope fuel id

theorem start (fuel id : Nat) : Keeps entries (start h scope fuel id) fun _ => True := by
  induction fuel generalizing id with
  | zero => exact .failure
  | succ fuel ih =>
    refine (slotAt id).bind fun s known => ?_
    split
    · exact reset h scope (fuel + 1) id
    · exact (store (s := s.marked false) known).bind fun _ _ =>
        (forM fun c _ => ih c).bind fun _ _ => prepare h scope fuel id

omit [Scalar F]

theorem mark (finished : Bool) {r : Status} (id : Nat) :
    Keeps (σ := σ) entries
      (do let s ← Machine.slotAt id; Machine.store id (s.marked finished); Pure.pure r)
      fun _ => True :=
  (slotAt id).bind fun s known =>
    (store (s := s.marked finished) known).bind fun _ _ => .pure trivial

theorem runInOrder {run : Nat → Machining F σ Status}
    (each : ∀ id, Keeps entries (run id) fun _ => True) (id : Nat) (children : List Nat)
    (clear : Bool) : Keeps entries (runInOrder run id children clear) fun _ => True := by
  induction children generalizing clear with
  | nil => exact mark clear id
  | cons c cs ih =>
    refine (slotAt c).bind fun s _ => ?_
    split
    · exact ih clear
    · refine (each c).bind fun status _ => ?_
      cases status with
      | waiting => exact mark false id
      | _ => exact ih _

theorem loop {body : Machining F σ Status} {again : Machining F σ Unit}
    (ofBody : Keeps entries body fun _ => True) (ofAgain : Keeps entries again fun _ => True)
    (id fuel : Nat) : Keeps entries (loop body again id fuel) fun _ => True := by
  induction fuel with
  | zero => exact .failure
  | succ fuel ih =>
    refine (slotAt id).bind fun s _ => ?_
    split
    · exact mark true id
    · split
      · exact mark true id
      · refine ofBody.bind fun status _ => ?_
        cases status with
        | done =>
          refine (slotAt id).bind fun s known => ?_
          split
          · exact .failure
          · next s' counted =>
            have same : entries[id]? = some (s'.entry id) := by
              rw [Slot.entry_counted? counted]
              exact known
            exact (store same).bind fun _ _ => ofAgain.bind fun _ _ => ih
        | _ => exact .pure trivial

theorem holders (s : Slot F) : Keeps (σ := σ) entries (holders s) fun _ => True := by
  unfold Machine.holders
  split
  · exact .pure trivial
  · exact (slotAt _).bind fun _ _ => .pure trivial

variable [Scalar F]

theorem runAlone (env : Env F σ) (fuel id : Nat) :
    Keeps entries (runAlone env scope fuel id) fun _ => True := by
  refine (slotAt id).bind fun s known => (frames scope fuel (some id)).bind fun _ _ =>
    (holders s).bind fun _ _ => (acting _).bind fun r _ => ?_
  refine Keeps.bind (store ?_) fun _ _ => .pure trivial
  exact known

theorem run (env : Env F σ) (fuel id : Nat) :
    Keeps entries (run env scope fuel id) fun _ => True := by
  induction fuel generalizing id with
  | zero => exact .failure
  | succ fuel ih =>
    refine (slotAt id).bind fun s _ => ?_
    have inOrder := runInOrder ih id s.children true
    split
    · exact inOrder
    · exact inOrder
    · exact loop inOrder (forM fun c _ => start env.host scope fuel c) id fuel
    · exact runAlone scope env fuel id

end Keeps

/-! ## What is reached -/

/-- What tasks come to by starting, resetting and running any of them, in any order, while the
entity, the world and the journal may also change otherwise. -/
inductive Reached [Scalar F] (first : Machine F σ) : Machine F σ → Prop where
  | here : Reached first first
  | start {m m' : Machine F σ} (reached : Reached first m) (h : Host F σ) (scope : Frames F)
      {fuel id : Nat} (halts : Halts (start h scope fuel id) m () m') : Reached first m'
  | reset {m m' : Machine F σ} (reached : Reached first m) (h : Host F σ) (scope : Frames F)
      {fuel id : Nat} (halts : Halts (reset h scope fuel id) m () m') : Reached first m'
  | run {m m' : Machine F σ} (reached : Reached first m) (env : Env F σ) (scope : Frames F)
      {fuel id : Nat} {status : Status} (halts : Halts (run env scope fuel id) m status m') :
      Reached first m'
  | apart {m : Machine F σ} (reached : Reached first m) (a : Actor F σ) :
      Reached first { m with actor := a }

theorem Reached.entries [Scalar F] {first m : Machine F σ} (reached : Reached first m) :
    m.entries = first.entries := by
  induction reached with
  | here => rfl
  | start _ h scope halts ih => exact (Keeps.start h scope _ _ _ _ _ ih halts).1
  | reset _ h scope halts ih => exact (Keeps.reset h scope _ _ _ _ _ ih halts).1
  | run _ env scope halts ih => exact (Keeps.run scope env _ _ _ _ _ ih halts).1
  | apart _ _ ih => exact ih

end Machine

/-! ## Trees of tasks -/

/-- A list of tasks is a tree, of which the first task is the root. Each other task is listed once
below a task before it, which owns it, and nowhere else. -/
structure Entry.Arena (nodes : Nat) (entries : List (Entry F)) : Prop where
  root : ∃ e, entries[0]? = some e ∧ e.owner? = none
  owned : ∀ (id : Nat) (e : Entry F), entries[id]? = some e → 0 < id →
    ∃ owner < id, e.owner? = some owner ∧ ∀ (k : Nat) (above : Entry F), entries[k]? = some above →
      above.children.count id = if k = owner then 1 else 0
  below : ∀ (id : Nat) (e : Entry F), entries[id]? = some e → ∀ c ∈ e.children,
    id < c ∧ c < entries.length
  increasing : ∀ e ∈ entries, e.children.Pairwise (· < ·)
  node : ∀ e ∈ entries, e.node < nodes
  named : ∀ (id : Nat) (e : Entry F), entries[id]? = some e → ∀ c ∈ e.role.contexts,
    c = id ∨ c ∈ e.children

theorem Entry.IsTree.arena {nodes : Nat} {entries : List (Entry F)} (tree : IsTree nodes entries)
    (nonempty : 0 < entries.length) : Arena nodes entries where
  root := by
    refine ⟨entries[0], List.getElem?_eq_getElem nonempty, ?_⟩
    exact (tree 0 _ (List.getElem?_eq_getElem nonempty)).top.2 rfl
  owned := by
    intro id e found positive
    have fits := tree id e found
    obtain ⟨owner, owned⟩ := Option.ne_none_iff_exists'.1
      (mt fits.top.1 (Nat.ne_of_gt positive))
    refine ⟨owner, fits.above owner owned, owned, fun k above known => ?_⟩
    have ofId : ownerOf? entries id = some owner := Option.bind_eq_some_iff.2 ⟨e, found, owned⟩
    have lists := (tree k above known).below id
    rw [ofId, Option.some.injEq] at lists
    have once : above.children.Nodup := (tree k above known).increasing.imp Nat.ne_of_lt
    rw [once.count]
    simp only [lists, eq_comm]
  below := by
    intro id e found c inside
    have owned := ((tree id e found).below c).1 inside
    obtain ⟨d, known, above⟩ := Option.bind_eq_some_iff.1 owned
    exact ⟨(tree c d known).above id above, lt_of_ownerOf? owned⟩
  increasing := by
    intro e inside
    obtain ⟨id, found⟩ := List.mem_iff_getElem?.1 inside
    exact (tree id e found).increasing
  node := by
    intro e inside
    obtain ⟨id, found⟩ := List.mem_iff_getElem?.1 inside
    exact (tree id e found).node
  named id e found := (tree id e found).named

theorem Plan.Inside.forms {p : Pattern} (within : p.Within) :
    Plan.Forms p (Plan.Inside (F := F) p.tree.size) := by
  have there : ∀ {i : NodeId}, p.Mentions i → i < p.tree.size := by
    rintro i (inside | ⟨r, linked⟩)
    · exact inside
    · exact within r i linked
  refine ⟨fun mentioned _ each => .mk (there mentioned) each,
    fun mentioned _ => .mk (there mentioned) (List.forall_mem_nil _), ?_⟩
  rintro ⟨node, args, work, children⟩ mentioned _ each
  exact .mk (there mentioned) each

/-- Take the tasks of a plan that is made for a node of a pattern. Adding them to a list one by one
comes to the same list. It is a tree, has nodes of the pattern only, and names for each fire only
the fire itself and tasks below it. However far the tasks are, and whatever is started, reset and
run after that, the list has the same nodes, owners, arguments, numbers of passes, and tasks below
each task. -/
theorem Plan.arena_lasts [Scalar F] {p : Pattern} (within : p.Within) {i : NodeId}
    (inside : i < p.tree.size) {h : Host F σ} {scope : Frames F} {plan : Plan F} {s s' : Stage σ}
    (built : (Plan.build h p scope i).run s = (.ok plan, s')) :
    (Growth.build p h scope i).run s = (.ok (Entry.ofPlan 0 none plan), s') ∧
    ∀ (cell : Cell F plan) {τ : Type} (a : Actor F τ) (m : Machine F τ),
      Machine.Reached ⟨cell.slots, a⟩ m →
        m.entries = Entry.ofPlan 0 none plan ∧ Entry.Arena p.tree.size m.entries := by
  constructor
  · rw [Growth.build_eq]
    change ((((Plan.build h p scope i).run s).1.map _, ((Plan.build h p scope i).run s).2)) = _
    rw [built]
    rfl
  · intro cell τ a m reached
    have same : m.entries = Entry.ofPlan 0 none plan :=
      reached.entries.trans (Slot.entries_slots cell)
    obtain ⟨below, rfl, each⟩ := Plan.holds_of_build (Plan.Inside.forms within) built
    have tree : Entry.IsTree p.tree.size m.entries := same ▸ .ofPlan (.mk inside each)
    refine ⟨same, tree.arena ?_⟩
    rw [same, Entry.length_ofPlan]
    exact Plan.size_pos _

open Machine in
open scoped Sample in
/-- The tasks of a fire with two bullets, before and after they are started. -/
theorem Load.arena_lasts_twins : ∃ (p : Pattern) (j' : Journal), Ends (pattern {} twins) {} p j' ∧
    let plan : Plan Int := .mk 1 [] .sequence [twinsFire p.tree]
    let a : Actor Int Unit := { toStage := Sample.stage, entity := Sample.entity }
    p.Within ∧ 1 < p.tree.size ∧
    (Plan.build Sample.host p [] 1).run Sample.stage = (.ok plan, Sample.stage) ∧
    (Growth.build p Sample.host [] 1).run Sample.stage
      = (.ok (Entry.ofPlan 0 none plan), Sample.stage) ∧
    ∃ m : Machine Int Unit,
      Halts (start Sample.host [] (plan.effort 0) 0) ⟨plan.blank.slots, a⟩ () m ∧
      m.entries = Entry.ofPlan 0 none plan ∧ Entry.Arena p.tree.size m.entries := by
  cases result : (pattern {} twins).run.run {} with
  | mk outcome j' =>
    have loads : (((pattern {} twins).run.run {}).1.toOption).isSome := by decide +kernel
    have found : ((((pattern {} twins).run.run {}).1.toOption).all fun p =>
        p.tree.children 1 = [2] ∧ p.tree.kind? 2 = some .fire ∧ p.tree.children 2 = [3, 4] ∧
        p.tree.kind? 3 = some .bullet ∧ p.tree.kind? 4 = some .bullet) = true := by
      decide +kernel
    rw [result] at loads found
    cases outcome with
    | error e => cases loads
    | ok p =>
      simp only [Except.toOption, Option.all_some, decide_eq_true_eq] at found
      obtain ⟨below, fire, twin, first, second⟩ := found
      have inside : 1 < p.tree.size := Nat.lt_trans (by decide) (Tree.lt_size_of_kind? fire)
      have within := within_of_pattern result (Nat.zero_lt_of_lt inside)
      have built := build_twins below fire twin first second
      obtain ⟨grown, lasts⟩ := Plan.arena_lasts within inside built
      obtain ⟨cell, a', halts⟩ := Plan.halts_at (Nat.le_refl _)
        (fun c _ _ _ _ inScope enough after a =>
          ⟨_, _, halts_start Sample.host _ c inScope enough after a⟩)
        (Plan.blank (.mk 1 [] .sequence [twinsFire p.tree]))
        { toStage := Sample.stage, entity := Sample.entity } (Plan.size_pos _)
      refine ⟨p, j', result, within, inside, built, grown, _, halts, ?_⟩
      exact lasts _ _ _ (.start .here Sample.host [] halts)

end Barrage
