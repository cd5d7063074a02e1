import Barrage.Proofs.Task.Expansion
import Barrage.Proofs.Task.Slots

/-!
What is settled about a task once it is made: its node, the task above it and the tasks below it,
its arguments, and what it does, which for a fire includes where each value of its shots is
computed. Tasks are added to a list one by one, each behind all others and as the last one below its
owner, and this keeps the list a tree.
-/

set_option autoImplicit false

namespace Barrage

variable {F : Type}

/-- A value of a shot, and the place of the task in whose scope it is computed. -/
structure Origin where
  wanted : Wanted
  context : Nat

/-- Where the direction or the speed of the first shot and of later shots comes from. -/
structure Origins where
  first? : Option Origin := none
  later? : Option Origin := none

inductive Role where
  | work (w : Work)
  /-- A fire knows the task that holds the arguments of its bullet. -/
  | fire (holder? : Option Nat) (direction speed : Origins)

structure Entry (F : Type) where
  node : NodeId
  args : List F
  role : Role
  owner? : Option Nat
  children : List Nat := []

namespace Origins

def contexts (o : Origins) : List Nat :=
  (o.first?.toList ++ o.later?.toList).map Origin.context

end Origins

def Role.contexts : Role → List Nat
  | .work _ => []
  | .fire holder? direction speed => holder?.toList ++ direction.contexts ++ speed.contexts

/-! ## Roles of planned tasks -/

section Planned

variable (fire : Nat) (holder? : Option Nat)

def ShotValue.origin (v : ShotValue) : Origin where
  wanted := v.toWanted
  context := if v.ofBullet then holder?.getD fire else fire

def ShotRule.origins (r : ShotRule) : Origins where
  first? := r.first?.map (·.origin fire holder?)
  later? := r.later?.map (·.origin fire holder?)

end Planned

def Work.role (id : Nat) (children : List Nat) : Work → Role
  | .fire direction speed =>
    .fire children.getLast? (direction.origins id children.getLast?)
      (speed.origins id children.getLast?)
  | w => .work w

theorem Work.role_of_not_fires {w : Work} (quiet : w.fires = false) (id : Nat)
    (children : List Nat) : w.role id children = .work w := by
  cases w <;> first | rfl | cases quiet

theorem ShotRule.context_of_origins {fire c : Nat} {holder? : Option Nat} {r : ShotRule}
    (inside : c ∈ (r.origins fire holder?).contexts) : c = fire ∨ c ∈ holder? := by
  have each : ∀ v : ShotValue, (v.origin fire holder?).context = fire ∨
      (v.origin fire holder?).context ∈ holder? := by
    intro v
    unfold ShotValue.origin
    split
    · cases holder? with
      | none => exact .inl rfl
      | some holder => exact .inr rfl
    · exact .inl rfl
  obtain ⟨o, listed, rfl⟩ := List.mem_map.1 inside
  rcases List.mem_append.1 listed with first | later
  · obtain ⟨v, -, rfl⟩ := Option.map_eq_some_iff.1 (Option.mem_toList.1 first)
    exact each v
  · obtain ⟨v, -, rfl⟩ := Option.map_eq_some_iff.1 (Option.mem_toList.1 later)
    exact each v

theorem Work.context_of_role {id c : Nat} {children : List Nat} {w : Work}
    (inside : c ∈ (w.role id children).contexts) : c = id ∨ c ∈ children := by
  have last : c ∈ children.getLast? → c ∈ children := fun last => List.mem_of_getLast? last
  cases w with
  | fire direction speed =>
    rcases List.mem_append.1 inside with before | ofSpeed
    · rcases List.mem_append.1 before with holder | ofDirection
      · exact .inr (last (Option.mem_toList.1 holder))
      · exact (ShotRule.context_of_origins ofDirection).imp_right last
    · exact (ShotRule.context_of_origins ofSpeed).imp_right last
  | _ => cases inside

namespace Entry

/-! ## Lists of entries -/

/-- A task has further ones below it. -/
def adopt (owner? : Option Nat) (further : List Nat) (entries : List (Entry F)) : List (Entry F) :=
  match owner? with
  | none => entries
  | some owner => entries.modify owner fun e => { e with children := e.children ++ further }

def push (entries : List (Entry F)) (e : Entry F) : List (Entry F) :=
  adopt e.owner? [entries.length] entries ++ [e]

mutual

def ofPlan (index : Nat) (owner? : Option Nat) : Plan F → List (Entry F)
  | .mk node args work children =>
    { node, args, owner?
      role := work.role index (TaskRow.indices (index + 1) children)
      children := TaskRow.indices (index + 1) children } ::
        ofPlans (index + 1) (some index) children

def ofPlans (index : Nat) (owner? : Option Nat) : List (Plan F) → List (Entry F)
  | [] => []
  | p :: ps => ofPlan index owner? p ++ ofPlans (index + p.size) owner? ps

end

def plant (entries : List (Entry F)) (owner : Nat) (ps : List (Plan F)) : List (Entry F) :=
  adopt (some owner) (TaskRow.indices entries.length ps) entries ++
    ofPlans entries.length (some owner) ps

variable {entries : List (Entry F)} {owner : Nat}

@[simp] theorem length_adopt (owner? : Option Nat) (further : List Nat)
    (entries : List (Entry F)) : (adopt owner? further entries).length = entries.length := by
  cases owner? with
  | none => rfl
  | some owner => exact List.length_modify ..

theorem adopt_append (inside : owner < entries.length) (further : List Nat)
    (others : List (Entry F)) :
    adopt (some owner) further (entries ++ others) =
      adopt (some owner) further entries ++ others := by
  induction entries generalizing owner with
  | nil => exact absurd inside (Nat.not_lt_zero owner)
  | cons first rest ih =>
    cases owner with
    | zero => rfl
    | succ owner => exact congrArg (first :: ·) (ih (Nat.lt_of_succ_lt_succ inside))

theorem adopt_last (further : List Nat) (entries : List (Entry F)) (e : Entry F) :
    adopt (some entries.length) further (entries ++ [e]) =
      entries ++ [{ e with children := e.children ++ further }] := by
  induction entries with
  | nil => rfl
  | cons first rest ih => exact congrArg (first :: ·) ih

theorem adopt_adopt (owner? : Option Nat) (first next : List Nat) (entries : List (Entry F)) :
    adopt owner? next (adopt owner? first entries) = adopt owner? (first ++ next) entries := by
  cases owner? with
  | none => rfl
  | some owner =>
    unfold adopt
    dsimp only
    rw [List.modify_modify_eq]
    simp only [Function.comp_def, List.append_assoc]

mutual

theorem length_ofPlan (index : Nat) (owner? : Option Nat) : (p : Plan F) →
    (ofPlan index owner? p).length = p.size
  | .mk node args work children => by
    rw [ofPlan, List.length_cons, length_ofPlans, Plan.size, Nat.add_comm]

theorem length_ofPlans (index : Nat) (owner? : Option Nat) : (ps : List (Plan F)) →
    (ofPlans index owner? ps).length = Plan.sizes ps
  | [] => rfl
  | p :: ps => by
    rw [ofPlans, List.length_append, length_ofPlan, length_ofPlans, Plan.sizes]

end

theorem ofPlans_append (index : Nat) (owner? : Option Nat) (ps qs : List (Plan F)) :
    ofPlans index owner? (ps ++ qs) =
      ofPlans index owner? ps ++ ofPlans (index + Plan.sizes ps) owner? qs := by
  induction ps generalizing index with
  | nil => rfl
  | cons p ps ih =>
    rw [List.cons_append, ofPlans, ofPlans, ih, Plan.sizes, List.append_assoc, Nat.add_assoc]

theorem indices_append (index : Nat) (ps qs : List (Plan F)) :
    TaskRow.indices index (ps ++ qs) =
      TaskRow.indices index ps ++ TaskRow.indices (index + Plan.sizes ps) qs := by
  induction ps generalizing index with
  | nil => rfl
  | cons p ps ih =>
    rw [List.cons_append, TaskRow.indices, TaskRow.indices, ih, Plan.sizes, List.cons_append,
      Nat.add_assoc]

theorem plant_nil (entries : List (Entry F)) (owner : Nat) : plant entries owner [] = entries := by
  unfold plant adopt
  rw [TaskRow.indices, ofPlans, List.append_nil]
  simp only [List.append_nil]
  exact List.modify_id owner entries

theorem length_plant (entries : List (Entry F)) (owner : Nat) (ps : List (Plan F)) :
    (plant entries owner ps).length = entries.length + Plan.sizes ps := by
  rw [plant, List.length_append, length_adopt, length_ofPlans]

theorem plant_append (inside : owner < entries.length) (ps qs : List (Plan F)) :
    plant (plant entries owner ps) owner qs = plant entries owner (ps ++ qs) := by
  have within : owner < (adopt (some owner) (TaskRow.indices entries.length ps) entries).length :=
    (length_adopt ..).symm ▸ inside
  rw [plant, length_plant, plant, adopt_append within, adopt_adopt, List.append_assoc,
    ← ofPlans_append, ← indices_append, plant]

def graft (entries : List (Entry F)) (owner? : Option Nat) (p : Plan F) : List (Entry F) :=
  adopt owner? [entries.length] entries ++ ofPlan entries.length owner? p

theorem plant_singleton (entries : List (Entry F)) (owner : Nat) (p : Plan F) :
    plant entries owner [p] = graft entries (some owner) p := by
  rw [plant, graft, TaskRow.indices, TaskRow.indices, ofPlans, ofPlans, List.append_nil]

theorem graft_nil (p : Plan F) : graft [] none p = ofPlan 0 none p := List.nil_append _

theorem plant_push (entries : List (Entry F)) {e : Entry F} (alone : e.children = [])
    (ps : List (Plan F)) :
    plant (push entries e) entries.length ps =
      adopt e.owner? [entries.length] entries ++
        { e with children := TaskRow.indices (entries.length + 1) ps } ::
          ofPlans (entries.length + 1) (some entries.length) ps := by
  have length : (push entries e).length = entries.length + 1 := by
    rw [push, List.length_append, length_adopt, List.length_singleton]
  have last := adopt_last (TaskRow.indices (entries.length + 1) ps)
    (adopt e.owner? [entries.length] entries) e
  rw [length_adopt] at last
  rw [plant, length, push, last, alone, List.nil_append, List.append_assoc, List.singleton_append]

theorem plant_push_settled (entries : List (Entry F)) {e : Entry F} (alone : e.children = [])
    {w : Work} {ps : List (Plan F)}
    (settled : e.role = w.role entries.length (TaskRow.indices (entries.length + 1) ps)) :
    plant (push entries e) entries.length ps = graft entries e.owner? (.mk e.node e.args w ps) := by
  rw [plant_push entries alone, graft, ofPlan, ← settled]

theorem push_eq_plant (entries : List (Entry F)) {e : Entry F} (alone : e.children = []) {w : Work}
    (settled : e.role = w.role entries.length []) (above : e.owner? = some owner) :
    push entries e = plant entries owner [.mk e.node e.args w []] := by
  rw [plant_singleton, ← above]
  exact (plant_nil _ _).symm.trans (plant_push_settled entries alone settled)

def equip (id : Nat) (role : Role) (entries : List (Entry F)) : List (Entry F) :=
  entries.modify id fun e => { e with role }

theorem equip_middle (front back : List (Entry F)) (e : Entry F) (role : Role) :
    equip front.length role (front ++ e :: back) = front ++ { e with role } :: back := by
  induction front with
  | nil => rfl
  | cons first rest ih => exact congrArg (first :: ·) ih

theorem equip_plant_push (entries : List (Entry F)) {e : Entry F} (alone : e.children = [])
    (w : Work) (ps : List (Plan F)) :
    equip entries.length (w.role entries.length (TaskRow.indices (entries.length + 1) ps))
        (plant (push entries e) entries.length ps) =
      graft entries e.owner? (.mk e.node e.args w ps) := by
  have equipped := equip_middle (adopt e.owner? [entries.length] entries)
  rw [length_adopt] at equipped
  rw [plant_push entries alone, equipped, graft, ofPlan]

/-! ## Trees -/

def ownerOf? (entries : List (Entry F)) (id : Nat) : Option Nat := entries[id]?.bind owner?

/-- A task at a place names tasks and nodes that are there. The tasks below it are those that it
owns; it has an owner itself, before it, unless it is the first of all. -/
structure Fits (e : Entry F) (nodes : Nat) (entries : List (Entry F)) (id : Nat) : Prop where
  top : e.owner? = none ↔ id = 0
  above : ∀ owner, e.owner? = some owner → owner < id
  below : ∀ c, c ∈ e.children ↔ ownerOf? entries c = some id
  increasing : e.children.Pairwise (· < ·)
  node : e.node < nodes
  named : ∀ c ∈ e.role.contexts, c = id ∨ c ∈ e.children

def IsTree (nodes : Nat) (entries : List (Entry F)) : Prop :=
  ∀ (id : Nat) (e : Entry F), entries[id]? = some e → e.Fits nodes entries id

theorem getElem?_adopt (further : List Nat) (entries : List (Entry F)) (k : Nat) :
    (adopt (some owner) further entries)[k]? = entries[k]?.map fun e =>
      { e with children := e.children ++ if owner = k then further else [] } := by
  unfold adopt
  rw [List.getElem?_modify]
  split <;> simp

theorem ownerOf?_push (entries : List (Entry F)) (e : Entry F) (c : Nat) :
    ownerOf? (push entries e) c = if c = entries.length then e.owner? else ownerOf? entries c := by
  have kept : ownerOf? (adopt e.owner? [entries.length] entries) c = ownerOf? entries c := by
    cases e.owner? with
    | none => rfl
    | some owner =>
      unfold ownerOf?
      rw [getElem?_adopt]
      cases entries[c]? <;> rfl
  unfold push ownerOf?
  rcases Nat.lt_trichotomy c entries.length with before | rfl | beyond
  · rw [List.getElem?_append_left (by simpa using before), if_neg (Nat.ne_of_lt before)]
    exact kept
  · rw [List.getElem?_append_right (by simp), if_pos rfl, length_adopt, Nat.sub_self]
    rfl
  · rw [List.getElem?_eq_none (by simp; omega), if_neg (Nat.ne_of_gt beyond),
      List.getElem?_eq_none (Nat.le_of_lt beyond)]

theorem lt_of_ownerOf? {c id : Nat} (owned : ownerOf? entries c = some id) :
    c < entries.length := by
  obtain ⟨e, found, -⟩ := Option.bind_eq_some_iff.1 owned
  exact (List.getElem?_eq_some_iff.1 found).1

namespace IsTree

variable {nodes : Nat} {e : Entry F}

theorem push_root (top : e.owner? = none) (alone : e.children = []) (idle : e.role.contexts = [])
    (own : e.node < nodes) : IsTree nodes (push [] e) := by
  intro id x found
  obtain ⟨rfl, rfl⟩ : id = 0 ∧ e = x := by
    rw [Entry.push, adopt.eq_def, top] at found
    simpa [List.getElem?_singleton] using found
  refine ⟨iff_of_true top rfl, ?_, ?_, ?_, own, ?_⟩
  · rw [top]
    nofun
  · intro c
    rw [ownerOf?_push, top, alone]
    split
    · simp
    · simp [ownerOf?]
  · rw [alone]
    exact .nil
  · rw [idle]
    nofun

/-- A task from before, when one is added below some task: that one has the new task behind all
others that it has below it. -/
theorem fits_before (tree : IsTree nodes entries) (above : e.owner? = some owner) {id : Nat}
    {d : Entry F} (known : entries[id]? = some d) :
    Fits { d with children := d.children ++ if owner = id then [entries.length] else [] } nodes
      (Entry.push entries e) id := by
  have fits := tree id d known
  have smaller : ∀ c ∈ d.children, c < entries.length :=
    fun c below => lt_of_ownerOf? ((fits.below c).1 below)
  refine ⟨fits.top, fits.above, fun c => ?_, ?_, fits.node, fun c names => ?_⟩
  · rw [ownerOf?_push, above, List.mem_append, fits.below]
    by_cases new : c = entries.length
    · have absent : ownerOf? entries c ≠ some id :=
        fun owned => Nat.ne_of_lt (lt_of_ownerOf? owned) new
      by_cases own : owner = id <;> simp [own, new, new ▸ absent]
    · by_cases own : owner = id <;> simp [own, new]
  · refine List.pairwise_append.2 ⟨fits.increasing, ?_, fun c below n last => ?_⟩
    · split <;> simp
    · have same : n = entries.length := by
        split at last
        · simpa using last
        · cases last
      exact same ▸ smaller c below
  · exact (fits.named c names).imp_right (List.mem_append_left _)

theorem fits_new (tree : IsTree nodes entries) (above : e.owner? = some owner)
    (inside : owner < entries.length) (alone : e.children = []) (idle : e.role.contexts = [])
    (own : e.node < nodes) : e.Fits nodes (Entry.push entries e) entries.length := by
  have free : ∀ c, ownerOf? entries c ≠ some entries.length := by
    intro c owned
    obtain ⟨d, known, owned'⟩ := Option.bind_eq_some_iff.1 owned
    exact Nat.lt_asymm (lt_of_ownerOf? owned) ((tree c d known).above _ owned')
  refine ⟨?_, ?_, fun c => ?_, ?_, own, ?_⟩
  · rw [above]
    exact iff_of_false nofun (Nat.ne_of_gt (Nat.zero_lt_of_lt inside))
  · rw [above]
    rintro _ ⟨⟩
    exact inside
  · rw [alone, ownerOf?_push, above]
    refine iff_of_false List.not_mem_nil ?_
    split
    · exact fun same => Nat.ne_of_lt inside (Option.some.inj same)
    · exact free c
  · rw [alone]
    exact .nil
  · rw [idle]
    nofun

theorem push (tree : IsTree nodes entries) (above : e.owner? = some owner)
    (inside : owner < entries.length) (alone : e.children = []) (idle : e.role.contexts = [])
    (own : e.node < nodes) : IsTree nodes (push entries e) := by
  intro id x found
  by_cases before : id < entries.length
  · rw [Entry.push, above, List.getElem?_append_left (by simpa using before), getElem?_adopt]
      at found
    obtain ⟨d, known, rfl⟩ := Option.map_eq_some_iff.1 found
    exact tree.fits_before above known
  · rw [Entry.push, above, List.getElem?_append_right (by simpa using before), length_adopt,
      List.getElem?_singleton] at found
    obtain ⟨last, rfl⟩ : id - entries.length = 0 ∧ e = x := by simpa using found
    obtain rfl : id = entries.length := by omega
    exact tree.fits_new above inside alone idle own

theorem equip (tree : IsTree nodes entries) {id : Nat} {role : Role}
    (named : ∀ e, entries[id]? = some e → ∀ c ∈ role.contexts, c = id ∨ c ∈ e.children) :
    IsTree nodes (equip id role entries) := by
  have kept : ∀ c, ownerOf? (Entry.equip id role entries) c = ownerOf? entries c := by
    intro c
    unfold ownerOf? Entry.equip
    rw [List.getElem?_modify]
    cases entries[c]? with
    | none => rfl
    | some d => by_cases same : id = c <;> simp [same]
  intro k x found
  rw [Entry.equip, List.getElem?_modify] at found
  obtain ⟨d, known, rfl⟩ := Option.map_eq_some_iff.1 found
  have fits := tree k d known
  split
  · next same =>
    subst same
    exact ⟨fits.top, fits.above, fun c => (kept c).symm ▸ fits.below c, fits.increasing, fits.node,
      named d known⟩
  · exact ⟨fits.top, fits.above, fun c => (kept c).symm ▸ fits.below c, fits.increasing, fits.node,
      fits.named⟩

/-- The tree is one still when it is settled what a task does, with all tasks below it there. -/
theorem settle (alone : e.children = []) {w : Work} {ps : List (Plan F)}
    (planted : IsTree nodes (Entry.plant (Entry.push entries e) entries.length ps)) :
    IsTree nodes (Entry.graft entries e.owner? (.mk e.node e.args w ps)) := by
  rw [← equip_plant_push entries alone]
  refine planted.equip fun d known c names => ?_
  rw [plant_push entries alone, List.getElem?_append_right (by simp), length_adopt,
    Nat.sub_self] at known
  cases known
  exact Work.context_of_role names

mutual

theorem graft : (p : Plan F) → p.Inside nodes → {entries : List (Entry F)} → {owner : Nat} →
    IsTree nodes entries → owner < entries.length →
    IsTree nodes (Entry.graft entries (some owner) p)
  | .mk node args w children, .mk own each, entries, owner, tree, inside => by
    let e : Entry F := { node, args, role := .work .sequence, owner? := some owner }
    have pushed : IsTree nodes (Entry.push entries e) := tree.push rfl inside rfl rfl own
    exact (plant children each pushed (by simp [Entry.push])).settle (e := e) rfl

theorem plant : (ps : List (Plan F)) → (∀ p ∈ ps, p.Inside nodes) → {entries : List (Entry F)} →
    {owner : Nat} → IsTree nodes entries → owner < entries.length →
    IsTree nodes (Entry.plant entries owner ps)
  | [], _, _, _, tree, _ => by rwa [plant_nil]
  | p :: ps, each, entries, owner, tree, inside => by
    have first := graft p (each p List.mem_cons_self) tree inside
    rw [← plant_singleton] at first
    have further := plant ps (fun q member => each q (List.mem_cons_of_mem _ member)) first
      (Nat.lt_of_lt_of_le inside (by simp [Entry.plant]))
    rwa [plant_append inside] at further

end

theorem ofPlan {p : Plan F} (inside : p.Inside nodes) : IsTree nodes (Entry.ofPlan 0 none p) := by
  cases inside with
  | @mk node args w children own each =>
    let e : Entry F := { node, args, role := .work .sequence, owner? := none }
    have pushed : IsTree nodes (Entry.push [] e) := push_root rfl rfl rfl own
    have planted : IsTree nodes (Entry.plant (Entry.push [] e) 0 children) :=
      plant children each pushed Nat.one_pos
    rw [← graft_nil]
    exact planted.settle rfl

end IsTree

end Entry

end Barrage
