import Barrage.Proofs.Host.Ticks

/-!
The arguments that bullets inherit. A task looks a parameter up in its own arguments, in those of
the tasks above it, and then in what its bullet has inherited. What a fired bullet inherits is
pruned: argument lists that are not longer than all inner ones are left out. It answers all the
same, also if the bullet that fires has itself inherited a pruned scope, and so on.
-/

set_option autoImplicit false

namespace Barrage

variable {F σ : Type}

/-! ## Pruned argument lists -/

namespace Frames

theorem findSome?_longerThan (fs : Frames F) {length slot : Nat} (beyond : length ≤ slot) :
    (longerThan length fs).findSome? (·[slot]?) = fs.findSome? (·[slot]?) := by
  induction fs generalizing length with
  | nil => rfl
  | cons frame fs ih =>
    rw [longerThan]
    split
    · next longer =>
      rw [List.findSome?_cons, List.findSome?_cons]
      -- the list answers, or the ones that are left have to be longer than it is
      by_cases inside : slot < frame.length
      · rw [List.getElem?_eq_getElem inside]
      · rw [List.getElem?_eq_none (Nat.le_of_not_lt inside)]
        exact ih (Nat.le_of_not_lt inside)
    · next short =>
      have silent : frame[slot]? = none :=
        List.getElem?_eq_none (Nat.le_trans (Nat.le_of_not_lt short) beyond)
      rw [List.findSome?_cons, silent]
      exact ih beyond

theorem param?_pruned (fs : Frames F) (index : Nat) : fs.pruned.param? index = fs.param? index := by
  unfold param?
  split
  · rfl
  · exact findSome?_longerThan fs (Nat.zero_le _)

theorem param?_append (fs outer : Frames F) (index : Nat) :
    (fs ++ outer : Frames F).param? index = (fs.param? index).or (outer.param? index) := by
  unfold param?
  split
  · rfl
  · exact List.findSome?_append

theorem lt_of_mem_longerThan {fs : Frames F} {length : Nat} {frame : List F}
    (member : frame ∈ longerThan length fs) : length < frame.length := by
  induction fs generalizing length with
  | nil => cases member
  | cons first fs ih =>
    rw [longerThan] at member
    split at member
    · next longer =>
      rcases List.mem_cons.1 member with rfl | member
      · exact longer
      · exact Nat.lt_trans longer (ih member)
    · exact ih member

/-- Lengths that grow strictly, from a positive one on. -/
def Growing (fs : Frames F) : Prop :=
  (∀ frame ∈ fs, 0 < frame.length) ∧ fs.Pairwise fun inner outer => inner.length < outer.length

theorem pairwise_longerThan (fs : Frames F) (length : Nat) :
    (longerThan length fs).Pairwise fun inner outer => inner.length < outer.length := by
  induction fs generalizing length with
  | nil => exact .nil
  | cons frame fs ih =>
    rw [longerThan]
    split
    · exact .cons (fun _ => lt_of_mem_longerThan) (ih frame.length)
    · exact ih length

theorem growing_pruned (fs : Frames F) : fs.pruned.Growing :=
  ⟨fun _ => lt_of_mem_longerThan, fs.pairwise_longerThan 0⟩

theorem longerThan_filter (fs outer : Frames F) (length : Nat) :
    longerThan length (fs.filter (! ·.isEmpty) ++ outer) = longerThan length (fs ++ outer) := by
  induction fs generalizing length with
  | nil => rfl
  | cons frame fs ih =>
    cases frame with
    | nil => exact ih length
    | cons x frame =>
      change longerThan length ((x :: frame) :: (fs.filter (! ·.isEmpty) ++ outer)) =
        longerThan length ((x :: frame) :: (fs ++ outer))
      rw [longerThan, longerThan, ih, ih]

end Frames

/-! ## Owners -/

namespace TaskRow

/-- A task with the tasks above it, the innermost first. -/
def line (rows : List (TaskRow F)) (task : Nat) : List (TaskRow F) :=
  match rows[task]? with
  | none => []
  | some row => row :: match row.owner? with
    | some owner => if _above : owner < task then line rows owner else []
    | none => []
termination_by task

/-- Every task is below an earlier one, whose arguments in scope come after its own, or directly
below what is outside. Tasks are counted from a first number on. -/
def Owned (first : Nat) (owner? : Option Nat) (outer : Frames F) (rows : List (TaskRow F)) : Prop :=
  ∀ task row, rows[task]? = some row →
    (row.owner? = owner? ∧ row.frames = row.args :: outer) ∨
    ∃ above owner, above < task ∧ rows[above]? = some owner ∧
      row.owner? = some (first + above) ∧ row.frames = row.args :: owner.frames

namespace Owned

variable {first : Nat} {owner? : Option Nat} {outer : Frames F} {rows rows' : List (TaskRow F)}

theorem append (before : Owned first owner? outer rows)
    (after : Owned (first + rows.length) owner? outer rows') :
    Owned first owner? outer (rows ++ rows') := by
  intro task row found
  by_cases inside : task < rows.length
  · rw [List.getElem?_append_left inside] at found
    rcases before task row found with top | ⟨above, owner, earlier, known, owned, frames⟩
    · exact .inl top
    · refine .inr ⟨above, owner, earlier, ?_, owned, frames⟩
      rw [List.getElem?_append_left (Nat.lt_trans earlier inside), known]
  · have beyond := Nat.le_of_not_lt inside
    rw [List.getElem?_append_right beyond] at found
    rcases after _ row found with top | ⟨above, owner, earlier, known, owned, frames⟩
    · exact .inl top
    · refine .inr ⟨rows.length + above, owner, by omega, ?_, ?_, frames⟩
      · rw [List.getElem?_append_right (Nat.le_add_right _ _), Nat.add_sub_cancel_left, known]
      · rw [owned, Nat.add_assoc]

theorem cons {row : TaskRow F} (owner : row.owner? = owner?)
    (frames : row.frames = row.args :: outer)
    (below : Owned (first + 1) (some first) row.frames rows) :
    Owned first owner? outer (row :: rows) := by
  intro task found same
  cases task with
  | zero =>
    cases same
    exact .inl ⟨owner, frames⟩
  | succ task =>
    refine .inr ?_
    rcases below task found same with ⟨owned, inner⟩ | ⟨above, owner, earlier, known, owned, inner⟩
    · exact ⟨0, row, Nat.succ_pos _, rfl, owned, inner⟩
    · refine ⟨above + 1, owner, Nat.succ_lt_succ earlier, known, ?_, inner⟩
      rw [owned, Nat.add_assoc, Nat.add_comm 1]

/-- The arguments in scope are those of a task and the tasks above it, and then what is outside. -/
theorem frames_eq (owned : Owned 0 none outer rows) {task : Nat} {row : TaskRow F}
    (found : rows[task]? = some row) :
    row.frames = (line rows task).map TaskRow.args ++ outer := by
  induction task using Nat.strongRecOn generalizing row with
  | ind task ih =>
    rw [line, found]
    -- a task at the top ends the line, and else it goes on with an earlier task
    rcases owned task row found with ⟨top, frames⟩ | ⟨above, owner, earlier, known, below, frames⟩
    · simp only [top, frames, List.map_cons, List.map_nil, List.cons_append, List.nil_append]
    · rw [Nat.zero_add] at below
      simp only [below, dif_pos earlier, frames, ih above earlier known, List.map_cons,
        List.cons_append]

end Owned

mutual

theorem length_ofCell (index : Nat) (owner? : Option Nat) (outer : Frames F) : (p : Plan F) →
    (cell : Cell F p) → (ofCell index owner? outer p cell).length = p.size
  | .mk node args work children, .mk finished progress below => by
    rw [ofCell, List.length_cons, length_ofCells, Plan.size, Nat.add_comm]

theorem length_ofCells (index : Nat) (owner? : Option Nat) (outer : Frames F) :
    (ps : List (Plan F)) → (below : Cells F ps) →
    (ofCells index owner? outer ps below).length = Plan.sizes ps
  | [], .nil => rfl
  | p :: ps, .cons head tail => by
    rw [ofCells, List.length_append, length_ofCell, length_ofCells, Plan.sizes]

end

mutual

theorem owned_ofCell (index : Nat) (owner? : Option Nat) (outer : Frames F) : (p : Plan F) →
    (cell : Cell F p) → Owned index owner? outer (ofCell index owner? outer p cell)
  | .mk node args work children, .mk finished progress below => by
    rw [ofCell]
    exact .cons rfl rfl (owned_ofCells (index + 1) (some index) (args :: outer) children below)

theorem owned_ofCells (index : Nat) (owner? : Option Nat) (outer : Frames F) :
    (ps : List (Plan F)) → (below : Cells F ps) →
    Owned index owner? outer (ofCells index owner? outer ps below)
  | [], .nil => nofun
  | p :: ps, .cons head tail => by
    rw [ofCells]
    refine .append (owned_ofCell index owner? outer p head) ?_
    rw [length_ofCell]
    exact owned_ofCells (index + p.size) owner? outer ps tail

end

theorem exists_ofCell_subset {c : Plan F} {ps : List (Plan F)} (inside : c ∈ ps) (index : Nat)
    (owner? : Option Nat) (outer : Frames F) (below : Cells F ps) : ∃ index' cell,
    ofCell index' owner? outer c cell ⊆ ofCells index owner? outer ps below := by
  induction ps generalizing index with
  | nil => cases inside
  | cons p ps ih =>
    cases below with
    | cons head tail =>
      rw [ofCells]
      rcases List.mem_cons.1 inside with rfl | inside
      · exact ⟨index, head, List.subset_append_left _ _⟩
      · obtain ⟨index', cell, sub⟩ := ih inside (index + p.size) tail
        exact ⟨index', cell, fun _ member => List.mem_append_right _ (sub member)⟩

theorem exists_of_holds {outer frames : Frames F} {p q : Plan F} (holds : p.Holds outer frames q)
    (index : Nat) (owner? : Option Nat) (cell : Cell F p) :
    ∃ row ∈ ofCell index owner? outer p cell, row.node = q.node ∧ row.frames = frames := by
  induction holds generalizing index owner? with
  | self =>
    cases cell
    exact ⟨_, List.mem_cons_self, rfl, rfl⟩
  | child inside _ ih =>
    cases cell with
    | mk finished progress below =>
      obtain ⟨index', cell, sub⟩ := exists_ofCell_subset inside (index + 1) (some index) _ below
      obtain ⟨row, member, known⟩ := ih index' (some index) cell
      exact ⟨row, List.mem_cons_of_mem _ (sub member), known⟩

end TaskRow

/-! ## What fired bullets inherit -/

namespace Bullet

variable (b : Bullet F)

/-- The arguments of a task and of the tasks above it, the innermost first. -/
def argsAround (task : Nat) : Frames F := (TaskRow.line b.tasks task).map TaskRow.args

/-- The value of a parameter: the first one of the task and of the tasks above it that has one
gives it, or else it is inherited. -/
def lookUp? (task index : Nat) : Option F :=
  if index = 0 then none
  else ((TaskRow.line b.tasks task).findSome? fun row => row.args[index - 1]?).or
    (b.scope.param? index)

def captured (task : Nat) : Frames F :=
  Frames.pruned ((b.argsAround task).filter (! ·.isEmpty) ++ b.scope)

/-- A bullet of some generation with all argument lists that were in scope where its ancestors were
fired. -/
inductive Inherits : Bullet F → Frames F → Prop where
  | first {b : Bullet F} (unfired : b.scope? = none) : Inherits b []
  | fired {b b' : Bullet F} {outer : Frames F} {task : Nat} (parent : Inherits b outer)
      (known : task < b.tasks.length) (captured : b'.scope? = some (b.captured task)) :
      Inherits b' (b.argsAround task ++ outer)

theorem captured_eq (task : Nat) :
    b.captured task = Frames.pruned (b.argsAround task ++ b.scope) :=
  Frames.longerThan_filter _ _ 0

theorem lookUp?_eq (task index : Nat) :
    b.lookUp? task index = Frames.param? (b.argsAround task ++ b.scope) index := by
  unfold lookUp? Frames.param? argsAround
  split
  · rfl
  · rw [List.findSome?_append, List.findSome?_map]
    rfl

theorem frames_eq (task : Nat) {row : TaskRow F} (found : b.tasks[task]? = some row) :
    row.frames = b.argsAround task ++ b.scope :=
  (TaskRow.owned_ofCell 0 none b.scope b.plan b.cell).frames_eq found

variable {b}

/-- What is inherited over any number of generations answers as all that was in scope. -/
theorem Inherits.param?_scope {outer : Frames F} (inherits : b.Inherits outer) (index : Nat) :
    b.scope.param? index = outer.param? index := by
  induction inherits with
  | first unfired => rw [scope, unfired]; rfl
  | @fired b b' outer task parent known captured ih =>
    have own : b'.scope = b.captured task := by rw [scope, captured]; rfl
    rw [own, captured_eq, Frames.param?_pruned, Frames.param?_append, Frames.param?_append, ih]

theorem Inherits.of_scope {b' : Bullet F} {outer : Frames F} (inherits : b.Inherits outer)
    (same : b'.scope? = b.scope?) : b'.Inherits outer := by
  cases inherits with
  | first unfired => exact .first (same.trans unfired)
  | fired parent known captured => exact .fired parent known (same.trans captured)

theorem exists_captured [Scalar F] {env : Env F σ} {frames : Frames F} {q : Plan F}
    {fired : Bullet F} (holds : b.plan.Holds b.scope frames q) (shot : Shot env frames q fired) :
    ∃ task row, b.tasks[task]? = some row ∧ row.node = fired.node ∧
      fired.scope? = some (b.captured task) := by
  obtain ⟨holder, held, node, scope⟩ := shot.held
  -- the task that captures is the last one below the fire
  have inside : b.plan.Holds b.scope (holder.args :: frames) holder :=
    holds.further (List.mem_of_getLast? held)
  obtain ⟨row, known, same, inScope⟩ := TaskRow.exists_of_holds inside 0 none b.cell
  obtain ⟨task, found⟩ := List.getElem?_of_mem known
  refine ⟨task, row, found, same.trans node.symm, ?_⟩
  rw [scope, captured_eq, ← b.frames_eq task found, inScope]

theorem Inherits.goes [Scalar F] {b' : Bullet F} {outer : Frames F} {trace : Trace F}
    (inherits : b.Inherits outer) (goes : b.Goes trace b') : b'.Inherits outer := by
  obtain ⟨cell, entity, rfl⟩ := goes.eq_with
  exact inherits.of_scope rfl

/-- A bullet inherits arguments that answer as the tasks around it do that it is fired from. That
holds for any bullet, whatever it has itself inherited, and so for all generations: what is pruned
away on the way is never missed. -/
theorem captured_answers [Scalar F] (b : Bullet F) :
    (∀ task, (b.captured task).Growing ∧
      ∀ index, (b.captured task).param? index = b.lookUp? task index ∧
        (task < b.tasks.length → b.param? task index = b.lookUp? task index)) ∧
    ∀ outer, b.Inherits outer →
      (∀ task index, b.lookUp? task index = Frames.param? (b.argsAround task ++ outer) index) ∧
      ∀ trace b', b.Goes trace b' → ∀ (σ : Type) (h : Host F σ),
        Records Stage.noting (b'.step h) (b'.step h.recorded) fun _ _ _ calls =>
          ∀ fired, .spawn fired ∈ calls → ∃ task row, b'.tasks[task]? = some row ∧
            row.node = fired.node ∧ fired.scope? = some (b'.captured task) ∧
            fired.Inherits (b'.argsAround task ++ outer) := by
  refine ⟨fun task => ⟨?_, fun index => ⟨?_, fun known => ?_⟩⟩, fun outer inherits =>
    ⟨fun task index => ?_, fun trace b' goes σ h => (b'.records_step h).mono ?_⟩⟩
  · exact Frames.growing_pruned _
  · rw [captured_eq, Frames.param?_pruned, lookUp?_eq]
  · have found := List.getElem?_eq_getElem known
    rw [param?, found, lookUp?_eq, ← b.frames_eq task found]
    rfl
  · rw [lookUp?_eq, Frames.param?_append, Frames.param?_append, inherits.param?_scope]
  · rintro _ _ _ _ ⟨-, -, -, -, parts⟩ fired spawned
    obtain ⟨frames, q, holds, -, -, shot⟩ := exists_shot_of_spawn parts spawned
    obtain ⟨task, row, found, same, scope⟩ := exists_captured holds shot
    obtain ⟨known, -⟩ := List.getElem?_eq_some_iff.1 found
    exact ⟨task, row, found, same, scope, .fired (inherits.goes goes) known scope⟩

end Bullet

/-! ## Two generations -/

namespace Sample

/-- A bullet with a fire that takes two arguments, whose bullet takes one. -/
def archer : Bullet Int := { bullet with
  plan := .mk 0 [] .sequence [.mk 1 [5, 6] (.fire {} {}) [.mk 2 [7] .sequence []]]
  cell := .mk false () (.cons (.mk false ⟨0, 0, 0⟩ (.cons (.mk false () .nil) .nil)) .nil) }

/-- A bullet that it fires, with a fire whose bullet takes one argument more. -/
def heir : Bullet Int := { bullet with
  plan := .mk 2 [] .sequence [.mk 3 [] (.fire {} {}) [.mk 4 [8] .sequence []]]
  cell := .mk false () (.cons (.mk false ⟨0, 0, 0⟩ (.cons (.mk false () .nil) .nil)) .nil)
  scope? := some (archer.captured 2) }

theorem heir_inherits : heir.Inherits (archer.argsAround 2 ++ []) :=
  .fired (.first rfl) (by decide) rfl

theorem args_archer : archer.argsAround 2 = [[7], [5, 6], []] := by
  have inScope : [[7], [5, 6], []] ++ archer.scope = archer.argsAround 2 ++ archer.scope :=
    archer.frames_eq 2 rfl
  exact (List.append_cancel_right inScope).symm

theorem args_heir : heir.argsAround 2 = [[8], [], []] := by
  have inScope : [[8], [], []] ++ heir.scope = heir.argsAround 2 ++ heir.scope :=
    heir.frames_eq 2 rfl
  exact (List.append_cancel_right inScope).symm

/-- The last argument that the fire of the first bullet took, in the second generation. -/
theorem captured_answers_heir : (heir.captured 2).param? 2 = heir.lookUp? 2 2 ∧
    heir.lookUp? 2 2 = some 6 := by
  obtain ⟨answers, inherited⟩ := heir.captured_answers
  refine ⟨((answers 2).2 2).1, ?_⟩
  rw [(inherited _ heir_inherits).1, args_archer, args_heir]
  rfl

end Sample

end Barrage
