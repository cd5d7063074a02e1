import Barrage.Proofs.Host.Inheritance
import Barrage.Proofs.Host.ShotBullets
import Barrage.Proofs.Pattern.References

/-!
How far references are followed when a plan is made. A pattern may refer to itself in any way, and
still there is a plan of limited size or one of two failures: too many tasks, or a chain of nested
references that is too long. Nothing outside of the pattern's tree is read meanwhile.
-/

set_option autoImplicit false

namespace Barrage

variable {F σ : Type}

/-! ## Plans and their rows -/

inductive Plan.Inside (nodes : Nat) : Plan F → Prop where
  | mk {node : NodeId} {args : List F} {work : Work} {children : List (Plan F)}
      (own : node < nodes) (each : ∀ c ∈ children, Inside nodes c) :
      Inside nodes (.mk node args work children)

theorem Plan.size_pos (plan : Plan F) : 0 < plan.size := by
  cases plan
  rw [Plan.size]
  exact Nat.lt_add_right _ Nat.one_pos

theorem Plan.sizes_append (ps qs : List (Plan F)) :
    Plan.sizes (ps ++ qs) = Plan.sizes ps + Plan.sizes qs := by
  induction ps with
  | nil => exact (Nat.zero_add _).symm
  | cons p ps ih => rw [List.cons_append, Plan.sizes, Plan.sizes, ih, Nat.add_assoc]

namespace TaskRow

/-- What a row names is there: its number and those of the tasks around it and below it are numbers
of tasks, and its node is one of the tree. -/
structure InRange (tasks nodes : Nat) (row : TaskRow F) : Prop where
  index : row.index < tasks
  owner : ∀ owner, row.owner? = some owner → owner < row.index
  children : ∀ c ∈ row.children, row.index < c ∧ c < tasks
  node : row.node < nodes

theorem mem_indices {c first : Nat} {ps : List (Plan F)} (inside : c ∈ indices first ps) :
    first ≤ c ∧ c < first + Plan.sizes ps := by
  induction ps generalizing first with
  | nil => cases inside
  | cons p ps ih =>
    have positive := p.size_pos
    rw [Plan.sizes]
    rcases List.mem_cons.1 inside with rfl | further
    · omega
    · have := ih further
      omega

variable {tasks nodes : Nat}

mutual

theorem inRange_ofCell (index : Nat) (owner? : Option Nat) (outer : Frames F) : (p : Plan F) →
    (cell : Cell F p) → p.Inside nodes → index + p.size ≤ tasks →
    (∀ owner, owner? = some owner → owner < index) →
    ∀ row ∈ ofCell index owner? outer p cell, row.InRange tasks nodes
  | .mk node args work children, .mk finished progress below, .mk own each, fits, above => by
    rw [Plan.size] at fits
    rw [ofCell]
    intro row member
    rcases List.mem_cons.1 member with rfl | deeper
    · refine ⟨?_, above, fun c numbered => ?_, own⟩
      · dsimp only
        omega
      · have := mem_indices numbered
        dsimp only
        omega
    · refine inRange_ofCells (index + 1) (some index) (args :: outer) children below
        each (by omega) ?_ row deeper
      rintro _ ⟨⟩
      exact Nat.lt_succ_self index

theorem inRange_ofCells (index : Nat) (owner? : Option Nat) (outer : Frames F) :
    (ps : List (Plan F)) → (below : Cells F ps) → (∀ p ∈ ps, p.Inside nodes) →
    index + Plan.sizes ps ≤ tasks → (∀ owner, owner? = some owner → owner < index) →
    ∀ row ∈ ofCells index owner? outer ps below, row.InRange tasks nodes
  | [], .nil, _, _, _ => List.forall_mem_nil _
  | p :: ps, .cons head tail, inside, fits, above => by
    rw [Plan.sizes] at fits
    rw [ofCells]
    intro row member
    rcases List.mem_append.1 member with first | further
    · exact inRange_ofCell index owner? outer p head (inside p List.mem_cons_self) (by omega) above
        row first
    · exact inRange_ofCells (index + p.size) owner? outer ps tail
        (fun q member => inside q (List.mem_cons_of_mem _ member)) (by omega)
        (fun owner same => Nat.lt_add_right _ (above owner same)) row further

end

end TaskRow

theorem Pattern.Linked.lt_size_of_bulletAt? {p : Pattern} (linked : p.Linked) {i bullet : NodeId}
    (found : p.tree.bulletAt? p.links i = some bullet) : bullet < p.tree.size := by
  unfold Tree.bulletAt? at found
  split at found
  · next kind =>
    obtain ⟨target, leads, within⟩ := linked.target kind rfl
    obtain rfl := Option.some.inj (leads.symm.trans found)
    exact within
  · next kind =>
    cases found
    exact Tree.lt_size_of_kind? kind
  · cases found

namespace Assembly

/-! ## What a part of making a plan comes to -/

section Outcomes

variable {α β : Type}

/-- How a part of making a plan ends: with a number of further tasks, or because there are as many
as there may be, or because references are nested too deep. -/
inductive Outcome (made : Nat → α → Prop) (deep : Prop) (before : Nat) :
    Except RunError α × Assembly σ → Prop where
  | ok {a : α} {now : Assembly σ} {further : Nat} (holds : made further a)
      (counted : now.tasks = before + further) (bounded : now.tasks ≤ Limit.tasks) :
      Outcome made deep before (.ok a, now)
  | full {now : Assembly σ} (all : now.tasks = Limit.tasks) :
      Outcome made deep before (.error .tooManyTasks, now)
  | deep {r : NodeId} {now : Assembly σ} (nested : deep) (bounded : now.tasks ≤ Limit.tasks) :
      Outcome made deep before (.error (.tooDeep r), now)

/-- A part of making a plan ends in one of these ways, whatever was made before. -/
def Makes (x : Assembling σ α) (made : Nat → α → Prop) (deep : Prop) : Prop :=
  ∀ a, a.tasks ≤ Limit.tasks → Outcome made deep a.tasks (x.run.run a)

namespace Makes

variable {x : Assembling σ α} {f : α → Assembling σ β} {made : Nat → α → Prop}
  {made' : Nat → β → Prop} {deep deep' : Prop}

theorem pure {a : α} (holds : made 0 a) : Makes (σ := σ) (pure a) made deep :=
  fun _ bounded => .ok holds rfl bounded

theorem tooDeep {r : NodeId} (nested : deep) :
    Makes (σ := σ) (throw (.tooDeep r) : Assembling σ α) made deep :=
  fun _ bounded => .deep nested bounded

theorem mono (makes : Makes x made deep) (weaker : deep → deep') : Makes x made deep' := by
  intro a bounded
  have ending := makes a bounded
  generalize x.run.run a = r at ending ⊢
  cases ending with
  | ok holds counted bounded => exact .ok holds counted bounded
  | full all => exact .full all
  | deep nested bounded => exact .deep (weaker nested) bounded

theorem bind (first : Makes x made deep)
    (next : ∀ m a, made m a → Makes (f a) (fun n => made' (m + n)) deep) :
    Makes (x >>= f) made' deep := by
  intro a bounded
  rw [Ends.run_eq_bind]
  have ending := first a bounded
  generalize x.run.run a = r at ending ⊢
  cases ending with
  | @ok b now m holds counted bounded =>
    have ending := next m b holds now bounded
    dsimp only
    generalize (f b).run.run now = r at ending ⊢
    cases ending with
    | ok holds' counted' bounded' =>
      exact .ok holds' (by rw [counted', counted, Nat.add_assoc]) bounded'
    | full all => exact .full all
    | deep nested bounded => exact .deep nested bounded
  | full all => exact .full all
  | deep nested bounded => exact .deep nested bounded

theorem bindIdle (first : Makes x (fun n _ => n = 0) deep)
    (next : ∀ a, Makes (f a) made' deep) : Makes (x >>= f) made' deep := by
  refine first.bind ?_
  rintro _ a rfl
  simp only [Nat.zero_add]
  exact next a

theorem bindClaim {f : Unit → Assembling σ β}
    (next : Makes (f ()) (fun n => made' (n + 1)) deep) : Makes (claim >>= f) made' deep := by
  have first : Makes (σ := σ) claim (fun n _ => n = 1) deep := by
    intro a bounded
    rw [run_claim]
    split
    · next full => exact .full (Nat.le_antisymm bounded full)
    · next free => exact .ok rfl rfl (Nat.lt_of_not_ge free)
  refine first.bind ?_
  rintro _ _ rfl
  simp only [Nat.add_comm 1]
  exact next

theorem staged (x : Staged σ α) : Makes (Assembly.staged x) (fun n _ => n = 0) deep :=
  fun _ bounded => .ok rfl rfl bounded

theorem mapIdle {γ : Type} {f : γ → Assembling σ α}
    (each : ∀ c, Makes (f c) (fun n _ => n = 0) deep) (cs : List γ) :
    Makes (cs.mapM f) (fun n _ => n = 0) deep := by
  induction cs with
  | nil =>
    rw [List.mapM_nil]
    exact .pure rfl
  | cons c cs ih =>
    rw [List.mapM_cons]
    exact (each c).bindIdle fun _ => ih.bindIdle fun _ => .pure rfl

end Makes

end Outcomes

structure Whole (nodes : Nat) (tasks : Nat) (plans : List (Plan F)) : Prop where
  sizes : Plan.sizes plans = tasks
  inside : ∀ p ∈ plans, p.Inside nodes

namespace Whole

variable {nodes tasks tasks' : Nat} {plans plans' : List (Plan F)}

theorem nil : Whole (F := F) nodes 0 [] := ⟨rfl, List.forall_mem_nil _⟩

theorem append (first : Whole nodes tasks plans) (next : Whole nodes tasks' plans') :
    Whole nodes (tasks + tasks') (plans ++ plans') where
  sizes := by rw [Plan.sizes_append, first.sizes, next.sizes]
  inside p member := (List.mem_append.1 member).elim (first.inside p) (next.inside p)

theorem task (below : Whole nodes tasks plans) {i : NodeId} (inside : i < nodes) (args : List F)
    (work : Work) : Whole nodes (tasks + 1) [.mk i args work plans] where
  sizes := by
    rw [Plan.sizes, Plan.sizes, Plan.size, below.sizes, Nat.add_zero, Nat.add_comm]
  inside := by
    rintro _ (_ | ⟨_, ⟨⟩⟩)
    exact .mk inside below.inside

end Whole

theorem Makes.mapWhole {γ : Type} {nodes : Nat} {deep : Prop}
    {f : γ → Assembling σ (List (Plan F))} {cs : List γ}
    (each : ∀ c ∈ cs, Makes (f c) (Whole nodes) deep) :
    Makes (cs.mapM f) (fun n plans => Whole nodes n plans.flatten) deep := by
  induction cs with
  | nil =>
    rw [List.mapM_nil]
    exact .pure .nil
  | cons c cs ih =>
    rw [List.mapM_cons]
    refine (each c List.mem_cons_self).bind fun m first whole => ?_
    refine (ih fun d member => each d (List.mem_cons_of_mem _ member)).bind fun n rest others => ?_
    exact .pure (whole.append others)

/-! ## Making a plan for a linked pattern -/

variable [Scalar F] {p : Pattern} (h : Host F σ) {deep : Prop}

theorem makes_passes (outer : Frames F) (i : NodeId) :
    Makes (passes p h outer i) (fun n _ => n = 0) deep := by
  unfold passes
  split
  · exact .pure rfl
  · split
    · exact .pure rfl
    · exact (Makes.staged _).bindIdle fun _ => .pure rfl

theorem makes_arguments (outer : Frames F) (i : NodeId) :
    Makes (arguments p h outer i) (fun n _ => n = 0) deep :=
  .mapIdle (fun _ => .staged _) _

theorem makes_bulletHolder (linked : p.Linked) (outer : Frames F) (i : NodeId) :
    Makes (bulletHolder p h outer i) (Whole p.tree.size) deep := by
  unfold bulletHolder
  split
  · next kind =>
    obtain ⟨target, leads, within⟩ := linked.target kind rfl
    simp only [leads]
    refine (makes_arguments h outer i).bindIdle fun args => .bindClaim (.pure ?_)
    exact Whole.nil.task within _ _
  · next kind => exact .bindClaim (.pure (Whole.nil.task (Tree.lt_size_of_kind? kind) _ _))
  · exact .pure .nil

theorem makes_fire (linked : p.Linked) (outer : Frames F) (args : List F) {i : NodeId}
    (inside : i < p.tree.size) :
    Makes (fire p h outer args i) (fun n plan => Whole p.tree.size n [plan]) deep := by
  refine .bindClaim ?_
  refine (Makes.mapWhole fun c _ => makes_bulletHolder h linked _ c).bind fun m holders whole => ?_
  exact .pure (whole.task inside _ _)

/-- References below a node are nested too deep, where some references are around it already. -/
def TooDeep (p : Pattern) (depth : Nat) (i : NodeId) : Prop :=
  ∃ chain, p.Nested i chain ∧ Limit.expansion ≤ chain.length + depth

/-- A node is made into tasks all of which are counted; this fails for too deep references only if
there is a chain of them below the node around it. -/
theorem makes_node (linked : p.Linked) (depth : Nat) (outer : Frames F) {parent i : NodeId}
    (child : i ∈ p.tree.children parent) :
    Makes (node p h depth outer i) (Whole p.tree.size) (TooDeep p depth parent) := by
  induction depth, i using node_induction p generalizing outer parent with
  | step depth i below beyond =>
    have inside := (Tree.lt_of_mem_children child).2
    -- the nodes below a node that is no reference
    have children : (p.tree.kind? i = some .action ∨ p.tree.kind? i = some .repeat) →
        ∀ outer, Makes ((p.tree.childrenAbove i).mapM fun c => node p h depth outer c.1)
          (fun n plans => Whole p.tree.size n plans.flatten) (TooDeep p depth parent) := by
      intro ofKind outer
      refine .mapWhole fun c member =>
        (below c.1 c.2 outer (Tree.mem_children_of_childrenAbove member)).mono ?_
      rintro ⟨chain, nested, long⟩
      exact ⟨chain, nested.outward child ofKind, long⟩
    rw [node]
    split
    -- a repeat
    · next kind =>
      exact .bindClaim ((children (.inr kind) _).bind fun m plans whole =>
        .pure (whole.task inside _ _))
    -- an action
    · next kind =>
      exact (makes_passes h outer i).bindIdle fun bound => .bindClaim
        ((children (.inl kind) _).bind fun m plans whole => .pure (whole.task inside _ _))
    -- an action reference, which makes chains below the action that it names longer by one
    · next kind =>
      split
      · next shallow =>
        obtain ⟨target, leads, within⟩ := linked.target kind rfl
        have named : ∀ outer, Makes
            ((p.tree.childrenAbove target).mapM fun c => node p h (depth + 1) outer c.1)
            (fun n plans => Whole p.tree.size n plans.flatten) (TooDeep p depth parent) := by
          intro outer
          refine .mapWhole fun c member =>
            (beyond shallow c.1 outer (Tree.mem_children_of_childrenAbove member)).mono ?_
          rintro ⟨chain, nested, long⟩
          refine ⟨i :: chain, .cons (.child child) kind leads nested, ?_⟩
          rw [List.length_cons]
          omega
        simp only [leads]
        refine (makes_passes h outer i).bindIdle fun bound =>
          (makes_arguments h outer i).bindIdle fun args => .bindClaim ?_
        refine (makes_passes h _ target).bindIdle fun innerBound => .bindClaim ?_
        exact (named _).bind fun m plans whole =>
          .pure ((whole.task within _ _).task inside _ _)
      · next deep =>
        exact .tooDeep ⟨[], .nil parent, by simpa using deep⟩
    -- a fire
    · exact (makes_fire h linked outer [] inside).bind fun m made whole => .pure whole
    -- a fire reference
    · next kind =>
      split
      · obtain ⟨target, leads, within⟩ := linked.target kind rfl
        simp only [leads]
        exact (makes_arguments h outer i).bindIdle fun args =>
          (makes_fire h linked outer args within).bind fun m made whole => .pure whole
      · next deep =>
        exact .tooDeep ⟨[], .nil parent, by simpa using deep⟩
    -- a task without others below it, or no task
    · split
      · exact .bindClaim (.pure (Whole.nil.task inside _ _))
      · exact .pure .nil

theorem makes_root (linked : p.Linked) (scope : Frames F) {i : NodeId} (inside : i < p.tree.size) :
    Makes (root p h scope i) (fun n plan => Whole p.tree.size n [plan]) (TooDeep p 0 i) := by
  refine .bindClaim ?_
  refine (Makes.mapWhole fun c child => makes_node h linked 0 _ child).bind fun m plans whole => ?_
  exact .pure (whole.task inside _ _)

/-! ## What is read meanwhile -/

section Reads

variable {p' : Pattern} {i : NodeId}

theorem passes_extended (surrounded : p.Surrounded) (extended : p.Extended p') (outer : Frames F)
    (inside : i < p.tree.size) : passes p' h outer i = passes p h outer i := by
  unfold passes
  rw [extended.repeat? inside]
  cases around : p.repeat? i with
  | none => rfl
  | some r => simp only [extended.tree.childExpression? (surrounded i r around)]

theorem arguments_extended (extended : p.Extended p') (outer : Frames F)
    (inside : i < p.tree.size) : arguments p' h outer i = arguments p h outer i := by
  unfold arguments
  rw [extended.tree.childrenOfKind inside]
  refine mapM_congr fun c child => ?_
  rw [extended.tree.expression (Tree.lt_of_mem_children (List.mem_filter.1 child).1).2]

theorem bulletHolder_extended (extended : p.Extended p') (outer : Frames F)
    (inside : i < p.tree.size) : bulletHolder p' h outer i = bulletHolder p h outer i := by
  unfold bulletHolder
  rw [extended.tree.kind? inside, extended.target? inside, arguments_extended h extended _ inside]

theorem fire_extended (linked : p.Linked) (extended : p.Extended p') (outer : Frames F)
    (args : List F) (inside : i < p.tree.size) :
    fire p' h outer args i = fire p h outer args i := by
  unfold fire
  congr 1
  funext _
  rw [extended.tree.children inside, mapM_congr fun c child =>
    bulletHolder_extended h extended (args :: outer) (Tree.lt_of_mem_children child).2]
  -- the bullet that counts is one of the nodes of the tree
  refine Ends.bind_congr fun a holders a' ended => ?_
  have within : ∀ b ∈ holders.flatten.getLast?.map Plan.node, b < p.tree.size := by
    have held := nodes_of_holders (Ends.forall₂_mapM ended fun c _ t qs t' ended =>
      (nodes_of_bulletHolder ended).1)
    intro b last
    rw [← List.getLast?_map, held] at last
    obtain ⟨c, -, found⟩ := List.mem_filterMap.1 (List.mem_of_getLast? last)
    exact linked.lt_size_of_bulletAt? found
  dsimp only
  rw [extended.tree.shotRule inside within, extended.tree.shotRule inside within]

theorem mapM_childrenAbove_congr {α : Type} (extended : p.Extended p') (inside : i < p.tree.size)
    {f f' : NodeId → Assembling σ α}
    (same : ∀ c, i < c ∧ c < p.tree.size → f' c = f c) :
    ((p'.tree.childrenAbove i).mapM fun ⟨c, _⟩ => f' c) =
      (p.tree.childrenAbove i).mapM fun ⟨c, _⟩ => f c := by
  have whole : ∀ (t : Tree) (g : NodeId → Assembling σ α),
      ((t.childrenAbove i).mapM fun ⟨c, _⟩ => g c) = (t.children i).mapM g := by
    intro t g
    rw [← Tree.childrenAbove_map_val, List.mapM_map]
    rfl
  rw [whole, whole, extended.tree.children inside]
  exact mapM_congr fun c child => same c (Tree.lt_of_mem_children child)

theorem node_extended (linked : p.Linked) (surrounded : p.Surrounded) (extended : p.Extended p')
    (depth : Nat) (outer : Frames F) (inside : i < p.tree.size) :
    node p' h depth outer i = node p h depth outer i := by
  induction depth, i using node_induction p generalizing outer with
  | step depth i below beyond =>
    have children : ∀ outer,
        ((p'.tree.childrenAbove i).mapM fun ⟨c, _⟩ => node p' h depth outer c) =
          (p.tree.childrenAbove i).mapM fun ⟨c, _⟩ => node p h depth outer c :=
      fun outer => mapM_childrenAbove_congr extended inside fun c above =>
        below c above outer above.2
    rw [node, node, extended.tree.kind? inside, extended.target? inside,
      passes_extended h surrounded extended outer inside,
      arguments_extended h extended outer inside, extended.tree.simpleWork? inside,
      fire_extended h linked extended outer [] inside]
    split
    -- a repeat, and an action
    · exact bind_congr fun _ => congrArg (· >>= _) (children _)
    · exact bind_congr fun _ => bind_congr fun _ => congrArg (· >>= _) (children _)
    -- an action reference
    · next kind =>
      split
      · next shallow =>
        obtain ⟨target, leads, within⟩ := linked.target kind rfl
        have named : ∀ outer,
            ((p'.tree.childrenAbove target).mapM fun ⟨c, _⟩ => node p' h (depth + 1) outer c) =
              (p.tree.childrenAbove target).mapM fun ⟨c, _⟩ => node p h (depth + 1) outer c :=
          fun outer => mapM_childrenAbove_congr extended within fun c above =>
            beyond shallow c outer above.2
        simp only [leads]
        refine bind_congr fun bound => bind_congr fun args => bind_congr fun _ => ?_
        rw [passes_extended h surrounded extended _ within]
        exact bind_congr fun _ => bind_congr fun _ => congrArg (· >>= _) (named _)
      · rfl
    -- a fire
    · rfl
    -- a fire reference
    · next kind =>
      split
      · obtain ⟨target, leads, within⟩ := linked.target kind rfl
        simp only [leads]
        refine bind_congr fun args => ?_
        rw [fire_extended h linked extended _ args within]
      · rfl
    -- a task without others below it, or no task
    · rfl

theorem root_extended (linked : p.Linked) (surrounded : p.Surrounded) (extended : p.Extended p')
    (scope : Frames F) (inside : i < p.tree.size) : root p' h scope i = root p h scope i := by
  unfold root
  rw [extended.tree.children inside, mapM_congr fun c child =>
    node_extended h linked surrounded extended 0 ([] :: scope) (Tree.lt_of_mem_children child).2]

end Reads

end Assembly

/-! ## Plans of patterns that may refer to themselves -/

/-- What making a plan for a node comes to, with a number of tasks that were made meanwhile. -/
structure Plan.Expansion (p : Pattern) (scope : Frames F) (i : NodeId)
    (outcome : Except RunError (Plan F)) (tasks : Nat) : Prop where
  resolved : ∀ kind r, outcome ≠ .error (.unresolved kind r)
  /-- References are nested too deep only in a chain that is as long as none may be. -/
  shallow : (∀ chain, p.Nested i chain → chain.length < Limit.expansion) →
    ∀ r, outcome ≠ .error (.tooDeep r)
  /-- However it ends, no more tasks are made than there may be. -/
  bounded : tasks ≤ Limit.tasks
  /-- There are too many tasks only after as many as there may be. -/
  full : outcome = .error .tooManyTasks → tasks = Limit.tasks
  /-- A plan has all tasks that were made, and they name each other and nodes of the tree only. -/
  plan : ∀ plan, outcome = .ok plan → plan.size = tasks ∧
    ∀ cell, (TaskRow.ofCell 0 none scope plan cell).length = tasks ∧
      ∀ row ∈ TaskRow.ofCell 0 none scope plan cell, row.InRange tasks p.tree.size

theorem Assembly.Outcome.expansion {p : Pattern} {i : NodeId} {r : Except RunError (Plan F)}
    {a : Assembly σ} (scope : Frames F)
    (ending : Outcome (fun n plan => Whole p.tree.size n [plan]) (TooDeep p 0 i) 0 (r, a)) :
    Plan.Expansion p scope i r a.tasks := by
  cases ending with
  | @ok plan _ _ whole counted bounded =>
    have size : plan.size = a.tasks := by rw [counted, Nat.zero_add, ← whole.sizes]; rfl
    refine ⟨nofun, nofun, bounded, nofun, ?_⟩
    rintro _ ⟨⟩
    refine ⟨size, fun cell => ⟨by rw [TaskRow.length_ofCell, size], ?_⟩⟩
    exact TaskRow.inRange_ofCell 0 none scope plan cell (whole.inside plan List.mem_cons_self)
      (by omega) nofun
  | full all => exact ⟨nofun, nofun, Nat.le_of_eq all, fun _ => all, nofun⟩
  | deep nested bounded =>
    refine ⟨nofun, fun short => ?_, bounded, nofun, nofun⟩
    obtain ⟨chain, nested, long⟩ := nested
    exact absurd (short chain nested) (Nat.not_lt.2 long)

/-- Making a plan for a node of a linked pattern ends with a plan of limited size or with one of two
failures, in whatever way the pattern refers to itself, and reads nothing outside of the tree. -/
theorem Plan.expansion_of_build [Scalar F] {p : Pattern} (linked : p.Linked) {i : NodeId}
    (inside : i < p.tree.size) (h : Host F σ) (scope : Frames F) :
    (∀ s : Stage σ, Plan.Expansion p scope i ((Plan.build h p scope i).run s).1
      ((Assembly.root p h scope i).run.run { toStage := s }).2.tasks) ∧
    (p.Surrounded → ∀ p', p.Extended p' → Plan.build h p' scope i = Plan.build h p scope i) := by
  refine ⟨fun s => ?_, fun surrounded p' extended => ?_⟩
  · exact (Assembly.makes_root h linked scope inside { toStage := s }
      (Nat.zero_le _)).expansion scope
  · unfold Plan.build
    rw [Assembly.root_extended h linked surrounded extended scope inside]

namespace Load

def loop : String :=
  "<bulletml><action label='top'><actionRef label='top'/><actionRef label='top'/></action>"
    ++ "</bulletml>"

open scoped Sample in
theorem expansion_of_build_loop : ∃ p j', Ends (pattern {} loop) {} p j' ∧ p.Linked ∧
    1 < p.tree.size ∧ p.Nested 1 [2, 3, 2] ∧
    Plan.Expansion p [] 1 ((Plan.build Sample.host p [] 1).run Sample.stage).1
      ((Assembly.root p Sample.host [] 1).run.run { toStage := Sample.stage }).2.tasks ∧
    ∀ p', p.Extended p' → Plan.build Sample.host p' [] 1 = Plan.build Sample.host p [] 1 := by
  cases result : (pattern {} loop).run.run {} with
  | mk outcome j' =>
    have loads : (((pattern {} loop).run.run {}).1.toOption).isSome := by decide +kernel
    have found : ((((pattern {} loop).run.run {}).1.toOption).all fun p =>
        p.tree.size = 4 ∧ p.tree.children 1 = [2, 3] ∧ p.tree.kind? 2 = some .actionRef ∧
        p.tree.kind? 3 = some .actionRef ∧ p.target? 2 = some 1 ∧ p.target? 3 = some 1 ∧
        ∀ i < 4, p.tree.findParent? .fireRef i = none) = true := by decide +kernel
    rw [result] at loads found
    cases outcome with
    | error e => cases loads
    | ok p =>
      simp only [Except.toOption, Option.all_some, decide_eq_true_eq] at found
      obtain ⟨size, below, first, second, again, again', outside⟩ := found
      have linked : p.Linked := linked_of_pattern result fun i kind ofKind _ =>
        outside i (size ▸ Tree.lt_size_of_kind? ofKind)
      have inside : 1 < p.tree.size := by rw [size]; decide
      have nested : p.Nested 1 [2, 3, 2] :=
        .cons (.child (by simp [below])) first again
          (.cons (.child (by simp [below])) second again'
            (.cons (.child (by simp [below])) first again (.nil 1)))
      have expansion := Plan.expansion_of_build linked inside Sample.host []
      exact ⟨p, j', result, linked, inside, nested, expansion.1 Sample.stage,
        expansion.2 (surrounded_of_pattern result)⟩

end Load

end Barrage
