import Barrage.Proofs.Task.Slots
import Barrage.Proofs.Task.Tick

/-!
Tasks in one list that come from a plan. Each of them stands before all tasks below it, so starting
and running come to an end, and do to the list what they do to the state of the plan. The fuel that
is enough depends on the plan alone: on its tasks and on the passes of its actions.
-/

set_option autoImplicit false

namespace Barrage

variable {F σ α : Type}

namespace Machine

/-! ## Machines with some tasks among others -/

def among (before after slots : List (Slot F)) (actor : Actor F σ) : Machine F σ :=
  ⟨before ++ slots ++ after, actor⟩

variable {before after slots slots' : List (Slot F)} {s s' : Slot F} {a : Actor F σ}

theorem among_cons : among before after (s :: slots) a = among (before ++ [s]) after slots a := by
  simp [among]

theorem among_append_left :
    among before after (slots ++ slots') a = among before (slots' ++ after) slots a := by
  simp [among]

theorem among_append_right :
    among before after (slots ++ slots') a = among (before ++ slots) after slots' a := by
  simp [among]

theorem halts_slotAt {m : Machine F σ} {id : Nat} (found : m.slots[id]? = some s) :
    Halts (slotAt id) m s m := by
  change (m.slots[id]?.map fun s => (s, m)) = some (s, m)
  rw [found]
  rfl

theorem getElem?_among :
    (among before after (s :: slots) a).slots[before.length]? = some s := by
  simp [among]

theorem halts_slotAt_among :
    Halts (slotAt before.length) (among before after (s :: slots) a) s
      (among before after (s :: slots) a) :=
  halts_slotAt getElem?_among

theorem halts_store_among :
    Halts (store before.length s') (among before after (s :: slots) a) ()
      (among before after (s' :: slots) a) := by
  simp [Halts, store, among]

theorem halts_acting (x : Acting F σ α) :
    Halts (acting x) (among before after slots a) (x.run a).1
      (among before after slots (x.run a).2) := rfl

/-! ## Arguments in scope -/

/-- The arguments that are found by going up from a place, and how many tasks are on the way. -/
inductive InScope (scope : Frames F) (slots : List (Slot F)) :
    (depth : Nat) → Option Nat → Frames F → Prop where
  | top : InScope scope slots 0 none scope
  | under {depth id : Nat} {s : Slot F} {outer : Frames F} (found : slots[id]? = some s)
      (above : InScope scope slots depth s.owner? outer) :
      InScope scope slots (depth + 1) (some id) (s.args :: outer)

variable {scope outer : Frames F} {depth fuel : Nat} {id? : Option Nat}

theorem InScope.append (inScope : InScope scope before depth id? outer) (slots : List (Slot F)) :
    InScope scope (before ++ slots) depth id? outer := by
  induction inScope with
  | top => exact .top
  | under found above ih =>
    refine .under ?_ ih
    rw [List.getElem?_append_left (List.getElem?_eq_some_iff.1 found).1]
    exact found

theorem InScope.inside (inScope : InScope scope before depth s.owner? outer) :
    InScope scope (before ++ [s]) (depth + 1) (some before.length) (s.args :: outer) :=
  .under (by simp) (inScope.append [s])

theorem InScope.halts_frames {m : Machine F σ} (inScope : InScope scope m.slots depth id? outer)
    (enough : depth ≤ fuel) : Halts (frames scope fuel id?) m outer m := by
  induction inScope generalizing fuel with
  | top =>
    rw [frames]
    exact .pure _ _
  | under found above ih =>
    cases fuel with
    | zero => omega
    | succ fuel =>
      rw [frames]
      exact (halts_slotAt found).bind ((ih (by omega)).bind (.pure _ _))

variable [Scalar F] (h : Host F σ)

theorem halts_prepare (inScope : InScope scope before depth s.owner? outer)
    (enough : depth + 1 ≤ fuel) :
    let r := (s.work.prepareAgain h (s.args :: outer) s.progress).run a
    Halts (prepare h scope fuel before.length) (among before after (s :: slots) a) ()
      (among before after ({ s with progress := r.1 } :: slots) r.2) := by
  intro r
  have around : InScope scope (among before after (s :: slots) a).slots (depth + 1)
      (some before.length) (s.args :: outer) := by
    rw [among_cons]
    exact (inScope.inside.append slots).append after
  exact halts_slotAt_among.bind ((around.halts_frames enough).bind
    ((halts_acting _).bind halts_store_among))

end Machine

/-! ## Fuel -/

def Work.passes : Work → Nat
  | .action bound => bound.toNat
  | _ => 0

mutual

def Plan.effort (depth : Nat) : Plan F → Nat
  | .mk _ _ work children => work.passes + depth + 2 + Plan.efforts (depth + 1) children

def Plan.efforts (depth : Nat) : List (Plan F) → Nat
  | [] => 0
  | p :: ps => p.effort depth + Plan.efforts depth ps

end

variable [Scalar F] (h : Host F σ)

/-! ## Starting -/

theorem Work.prepareAgain_rewind (frames : Frames F) (w : Work) (progress : w.Progress F) :
    w.prepareAgain h frames (w.rewind progress) = w.prepareReset h frames progress := by
  cases w <;> rfl

namespace Machine

variable {scope : Frames F}

omit [Scalar F] in
theorem halts_cons {x : Nat → Machining F σ Unit} {p : Plan F} {ps : List (Plan F)}
    {before after : List (Slot F)} {owner? : Option Nat} {head head' : Cell F p}
    {tail tail' : Cells F ps} {a a' a'' : Actor F σ}
    (onHead : ∀ after, Halts (x before.length)
      (among before after (Slot.ofCell before.length owner? p head) a) ()
      (among before after (Slot.ofCell before.length owner? p head') a'))
    (rest : ∀ before' : List (Slot F), before'.length = before.length + p.size →
      before <+: before' →
      Halts (forM (TaskRow.indices before'.length ps) x)
        (among before' after (Slot.ofCells before'.length owner? ps tail) a') ()
        (among before' after (Slot.ofCells before'.length owner? ps tail') a'')) :
    Halts (forM (TaskRow.indices before.length (p :: ps)) x)
      (among before after (Slot.ofCells before.length owner? (p :: ps) (.cons head tail)) a) ()
      (among before after
        (Slot.ofCells before.length owner? (p :: ps) (.cons head' tail')) a'') := by
  have length : (before ++ Slot.ofCell before.length owner? p head').length
      = before.length + p.size := by
    rw [List.length_append, Slot.length_ofCell]
  have rest := rest _ length (List.prefix_append _ _)
  rw [length, ← among_append_right, ← among_append_right] at rest
  rw [TaskRow.indices, List.forM_cons, Slot.ofCells, Slot.ofCells, among_append_left]
  refine (onHead _).bind ?_
  rw [← among_append_left]
  exact rest

theorem halts_around {x : Nat → Machining F σ Unit} {children : List (Plan F)} {s : Slot F}
    (s' : Slot F) {before after : List (Slot F)} {depth fuel : Nat} {outer : Frames F}
    {below below' : Cells F children} {a a' : Actor F σ}
    (inScope : InScope scope before depth s'.owner? outer) (enough : depth + 1 ≤ fuel)
    (inside : ∀ before' : List (Slot F), before' = before ++ [s'] →
      Halts (forM (TaskRow.indices before'.length children) x)
        (among before' after (Slot.ofCells before'.length (some before.length) children below) a) ()
        (among before' after
          (Slot.ofCells before'.length (some before.length) children below') a')) :
    let r := (s'.work.prepareAgain h (s'.args :: outer) s'.progress).run a'
    Halts (do
        store before.length s'
        forM (TaskRow.indices (before.length + 1) children) x
        prepare h scope fuel before.length)
      (among before after
        (s :: Slot.ofCells (before.length + 1) (some before.length) children below) a) ()
      (among before after ({ s' with progress := r.1 } ::
        Slot.ofCells (before.length + 1) (some before.length) children below') r.2) := by
  have inside := inside _ rfl
  rw [List.length_append, List.length_singleton, ← among_cons, ← among_cons] at inside
  exact halts_store_among.bind (inside.bind (halts_prepare h inScope enough))

mutual

theorem halts_reset : (p : Plan F) → (cell : Cell F p) → {before : List (Slot F)} →
    {depth fuel : Nat} → {owner? : Option Nat} → {outer : Frames F} →
    InScope scope before depth owner? outer → p.effort depth ≤ fuel → (after : List (Slot F)) →
    (a : Actor F σ) →
    Halts (reset h scope fuel before.length)
      (among before after (Slot.ofCell before.length owner? p cell) a) ()
      (among before after (Slot.ofCell before.length owner? p ((p.reset h outer cell).run a).1)
        ((p.reset h outer cell).run a).2)
  | .mk node args work children, .mk finished progress below, before, depth, fuel, owner?,
      outer, inScope, enough, after, a => by
    rw [Plan.effort] at enough
    obtain ⟨fuel, rfl⟩ : ∃ n, fuel = n + 1 := ⟨fuel - 1, by omega⟩
    rw [reset, Slot.ofCell]
    rw [Plan.reset, run_bind_eq, run_bind_eq, run_pure_eq, Slot.ofCell, ← work.prepareAgain_rewind]
    refine halts_slotAt_among.bind (halts_around h (Slot.rewound _) inScope (by omega) ?_)
    rintro _ rfl
    exact halts_resetAll children below inScope.inside (by omega) after a

theorem halts_resetAll : (ps : List (Plan F)) → (below : Cells F ps) →
    {before : List (Slot F)} → {depth fuel : Nat} → {owner? : Option Nat} →
    {outer : Frames F} → InScope scope before depth owner? outer → Plan.efforts depth ps ≤ fuel →
    (after : List (Slot F)) → (a : Actor F σ) →
    Halts (forM (TaskRow.indices before.length ps) (reset h scope fuel))
      (among before after (Slot.ofCells before.length owner? ps below) a) ()
      (among before after
        (Slot.ofCells before.length owner? ps ((Plan.resetAll h outer ps below).run a).1)
        ((Plan.resetAll h outer ps below).run a).2)
  | [], .nil, _, _, _, _, _, _, _, _, _ => .pure _ _
  | p :: ps, .cons head tail, before, depth, fuel, owner?, outer, inScope, enough, after, a => by
    rw [Plan.efforts] at enough
    rw [Plan.resetAll, run_bind_eq, run_bind_eq, run_pure_eq]
    refine halts_cons (fun after => halts_reset p head inScope (by omega) after a) ?_
    rintro before' - ⟨more, rfl⟩
    exact halts_resetAll ps tail (inScope.append more) (by omega) after _

end

mutual

theorem halts_start : (p : Plan F) → (cell : Cell F p) → {before : List (Slot F)} →
    {depth fuel : Nat} → {owner? : Option Nat} → {outer : Frames F} →
    InScope scope before depth owner? outer → p.effort depth ≤ fuel → (after : List (Slot F)) →
    (a : Actor F σ) →
    Halts (start h scope fuel before.length)
      (among before after (Slot.ofCell before.length owner? p cell) a) ()
      (among before after (Slot.ofCell before.length owner? p ((p.restart h outer cell).run a).1)
        ((p.restart h outer cell).run a).2)
  | .mk node args work children, .mk finished progress below, before, depth, fuel, owner?,
      outer, inScope, enough, after, a => by
    have enough' := enough
    rw [Plan.effort] at enough
    obtain ⟨fuel, rfl⟩ : ∃ n, fuel = n + 1 := ⟨fuel - 1, by omega⟩
    rw [start, Slot.ofCell]
    refine halts_slotAt_among.bind ?_
    by_cases again : work = .again
    · subst again
      rw [if_pos rfl, Plan.restart]
      exact halts_reset h (.mk node args .again children) (.mk finished progress below) inScope
        enough' after a
    · rw [if_neg again, Plan.restart_eq h outer again, run_bind_eq, run_bind_eq, run_pure_eq,
        Slot.ofCell]
      refine halts_around h (Slot.marked _ false) inScope (by omega) ?_
      rintro _ rfl
      exact halts_startAll children below inScope.inside (by omega) after a

theorem halts_startAll : (ps : List (Plan F)) → (below : Cells F ps) →
    {before : List (Slot F)} → {depth fuel : Nat} → {owner? : Option Nat} →
    {outer : Frames F} → InScope scope before depth owner? outer → Plan.efforts depth ps ≤ fuel →
    (after : List (Slot F)) → (a : Actor F σ) →
    Halts (forM (TaskRow.indices before.length ps) (start h scope fuel))
      (among before after (Slot.ofCells before.length owner? ps below) a) ()
      (among before after
        (Slot.ofCells before.length owner? ps ((Plan.restartAll h outer ps below).run a).1)
        ((Plan.restartAll h outer ps below).run a).2)
  | [], .nil, _, _, _, _, _, _, _, _, _ => .pure _ _
  | p :: ps, .cons head tail, before, depth, fuel, owner?, outer, inScope, enough, after, a => by
    rw [Plan.efforts] at enough
    rw [Plan.restartAll, run_bind_eq, run_bind_eq, run_pure_eq]
    refine halts_cons (fun after => halts_start p head inScope (by omega) after a) ?_
    rintro before' - ⟨more, rfl⟩
    exact halts_startAll ps tail (inScope.append more) (by omega) after _

end

end Machine

/-! ## Starting for the first time -/

theorem Work.prepareAgain_blank (frames : Frames F) (w : Work) :
    w.prepareAgain h frames w.blank = w.prepare h frames := by
  cases w <;> rfl

theorem Work.prepareReset_blank (frames : Frames F) (w : Work) :
    w.prepareReset h frames w.blank = w.prepare h frames := by
  cases w <;> rfl

mutual

theorem Plan.reset_blank (outer : Frames F) : (p : Plan F) →
    p.reset h outer p.blank = p.start h outer
  | .mk node args work children => by
    rw [Plan.blank, Plan.reset, Plan.start, Plan.resetAll_blanks (args :: outer) children,
      work.prepareReset_blank]

theorem Plan.resetAll_blanks (outer : Frames F) : (ps : List (Plan F)) →
    Plan.resetAll h outer ps (Plan.blanks ps) = Plan.startAll h outer ps
  | [] => by rw [Plan.blanks, Plan.resetAll, Plan.startAll]
  | p :: ps => by
    rw [Plan.blanks, Plan.resetAll, Plan.startAll, Plan.reset_blank outer p,
      Plan.resetAll_blanks outer ps]

end

mutual

/-- Starting for the first time is starting again tasks of which nothing has been done. -/
theorem Plan.restart_blank (outer : Frames F) : (p : Plan F) →
    p.restart h outer p.blank = p.start h outer
  | .mk node args work children => by
    by_cases again : work = .again
    · subst again
      rw [← Plan.reset_blank, Plan.blank, Plan.restart]
    · rw [Plan.blank, Plan.restart_eq h outer again, Plan.start,
        Plan.restartAll_blanks (args :: outer) children, work.prepareAgain_blank]

theorem Plan.restartAll_blanks (outer : Frames F) : (ps : List (Plan F)) →
    Plan.restartAll h outer ps (Plan.blanks ps) = Plan.startAll h outer ps
  | [] => by rw [Plan.blanks, Plan.restartAll, Plan.startAll]
  | p :: ps => by
    rw [Plan.blanks, Plan.restartAll, Plan.startAll, Plan.restart_blank outer p,
      Plan.restartAll_blanks outer ps]

end

/-! ## Running -/

theorem Env.shoot_congr (env : Env F σ) (node : NodeId) {frames : Frames F}
    {holders holders' : List (Plan F)}
    (same : Ammunition.ofPlans? frames holders = Ammunition.ofPlans? frames holders')
    (direction speed : ShotRule) (shots : Shots F) :
    env.shoot node frames holders direction speed shots
      = env.shoot node frames holders' direction speed shots := by
  simp only [Env.shoot, same]

/-- Only the bullet of a fire matters of the tasks below a task that does not do them. -/
theorem Env.tickAlone_congr (env : Env F σ) (node : NodeId) {frames : Frames F}
    {holders holders' : List (Plan F)}
    (same : Ammunition.ofPlans? frames holders = Ammunition.ofPlans? frames holders') (w : Work)
    (progress : w.Progress F) : env.tickAlone node frames holders w progress
      = env.tickAlone node frames holders' w progress := by
  cases w with
  | fire direction speed =>
    have shoot := env.shoot_congr node same direction speed progress
    exact congrArg (· >>= fun shots => pure (Status.done, shots)) shoot
  | _ => rfl

theorem Env.run_alone (env : Env F σ) (outer : Frames F) {node : NodeId} {args : List F} {w : Work}
    {children : List (Plan F)} (alone : w.isPlain = false) (finished : Bool)
    (progress : w.Progress F) (below : Cells F children) (a : Actor F σ) :
    let r := (env.tickAlone node (args :: outer) children w progress).run a
    (env.run outer (.mk node args w children) (.mk finished progress below)).run a
      = ((r.1.1, .mk (finished || r.1.1.isDone) r.1.2 below), r.2) := by
  intro r
  cases w with
  | sequence | again | action => cases alone
  | wait => rfl
  | turn | glide | accelerate =>
    simp only [r, Env.tickAlone, run_bind_eq, run_pure_eq, Status.isDone_ofDone]
    rfl
  | fire | vanish =>
    simp only [r, Env.tickAlone, run_bind_eq, run_pure_eq, Status.isDone, decide_true, Bool.or_true]
    rfl

namespace Machine

omit [Scalar F] in
theorem halts_loop {S : Type} {pass : S → Acting F σ (Status × S)} {restart : S → Acting F σ S}
    {body : Machining F σ Status} {again : Machining F σ Unit} {node : NodeId} {args : List F}
    {bound : Int} {owner? : Option Nat} {ids : List Nat} {before after : List (Slot F)}
    {lay : S → List (Slot F)} (bounded : bound ≤ Limit.passes)
    (once : ∀ finished passed below a, Halts body
      (among before after
        (⟨node, args, .action bound, owner?, ids, finished, passed⟩ :: lay below) a)
      ((pass below).run a).1.1
      (among before after (⟨node, args, .action bound, owner?, ids,
        ((pass below).run a).1.1.isDone, passed⟩ :: lay ((pass below).run a).1.2)
        ((pass below).run a).2))
    (anew : ∀ finished passed below a, Halts again
      (among before after
        (⟨node, args, .action bound, owner?, ids, finished, passed⟩ :: lay below) a) ()
      (among before after (⟨node, args, .action bound, owner?, ids, finished, passed⟩ ::
        lay ((restart below).run a).1) ((restart below).run a).2))
    {left fuel : Nat} (enough : left + 1 ≤ fuel) {passed : Nat}
    (same : (bound - Int.ofNat passed).toNat = left) (finished : Bool) (below : S) (a : Actor F σ) :
    let r := (passesOver pass restart left passed below).run a
    Halts (loop body again before.length fuel)
      (among before after
        (⟨node, args, .action bound, owner?, ids, finished, passed⟩ :: lay below) a) r.1.1
      (among before after (⟨node, args, .action bound, owner?, ids, r.1.1.isDone, r.1.2.1⟩ ::
        lay r.1.2.2) r.2) := by
  induction left generalizing fuel passed finished below a with
  | zero =>
    obtain ⟨fuel, rfl⟩ : ∃ n, fuel = n + 1 := ⟨fuel - 1, by omega⟩
    rw [loop]
    refine halts_slotAt_among.bind ?_
    have ended : bound ≤ Int.ofNat passed := by omega
    simp only [Slot.passes?, if_pos ended]
    exact halts_slotAt_among.bind (halts_store_among.bind (.pure _ _))
  | succ left ih =>
    obtain ⟨fuel, rfl⟩ : ∃ n, fuel = n + 1 := ⟨fuel - 1, by omega⟩
    rw [loop]
    refine halts_slotAt_among.bind ?_
    have more : ¬ bound ≤ Int.ofNat passed := by omega
    simp only [Slot.passes?, if_neg more]
    refine (once finished passed below a).bind ?_
    rw [passesOver, run_bind_eq]
    generalize (pass below).run a = r
    obtain ⟨⟨status, below⟩, a⟩ := r
    cases status with
    | running | waiting => exact .pure _ _
    | done =>
      refine halts_slotAt_among.bind ?_
      -- the bound can be counted, so one more pass can
      have number : Int.ofNat passed < Limit.passes := by omega
      rw [Slot.counted?_action number]
      refine halts_store_among.bind ((anew _ _ _ _).bind ?_)
      have counted : (bound - Int.ofNat (passed + 1)).toNat = left := by
        have next : Int.ofNat (passed + 1) = Int.ofNat passed + 1 := rfl
        omega
      exact ih (by omega) counted true _ _

omit [Scalar F] in
theorem exists_last {ps : List (Plan F)} {q : Plan F} (last : ps.getLast? = some q)
    (below : Cells F ps) (before after : List (Slot F)) (owner? : Option Nat) (a : Actor F σ) :
    ∃ id s, (TaskRow.indices before.length ps).getLast? = some id ∧
      (among before after (Slot.ofCells before.length owner? ps below) a).slots[id]? = some s ∧
      s.node = q.node ∧ s.args = q.args := by
  induction ps generalizing before with
  | nil => cases last
  | cons p ps ih =>
    cases below with
    | cons head tail =>
      cases ps with
      | nil =>
        cases last
        cases head
        rw [Slot.ofCells, Slot.ofCell, List.cons_append]
        exact ⟨_, _, rfl, getElem?_among, rfl, rfl⟩
      | cons p' ps =>
        rw [List.getLast?_cons_cons] at last
        obtain ⟨id, s, inside, found, rest⟩ := ih last tail
          (before ++ Slot.ofCell before.length owner? p head)
        rw [List.length_append, Slot.length_ofCell] at inside found
        rw [Slot.ofCells, among_append_right]
        refine ⟨id, s, ?_, found, rest⟩
        rw [TaskRow.indices]
        simpa only [TaskRow.indices, List.getLast?_cons_cons] using inside

omit [Scalar F] in
theorem halts_holders {s : Slot F} {children : List (Plan F)} {before : List (Slot F)}
    (named : s.children = TaskRow.indices (before.length + 1) children) (after : List (Slot F))
    (below : Cells F children) (owner? : Option Nat) (a : Actor F σ) :
    ∃ holders', Halts (holders s)
      (among before after (s :: Slot.ofCells (before.length + 1) owner? children below) a) holders'
      (among before after (s :: Slot.ofCells (before.length + 1) owner? children below) a) ∧
      ∀ frames : Frames F,
        Ammunition.ofPlans? frames holders' = Ammunition.ofPlans? frames children := by
  rw [holders, named]
  cases last : children.getLast? with
  | none =>
    obtain rfl := List.getLast?_eq_none_iff.1 last
    exact ⟨[], .pure _ _, fun _ => rfl⟩
  | some q =>
    obtain ⟨id, holder, inside, found, node, args⟩ := exists_last last below
      (before ++ [s]) after owner? a
    rw [List.length_append, List.length_singleton] at inside found
    rw [inside, among_cons]
    refine ⟨[holder.bare], (halts_slotAt found).bind (.pure _ _), fun frames => ?_⟩
    rw [Ammunition.ofPlans?, Ammunition.ofPlans?, last]
    simp [Slot.bare, Plan.node, Plan.args, node, args]

variable (env : Env F σ) {scope : Frames F}

theorem halts_runAlone (s : Slot F) {children : List (Plan F)} {before : List (Slot F)}
    {outer : Frames F} {depth fuel : Nat} (inScope : InScope scope before depth s.owner? outer)
    (enough : depth + 1 ≤ fuel)
    (named : s.children = TaskRow.indices (before.length + 1) children) (after : List (Slot F))
    (below : Cells F children) (owner? : Option Nat) (a : Actor F σ) :
    let r := (env.tickAlone s.node (s.args :: outer) children s.work s.progress).run a
    Halts (runAlone env scope fuel before.length)
      (among before after (s :: Slot.ofCells (before.length + 1) owner? children below) a) r.1.1
      (among before after ({ s with finished := s.finished || r.1.1.isDone, progress := r.1.2 } ::
        Slot.ofCells (before.length + 1) owner? children below) r.2) := by
  intro r
  have around : InScope scope (among before after
      (s :: Slot.ofCells (before.length + 1) owner? children below) a).slots (depth + 1)
      (some before.length) (s.args :: outer) := by
    rw [among_cons]
    exact (inScope.inside.append _).append after
  obtain ⟨bullets, halts, same⟩ := halts_holders named after below owner? a
  rw [runAlone]
  refine halts_slotAt_among.bind ((around.halts_frames enough).bind (halts.bind ?_))
  rw [env.tickAlone_congr s.node (same _)]
  exact (halts_acting _).bind (halts_store_among.bind (.pure _ _))

omit [Scalar F] in
theorem halts_mark {front earlier after slots : List (Slot F)} {s : Slot F} (finished : Bool)
    (status : Status) (a : Actor F σ) :
    Halts (do
        let s ← slotAt front.length
        store front.length (s.marked finished)
        pure status)
      (among (front ++ s :: earlier) after slots a) status
      (among (front ++ s.marked finished :: earlier) after slots a) := by
  have shift : ∀ s : Slot F, among (front ++ s :: earlier) after slots a
      = among front after (s :: (earlier ++ slots)) a := fun s => by simp [among]
  rw [shift, shift]
  exact halts_slotAt_among.bind (halts_store_among.bind (.pure _ _))

omit [Scalar F] in
/-- What is done behind some tasks, and to the task above them, leaves them as they are. -/
theorem halts_behind {x : Machining F σ α} {s s' : Slot F} {a a' : Actor F σ} {r : α}
    {front earlier after slots slots' slots'' : List (Slot F)}
    (halts : Halts x (among (front ++ s :: (earlier ++ slots)) after slots' a) r
      (among (front ++ s' :: (earlier ++ slots)) after slots'' a')) :
    Halts x (among (front ++ s :: earlier) after (slots ++ slots') a) r
      (among (front ++ s' :: earlier) after (slots ++ slots'') a') := by
  rw [among_append_right, among_append_right, List.append_assoc, List.append_assoc]
  exact halts

omit [Scalar F] in
theorem halts_slotAt_ofCell {p : Plan F} (cell : Cell F p) (before after slots : List (Slot F))
    (owner? : Option Nat) (a : Actor F σ) : ∃ s : Slot F, s.finished = cell.finished ∧
      Halts (slotAt before.length)
        (among before after (Slot.ofCell before.length owner? p cell ++ slots) a) s
        (among before after (Slot.ofCell before.length owner? p cell ++ slots) a) := by
  cases cell with
  | mk finished progress below =>
    rw [Slot.ofCell, List.cons_append]
    exact ⟨_, rfl, halts_slotAt_among⟩

mutual

theorem halts_run : (p : Plan F) → p.Countable → (cell : Cell F p) → {before : List (Slot F)} →
    {depth fuel : Nat} → {owner? : Option Nat} → {outer : Frames F} →
    InScope scope before depth owner? outer → p.effort depth ≤ fuel → (after : List (Slot F)) →
    (a : Actor F σ) →
    Halts (run env scope fuel before.length)
      (among before after (Slot.ofCell before.length owner? p cell) a)
      ((env.run outer p cell).run a).1.1
      (among before after (Slot.ofCell before.length owner? p ((env.run outer p cell).run a).1.2)
        ((env.run outer p cell).run a).2)
  | .mk node args work children, .mk own each, .mk finished progress below, before, depth, fuel,
      owner?, outer, inScope, enough, after, a => by
    rw [Plan.effort] at enough
    obtain ⟨fuel, rfl⟩ : ∃ n, fuel = n + 1 := ⟨fuel - 1, by omega⟩
    -- what is below is done with one unit of fuel less, in every pass with the same amount
    have inOrder : ∀ (s : Slot F) (below : Cells F children) (a : Actor F σ), s.args = args →
        s.owner? = owner? →
        Halts (runInOrder (run env scope fuel) before.length
          (TaskRow.indices (before.length + 1) children) true)
          (among before after
            (s :: Slot.ofCells (before.length + 1) (some before.length) children below) a)
          ((env.runAll (args :: outer) children below true).run a).1.1
          (among before after
            (s.marked ((env.runAll (args :: outer) children below true).run a).1.1.isDone ::
              Slot.ofCells (before.length + 1) (some before.length) children
                ((env.runAll (args :: outer) children below true).run a).1.2)
            ((env.runAll (args :: outer) children below true).run a).2) := by
      rintro s below a rfl rfl
      have less : Plan.efforts (depth + 1) children ≤ fuel := by omega
      have all := halts_runAll children each below inScope.inside less after true a
      rw [List.length_append, List.length_singleton, ← among_cons, ← among_cons] at all
      exact all
    rw [run, Slot.ofCell]
    refine halts_slotAt_among.bind ?_
    by_cases plain : work.isPlain
    · cases work with
      | sequence | again => exact inOrder _ below a rfl rfl
      | action bound =>
        have left : (bound - Int.ofNat progress).toNat ≤ bound.toNat :=
          Int.toNat_le_toNat (Int.sub_le_self bound (Int.natCast_nonneg progress))
        rw [Work.passes] at enough
        refine halts_loop (own bound rfl) (fun _ _ below a => inOrder _ below a rfl rfl) ?_
          (by omega) rfl finished below a
        intro finished passed below a
        let slot : Slot F := ⟨node, args, .action bound, owner?,
          TaskRow.indices (before.length + 1) children, finished, passed⟩
        have less : Plan.efforts (depth + 1) children ≤ fuel := by omega
        have around : InScope scope before depth slot.owner? outer := inScope
        have all := halts_startAll env.host children below around.inside less after a
        rw [List.length_append, List.length_singleton, ← among_cons, ← among_cons] at all
        exact all
      | _ => cases plain
    · rw [Bool.not_eq_true] at plain
      rw [env.run_alone outer plain]
      have less : depth + 1 ≤ fuel := by omega
      let slot : Slot F :=
        ⟨node, args, work, owner?, TaskRow.indices (before.length + 1) children, finished, progress⟩
      have alone := halts_runAlone env slot inScope less rfl after below (some before.length) a
      cases work with
      | sequence | again | action => cases plain
      | _ => exact alone

theorem halts_runAll : (ps : List (Plan F)) → (∀ p ∈ ps, p.Countable) → (below : Cells F ps) →
    {front earlier : List (Slot F)} → {s : Slot F} → {depth fuel : Nat} → {owner? : Option Nat} →
    {outer : Frames F} → InScope scope (front ++ s :: earlier) depth owner? outer →
    Plan.efforts depth ps ≤ fuel → (after : List (Slot F)) → (clear : Bool) → (a : Actor F σ) →
    Halts (runInOrder (run env scope fuel) front.length
        (TaskRow.indices (front ++ s :: earlier).length ps) clear)
      (among (front ++ s :: earlier) after
        (Slot.ofCells (front ++ s :: earlier).length owner? ps below) a)
      ((env.runAll outer ps below clear).run a).1.1
      (among (front ++ s.marked ((env.runAll outer ps below clear).run a).1.1.isDone :: earlier)
        after (Slot.ofCells (front ++ s :: earlier).length owner? ps
          ((env.runAll outer ps below clear).run a).1.2)
        ((env.runAll outer ps below clear).run a).2)
  | [], _, .nil, front, earlier, s, _, _, _, _, _, _, _, clear, a => by
    rw [TaskRow.indices, runInOrder, Env.runAll, run_pure_eq, Status.isDone_ofDone]
    exact halts_mark clear (.ofDone clear) a
  | p :: ps, countable, .cons head tail, front, earlier, s, depth, fuel, owner?, outer, inScope,
      enough, after, clear, a => by
    rw [Plan.efforts] at enough
    rw [TaskRow.indices, runInOrder, Slot.ofCells]
    obtain ⟨t, same, found⟩ := halts_slotAt_ofCell head (front ++ s :: earlier) after
      (Slot.ofCells ((front ++ s :: earlier).length + p.size) owner? ps tail) owner? a
    refine found.bind ?_
    -- the tasks after the first one
    have rest : ∀ (head : Cell F p) (clear : Bool) (a : Actor F σ),
        Halts (runInOrder (run env scope fuel) front.length
            (TaskRow.indices ((front ++ s :: earlier).length + p.size) ps) clear)
          (among (front ++ s :: earlier) after
            (Slot.ofCell (front ++ s :: earlier).length owner? p head ++
              Slot.ofCells ((front ++ s :: earlier).length + p.size) owner? ps tail) a)
          ((env.runAll outer ps tail clear).run a).1.1
          (among
            (front ++ s.marked ((env.runAll outer ps tail clear).run a).1.1.isDone :: earlier) after
            (Slot.ofCell (front ++ s :: earlier).length owner? p head ++
              Slot.ofCells ((front ++ s :: earlier).length + p.size) owner? ps
                ((env.runAll outer ps tail clear).run a).1.2)
            ((env.runAll outer ps tail clear).run a).2) := by
      intro head clear a
      have around := inScope.append (Slot.ofCell (front ++ s :: earlier).length owner? p head)
      rw [List.append_assoc, List.cons_append] at around
      have less : Plan.efforts depth ps ≤ fuel := by omega
      have all := halts_runAll ps (fun q inside => countable q (List.mem_cons_of_mem _ inside)) tail
        around less after clear a
      have length : (front ++ s :: (earlier ++
          Slot.ofCell (front ++ s :: earlier).length owner? p head)).length
          = (front ++ s :: earlier).length + p.size := by
        rw [← List.cons_append, ← List.append_assoc, List.length_append, Slot.length_ofCell]
      rw [length] at all
      exact halts_behind all
    rw [Env.runAll, same]
    split
    · rw [run_bind_eq, run_pure_eq, Slot.ofCells]
      exact rest head clear a
    · have less : p.effort depth ≤ fuel := by omega
      have once := halts_run p (countable p List.mem_cons_self) head inScope less
        (Slot.ofCells ((front ++ s :: earlier).length + p.size) owner? ps tail ++ after) a
      rw [← among_append_left, ← among_append_left] at once
      rw [run_bind_eq]
      refine once.bind ?_
      generalize (env.run outer p head).run a = r
      obtain ⟨⟨status, head⟩, a⟩ := r
      cases status with
      | waiting =>
        rw [run_pure_eq, Slot.ofCells]
        exact halts_mark false .waiting a
      | running | done =>
        rw [run_bind_eq, run_pure_eq, Slot.ofCells]
        exact rest head _ a

end

end Machine

end Barrage
