import Barrage.Proofs.Task.State

/-!
The ticks that are possible. The relations leave open what hosts and numbers decide: whether a wait
is over, whether a change has come to its end, and how tasks are prepared. Every tick of the model
is one of these, so what holds of all of them holds for every host.
-/

set_option autoImplicit false

namespace Barrage

variable {F σ : Type}

/-- How a tick can end for a task that does not do the tasks below it. -/
def Work.Outcome : Work → Status → Prop
  | .sequence, _ | .again, _ | .action _, _ => False
  | .wait _, status => status ≠ .running
  | .turn .., status | .glide .., status | .accelerate .., status => status ≠ .waiting
  | .fire .., status | .vanish, status => status = .done

mutual

/-- A tick of a task can end with a status and a state and leave a trace. -/
inductive Ran : {p : Plan F} → Cell F p → Status → Cell F p → Trace F → Prop where
  | sequence {node : NodeId} {args : List F} {children : List (Plan F)} {finished : Bool}
      {progress : Work.sequence.Progress F} {below below' : Cells F children} {status : Status}
      {trace : Trace F} (inside : RanAll 0 below true status below' trace) :
      Ran (.mk finished progress below : Cell F (.mk node args .sequence children)) status
        (.mk status.isDone progress below') (.around finished status status.isDone trace)
  | again {node : NodeId} {args : List F} {children : List (Plan F)} {finished : Bool}
      {progress : Work.again.Progress F} {below below' : Cells F children} {status : Status}
      {trace : Trace F} (inside : RanAll 0 below true status below' trace) :
      Ran (.mk finished progress below : Cell F (.mk node args .again children)) status
        (.mk status.isDone progress below') (.around finished status status.isDone trace)
  | action {node : NodeId} {args : List F} {children : List (Plan F)} {finished : Bool}
      {bound : Int} {passed passed' : Nat} {below below' : Cells F children} {status : Status}
      {trace : Trace F} (inside : RanPasses bound.toNat passed below status passed' below' trace) :
      Ran (.mk finished passed below : Cell F (.mk node args (.action bound) children)) status
        (.mk status.isDone passed' below') (.around finished status status.isDone trace)
  | simple {node : NodeId} {args : List F} {work : Work} {children : List (Plan F)}
      {finished : Bool} {progress : work.Progress F} {below : Cells F children} {status : Status}
      (possible : work.Outcome status) (progress' : work.Progress F) :
      Ran (.mk finished progress below : Cell F (.mk node args work children)) status
        (.mk (finished || status.isDone) progress' below)
        (.around finished status (finished || status.isDone) [])

/-- The same for tasks in order, the first of which is a child with a number. -/
inductive RanAll : Nat → {ps : List (Plan F)} → Cells F ps → Bool → Status → Cells F ps →
    Trace F → Prop where
  | nil {i : Nat} {clear : Bool} : RanAll i .nil clear (.ofDone clear) .nil []
  | skip {i : Nat} {p : Plan F} {ps : List (Plan F)} {head : Cell F p} {tail tail' : Cells F ps}
      {clear : Bool} {status : Status} {trace : Trace F} (finished : head.finished = true)
      (rest : RanAll (i + 1) tail clear status tail' trace) :
      RanAll i (.cons head tail) clear status (.cons head tail') trace
  | stop {i : Nat} {p : Plan F} {ps : List (Plan F)} {head head' : Cell F p} {tail : Cells F ps}
      {clear : Bool} {trace : Trace F} (unfinished : head.finished = false)
      (ran : Ran head .waiting head' trace) :
      RanAll i (.cons head tail) clear .waiting (.cons head' tail) (trace.map (TaskEvent.under i))
  | go {i : Nat} {p : Plan F} {ps : List (Plan F)} {head head' : Cell F p}
      {tail tail' : Cells F ps} {clear : Bool} {status status' : Status} {trace trace' : Trace F}
      (unfinished : head.finished = false) (ran : Ran head status head' trace)
      (on : status ≠ .waiting)
      (rest : RanAll (i + 1) tail (clear && status.isDone) status' tail' trace') :
      RanAll i (.cons head tail) clear status' (.cons head' tail')
        (trace.map (TaskEvent.under i) ++ trace')

inductive RanPasses : Nat → Nat → {ps : List (Plan F)} → Cells F ps → Status → Nat → Cells F ps →
    Trace F → Prop where
  | spent {bound passed : Nat} {ps : List (Plan F)} {below : Cells F ps}
      (reached : bound ≤ passed) :
      RanPasses bound passed below .done passed below []
  | cut {bound passed : Nat} {ps : List (Plan F)} {below below' : Cells F ps} {status : Status}
      {trace : Trace F} (more : passed < bound) (ran : RanAll 0 below true status below' trace)
      (unfinished : status ≠ .done) : RanPasses bound passed below status passed below' trace
  | pass {bound passed passed' : Nat} {ps : List (Plan F)}
      {below ended started below' : Cells F ps} {status : Status} {trace trace' : Trace F}
      (more : passed < bound) (ran : RanAll 0 below true .done ended trace)
      (fresh : started.Fresh)
      (rest : RanPasses bound (passed + 1) started status passed' below' trace') :
      RanPasses bound passed below status passed' below'
        (trace ++ .pass [] (passed + 1) started :: trace')

end

/-! ## Induction -/

/-- Induction over tasks in order, which does not go into the ticks of the tasks themselves. -/
@[induction_eliminator]
theorem RanAll.induction
    {motive : ∀ {i : Nat} {ps : List (Plan F)} {below : Cells F ps} {clear : Bool} {status : Status}
      {below' : Cells F ps} {trace : Trace F}, RanAll i below clear status below' trace → Prop}
    (nil : ∀ {i : Nat} {clear : Bool},
      motive (.nil : RanAll i (.nil : Cells F []) clear (.ofDone clear) .nil []))
    (skip : ∀ {i : Nat} {p : Plan F} {ps : List (Plan F)} {head : Cell F p}
      {tail tail' : Cells F ps} {clear : Bool} {status : Status} {trace : Trace F}
      (finished : head.finished = true) (rest : RanAll (i + 1) tail clear status tail' trace),
      motive rest → motive (.skip finished rest))
    (stop : ∀ {i : Nat} {p : Plan F} {ps : List (Plan F)} {head head' : Cell F p}
      {tail : Cells F ps} {clear : Bool} {trace : Trace F} (unfinished : head.finished = false)
      (once : Ran head .waiting head' trace),
      motive (.stop unfinished once : RanAll i (.cons head tail) clear .waiting (.cons head' tail)
        (trace.map (TaskEvent.under i))))
    (go : ∀ {i : Nat} {p : Plan F} {ps : List (Plan F)} {head head' : Cell F p}
      {tail tail' : Cells F ps} {clear : Bool} {status status' : Status} {trace trace' : Trace F}
      (unfinished : head.finished = false) (once : Ran head status head' trace)
      (on : status ≠ .waiting)
      (rest : RanAll (i + 1) tail (clear && status.isDone) status' tail' trace'),
      motive rest → motive (.go unfinished once on rest))
    {i : Nat} {ps : List (Plan F)} {below : Cells F ps} {clear : Bool} {status : Status}
    {below' : Cells F ps} {trace : Trace F} (ran : RanAll i below clear status below' trace) :
    motive ran := by
  match ran with
  | .nil => exact nil
  | .skip finished rest => exact skip finished rest (rest.induction nil skip stop go)
  | .stop unfinished once => exact stop unfinished once
  | .go unfinished once on rest =>
    exact go unfinished once on rest (rest.induction nil skip stop go)
termination_by structural ran

@[induction_eliminator]
theorem RanPasses.induction {bound : Nat} {ps : List (Plan F)}
    {motive : ∀ {passed : Nat} {below : Cells F ps} {status : Status} {passed' : Nat}
      {below' : Cells F ps} {trace : Trace F},
      RanPasses bound passed below status passed' below' trace → Prop}
    (spent : ∀ {passed : Nat} {below : Cells F ps} (reached : bound ≤ passed),
      motive (.spent reached : RanPasses bound passed below .done passed below []))
    (cut : ∀ {passed : Nat} {below below' : Cells F ps} {status : Status} {trace : Trace F}
      (more : passed < bound) (once : RanAll 0 below true status below' trace)
      (unfinished : status ≠ .done), motive (.cut more once unfinished))
    (pass : ∀ {passed passed' : Nat} {below ended started below' : Cells F ps} {status : Status}
      {trace trace' : Trace F} (more : passed < bound)
      (once : RanAll 0 below true .done ended trace) (fresh : started.Fresh)
      (rest : RanPasses bound (passed + 1) started status passed' below' trace'),
      motive rest → motive (.pass more once fresh rest))
    {passed : Nat} {below : Cells F ps} {status : Status} {passed' : Nat} {below' : Cells F ps}
    {trace : Trace F} (ran : RanPasses bound passed below status passed' below' trace) :
    motive ran := by
  match ran with
  | .spent reached => exact spent reached
  | .cut more once unfinished => exact cut more once unfinished
  | .pass more once fresh rest => exact pass more once fresh rest (rest.induction spent cut pass)
termination_by structural ran

/-! ## Every tick is possible -/

theorem Status.isDone_ofDone (ended : Bool) : (Status.ofDone ended).isDone = ended := by
  cases ended <;> rfl

theorem Status.ofDone_ne_waiting (ended : Bool) : Status.ofDone ended ≠ .waiting := by
  cases ended <;> decide

/-- Traced passes are possible passes if their bodies are possible and start afresh. -/
theorem ranPasses_tracedPasses {ps : List (Plan F)}
    {body : Cells F ps → Acting F σ (Status × Cells F ps × Trace F)}
    {again : Cells F ps → Acting F σ (Cells F ps)}
    (ran : ∀ below a, let r := (body below).run a
      RanAll 0 below true r.1.1 r.1.2.1 r.1.2.2)
    (fresh : ∀ below a, ((again below).run a).1.Fresh) (bound left passed : Nat)
    (below : Cells F ps) (a : Actor F σ) (same : left = bound - passed) :
    let r := (tracedPasses body again (fun passed below => .pass [] passed below) left passed
      below).run a
    RanPasses bound passed below r.1.1 r.1.2.1 r.1.2.2.1 r.1.2.2.2 := by
  -- what is left is what the bound allows, so nothing is left exactly if the passes are spent
  induction left generalizing passed below a with
  | zero => exact .spent (by omega)
  | succ left ih =>
    have once := ran below a
    rw [tracedPasses, run_bind_eq]
    generalize (body below).run a = r at once ⊢
    obtain ⟨⟨status, ended, trace⟩, a⟩ := r
    cases status with
    | running =>
      have cut : Status.running ≠ .done := by decide
      exact .cut (by omega) once cut
    | waiting =>
      have cut : Status.waiting ≠ .done := by decide
      exact .cut (by omega) once cut
    | done => exact .pass (by omega) once (fresh ended a) (ih (passed + 1) _ _ (by omega))

section Soundness

variable [Scalar F] (env : Env F σ)

/-- A tick of a task that does not do the tasks below it leaves their states alone. -/
theorem Env.run_simple (outer : Frames F) {node : NodeId} {args : List F} {work : Work}
    {children : List (Plan F)} (finished : Bool) (progress : work.Progress F)
    (below : Cells F children) (a : Actor F σ) (sequence : work ≠ .sequence)
    (again : work ≠ .again) (action : ∀ bound, work ≠ .action bound) :
    ∃ status finished' progress' a', work.Outcome status ∧
      finished' = (finished || status.isDone) ∧
      (env.run outer (.mk node args work children) (.mk finished progress below)).run a
        = ((status, .mk finished' progress' below), a') := by
  cases work with
  | sequence => exact absurd rfl sequence
  | again => exact absurd rfl again
  | action bound => exact absurd rfl (action bound)
  | wait e =>
    refine ⟨_, _, _, _, ?_, ?_, rfl⟩
    · change (if _ then _ else _ : Status × F).1 ≠ _
      split <;> nofun
    · rfl
  | turn direction? term? =>
    refine ⟨.ofDone _, _, _, _, Status.ofDone_ne_waiting _, ?_, rfl⟩
    rw [Status.isDone_ofDone]
  | glide speed? term? =>
    refine ⟨.ofDone _, _, _, _, Status.ofDone_ne_waiting _, ?_, rfl⟩
    rw [Status.isDone_ofDone]
  | accelerate horizontal? vertical? term? =>
    refine ⟨.ofDone _, _, _, _, Status.ofDone_ne_waiting _, ?_, rfl⟩
    rw [Status.isDone_ofDone]
  | fire direction speed => exact ⟨_, _, _, _, rfl, (Bool.or_true _).symm, rfl⟩
  | vanish => exact ⟨_, _, _, _, rfl, (Bool.or_true _).symm, rfl⟩

mutual

theorem Env.ran_traced (outer : Frames F) : (p : Plan F) → (cell : Cell F p) → (a : Actor F σ) →
    let r := (env.traced outer p cell).run a
    Ran cell r.1.1 r.1.2.1 r.1.2.2
  | .mk node args work children, .mk finished progress below, a => by
    have all := Env.ranAll_tracedAll (args :: outer) 0 children
    cases work with
    | sequence => exact .sequence (all below true a)
    | again => exact .again (all below true a)
    | action bound =>
      have left : ∀ passed : Nat, (bound - Int.ofNat passed).toNat = bound.toNat - passed := by
        intro passed
        rw [Int.ofNat_eq_natCast]
        omega
      exact .action (ranPasses_tracedPasses (fun below a => all below true a)
        (Plan.restartAll_fresh env.host _ children) bound.toNat _ progress below a
        (left progress))
    | _ =>
      obtain ⟨status, finished', progress', a', possible, rfl, same⟩ :=
        env.run_simple outer finished progress below a nofun nofun nofun
      rw [traced, run_bind_eq, same]
      · exact .simple possible progress'
      all_goals nofun

theorem Env.ranAll_tracedAll (outer : Frames F) (i : Nat) : (ps : List (Plan F)) →
    (below : Cells F ps) → (clear : Bool) → (a : Actor F σ) →
    let r := (env.tracedAll outer i ps below clear).run a
    RanAll i below clear r.1.1 r.1.2.1 r.1.2.2
  | [], .nil, clear, a => .nil
  | p :: ps, .cons head tail, clear, a => by
    rw [tracedAll]
    split
    · next finished => exact .skip finished (Env.ranAll_tracedAll outer (i + 1) ps tail clear a)
    · next unfinished =>
      have once := Env.ran_traced outer p head a
      have unfinished := Bool.eq_false_iff.2 unfinished
      rw [run_bind_eq]
      generalize (env.traced outer p head).run a = r at once ⊢
      obtain ⟨⟨status, head', trace⟩, a⟩ := r
      cases status with
      | waiting => exact .stop unfinished once
      | running =>
        have on : Status.running ≠ .waiting := by decide
        exact .go unfinished once on (Env.ranAll_tracedAll outer (i + 1) ps tail _ a)
      | done =>
        have on : Status.done ≠ .waiting := by decide
        exact .go unfinished once on (Env.ranAll_tracedAll outer (i + 1) ps tail _ a)

end

end Soundness

end Barrage
