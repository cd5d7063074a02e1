import Barrage.Proofs.Motion.Landing
import Barrage.Proofs.Task.Watching

/-!
Where changes of speed end in the history of a bullet, in exact arithmetic. What a change adds in a
tick is computed when it is prepared, from the speed at that time. So it ends at its goal only if
the speed is still the same when it has its first tick; whatever the speed is off by then, it is off
by in the end.
-/

set_option autoImplicit false

namespace Barrage

open Easing
open scoped Exact

inductive GlideNote (F : Type) where
  /-- The change is prepared for an entity that has a speed. -/
  | prepared (goal? : Option (Goal F)) (term speed : F)
  /-- The change has a tick: the speed before and after, how fast durations pass, and whether the
  change is over. -/
  | ticked (before after timeScale : F) (ended : Bool)
  deriving DecidableEq, Repr

variable {F σ : Type} [Scalar F]

def Work.glideNote (h : Host F σ) (frames : Frames F) (w : Work) (a : Actor F σ) : GlideNote F :=
  let (speed?, term?) := match w with
    | .glide speed? term? => (speed?, term?)
    | _ => (none, none)
  let (term, a) := (duration h frames term?).run a
  let (goal?, a) := (goalIf h frames speed?).run a
  .prepared goal? term a.entity.speed

def Observer.glides : Observer F (GlideNote F) where
  prepared := Work.glideNote
  ticked env around q cell a :=
    let ((status, _), a') := (env.run around q cell).run a
    .ticked a.entity.speed a'.entity.speed a.entity.timeScale status.isDone

namespace GlideNote

/-- Ticks at the usual pace, each of which begins with the speed that the one before ended with.
With the last one, and with no other, the change is over. -/
inductive Course : List (GlideNote F) → F → F → Prop where
  | last (first last : F) : Course [.ticked first last Scalar.one true] first last
  | more {notes : List (GlideNote F)} {next last : F} (first : F) (rest : Course notes next last) :
      Course (.ticked first next Scalar.one false :: notes) first last

def GoesOn : GlideNote F → Prop
  | .ticked _ _ _ ended => ended = false
  | .prepared .. => False

/-- What becomes of a change that is under way, if one is. A change is always prepared towards a
goal that is meant in the same way. -/
def Leads (policy : Policy) : Option (Glide F F) → GlideNote F → Option (Glide F F) → Prop
  | _, .prepared goal? term speed, g? =>
    goal?.map Goal.policy = some policy ∧ g? = some (.ofSpeed goal? term speed)
  | some g, .ticked before after timeScale ended, g? =>
    ∃ g', g.step before timeScale = (after, ended, g') ∧ g? = if ended then none else some g'
  | none, .ticked .., _ => False

def LeadAll (policy : Policy) : Option (Glide F F) → List (GlideNote F) → Option (Glide F F) → Prop
  | g?, [], g'? => g? = g'?
  | g?, note :: notes, g'? =>
    ∃ between, Leads policy g? note between ∧ LeadAll policy between notes g'?

variable {policy : Policy} {g? g'? : Option (Glide F F)}

theorem leadAll_append {notes notes' : List (GlideNote F)} :
    LeadAll policy g? (notes ++ notes') g'? ↔
      ∃ between, LeadAll policy g? notes between ∧ LeadAll policy between notes' g'? := by
  induction notes generalizing g? with
  | nil => simp [LeadAll]
  | cons note notes ih =>
    simp only [List.cons_append, LeadAll, ih]
    constructor
    · rintro ⟨t, leads, u, middle, rest⟩
      exact ⟨u, ⟨t, leads, middle⟩, rest⟩
    · rintro ⟨u, ⟨t, leads, middle⟩, rest⟩
      exact ⟨t, leads, u, middle, rest⟩

theorem leadAll_singleton {note : GlideNote F} :
    LeadAll policy g? [note] g'? ↔ Leads policy g? note g'? := by
  simp [LeadAll]

end GlideNote

open GlideNote

theorem Observer.keeps_glides {node : NodeId} {args : List F} {w : Wanted}
    {term? : Option Expression} {children : List (Plan F)} (around : Frames F) :
    Observer.glides.Keeps (.mk node args (.glide (some w) term?) children) around
      fun notes cell => LeadAll w.policy none notes
        (if cell.finished then none else some (cell.progress : Glide F F)) where
  prepared h now notes cell before unfinished made := by
    have started : ∃ g?, LeadAll w.policy none notes g? := by
      rcases before with rfl | ⟨_, before⟩
      · exact ⟨none, rfl⟩
      · exact ⟨_, before⟩
    obtain ⟨g?, notes'⟩ := started
    refine leadAll_append.2 ⟨g?, notes', leadAll_singleton.2 ⟨rfl, ?_⟩⟩
    rw [unfinished, made]
    rfl
  ticked env now notes cell seen unfinished := by
    cases cell with
    | mk finished progress below =>
      obtain rfl : finished = false := unfinished
      refine leadAll_append.2 ⟨_, seen, leadAll_singleton.2 ?_⟩
      -- what is noted is what the change does in the tick
      exact ⟨_, congrArg (_, ·, _) (Status.isDone_ofDone _).symm, by rw [Status.isDone_ofDone]; rfl⟩

/-! ## Executions of a change -/

namespace GlideNote

theorem Course.passes {policy : Policy} {notes : List (GlideNote F)} {first last : F}
    (course : Course notes first last) {g : Glide F F} {g'? : Option (Glide F F)}
    (leads : LeadAll policy (some g) notes g'?) :
    ∃ values, g.Passes Scalar.one first values ∧ values.length = notes.length ∧
      values.getLast? = some last := by
  induction course generalizing g with
  | last first last =>
    obtain ⟨_, ⟨g', tick, -⟩, -⟩ := leads
    exact ⟨[last], .last tick, rfl, rfl⟩
  | more first rest ih =>
    obtain ⟨_, ⟨g', tick, rfl⟩, leads⟩ := leads
    obtain ⟨values, passes, length, final⟩ := ih leads
    refine ⟨_ :: values, .more tick passes, by simp [length], ?_⟩
    rw [List.getLast?_cons, final]
    rfl

/-- What comes before the first tick of a change that is under way is its preparation. -/
theorem prepared_of_leadAll {policy : Policy} {notes : List (GlideNote F)} {g : Glide F F}
    (leads : LeadAll policy none notes (some g)) (rests : ∀ note ∈ notes.getLast?, ¬ note.GoesOn) :
    ∃ before goal term speed, notes = before ++ [.prepared (some goal) term speed] ∧
      goal.policy = policy ∧ g = .ofSpeed (some goal) term speed := by
  rcases List.eq_nil_or_concat notes with rfl | ⟨before, note, rfl⟩
  · cases leads
  · rw [List.concat_eq_append] at leads rests ⊢
    obtain ⟨g?, -, leads⟩ := leadAll_append.1 leads
    replace leads := leadAll_singleton.1 leads
    cases note with
    | prepared goal? term speed =>
      obtain ⟨meant, made⟩ := leads
      obtain ⟨goal, rfl, same⟩ := Option.map_eq_some_iff.1 meant
      exact ⟨before, goal, term, speed, rfl, same, Option.some.inj made⟩
    | ticked speed speed' timeScale ended =>
      cases g? with
      | none => cases leads
      | some g =>
        obtain ⟨g', -, left⟩ := leads
        have rest : ¬ (GlideNote.ticked speed speed' timeScale ended).GoesOn := rests _ (by simp)
        cases ended with
        | false => exact absurd rfl rest
        | true => cases left

end GlideNote

/-- A whole number of ticks changes the speed by what was missing to the goal when the change was
prepared. -/
theorem Glide.passes_whole [Exact.Geometry] {goal : Goal ℚ}
    (meant : goal.policy = .absolute ∨ goal.policy = .none) {n : ℕ} (atLeastOne : 1 ≤ n)
    {speed first : ℚ} {values : List ℚ}
    (passes : (Glide.ofSpeed (some goal) (n : ℚ) speed).Passes 1 first values) :
    values.length = n ∧ values.getLast? = some (goal.value + (first - speed)) := by
  have whole : effectiveDuration (n : ℚ) = n := by
    rw [Exact.effectiveDuration_eq, if_neg]
    have : (1 : ℚ) ≤ n := Nat.one_le_cast.2 atLeastOne
    rw [Nat.abs_cast]
    linarith
  have pos : (0 : ℚ) < n := Nat.cast_pos.2 atLeastOne
  have delta : deltaTo (some goal) speed (n : ℚ) = (goal.value - speed) / n := by
    obtain ⟨policy, value⟩ := goal
    rcases meant with same | same <;> cases same <;> rfl
  have all := Glide.passes_multiples (g := .ofSpeed (some goal) (n : ℚ) speed)
    (by rw [Glide.ofSpeed, whole]; exact pos) first
  rw [passes.unique all, Glide.ofSpeed, whole, delta, Nat.ceil_natCast]
  refine ⟨by simp [Glide.multiples], ?_⟩
  rw [Glide.getLast?_multiples first _ atLeastOne, mul_div_cancel₀ _ pos.ne']
  ring_nf

/-! ## Two changes

An action changes the speed to 10 and then to 20, each in one tick. -/

namespace Exact.Sample

open Barrage.Sample (constant)

def changesTree : Tree :=
  Tree.empty
    |>.push { kind := .action } none
    |>.push { kind := .changeSpeed } (some 0)
    |>.push { kind := .speed, expression := constant 10 } (some 1)
    |>.push { kind := .term, expression := constant 1 } (some 1)
    |>.push { kind := .changeSpeed } (some 0)
    |>.push { kind := .speed, expression := constant 20 } (some 4)
    |>.push { kind := .term, expression := constant 1 } (some 4)

def changesPattern : Pattern := { tree := changesTree, links := Links.blank 7 }

def host : Host ℚ Unit where
  create _ s := (none, s)
  spawn _ s := s
  remove _ s := s
  target _ _ := ⟨0, 0⟩
  rank _ := 0
  random s := (0, s)

def stage : Stage Unit := ⟨(), {}⟩

def entity : Entity ℚ := .resting 0 ⟨0, 0⟩ none

def changeTo (node : NodeId) (speed : Nat) : Plan ℚ :=
  .mk node [] (.glide (some ⟨.none, constant speed⟩) (some (constant 1))) []

def changesPlan : Plan ℚ := .mk 0 [] .sequence [changeTo 1 10, changeTo 4 20]

def changes : Bullet ℚ where
  entity := entity.named (changesTree.patternName? 0)
  pattern := changesPattern
  node := 0
  plan := changesPlan
  cell := ((changesPlan.start host []).run { toStage := stage, entity }).1
  scope? := none
  emitter := 0

theorem build_changes :
    (Plan.build host changesPattern [] 0).run stage = (.ok changesPlan, stage) := by
  have change : ∀ outer i, i = 1 ∨ i = 4 → Assembly.node changesPattern host 0 outer i = (do
      Assembly.claim
      pure [changeTo i (if i = 1 then 10 else 20)]) := by
    rintro outer i (rfl | rfl) <;> rw [Assembly.node] <;> rfl
  have children : changesPattern.tree.children 0 = [1, 4] := rfl
  simp only [Plan.build, Assembly.root, children, List.mapM_cons, List.mapM_nil,
    change _ 1 (.inl rfl), change _ 4 (.inr rfl)]
  rfl

theorem bind_changes : (Bullet.bind host entity changesPattern 0 none 0).run stage
    = (.ok changes, stage) := by
  rw [Bullet.bind, run_bind_eq]
  simp only [Option.getD, build_changes]
  rfl

/-- What happens to the second change while the bullet is bound and in its first tick. -/
theorem watched_changes : ((changes.step host).run stage).1.2.Watched Observer.glides [1]
    [.prepared (some ⟨.none, 20⟩) 1 0, .ticked 10 30 1 true] := by
  have bound : changes.Watched Observer.glides [1] _ := .bound bind_changes
  have notes : Observer.glides.bind host [1] entity changesPattern 0 none stage
      = [.prepared (some ⟨.none, 20⟩) 1 0] := by
    rw [Observer.bind]
    simp only [Option.getD, build_changes]
    decide +kernel
  have tick : Observer.glides.tick (changes.env host) [1] changes.scope changes.plan changes.cell
      { toStage := stage, entity := changes.entity } = [.ticked 10 30 1 true] := by
    decide +kernel
  rw [notes] at bound
  have step := bound.step host stage
  rw [tick] at step
  exact step

end Exact.Sample

namespace Bullet

/-- Take any execution of a change of speed towards a goal, over a whole number of ticks, at the
usual pace and while nothing else changes the speed. It begins after the change was prepared, and in
the end the speed is off the goal by what it changed between the preparation and the first tick. -/
theorem glides_end_off [Exact.Geometry] {b : Bullet ℚ} {path : TaskPath}
    {notes : List (GlideNote ℚ)} (watched : b.Watched .glides path notes) {q : Plan ℚ} {w : Wanted}
    {term? : Option Expression} (there : b.plan.at? path = some q)
    (glide : q.work = .glide (some w) term?)
    (meant : w.policy = .absolute ∨ w.policy = .none) :
    b.pattern.tree.simpleWork? q.node = some (.glide (some w) term?) ∧
    ∀ earlier ticks later first last, notes = earlier ++ (ticks ++ later) →
      Course ticks first last → (∀ note ∈ earlier.getLast?, ¬ note.GoesOn) →
      ∃ (before : List (GlideNote ℚ)) (goal : Goal ℚ) (term speed : ℚ),
        earlier = before ++ [.prepared (some goal) term speed] ∧ goal.policy = w.policy ∧
        ∀ n : ℕ, 1 ≤ n → term = n →
          ticks.length = n ∧ last = goal.value + (first - speed) ∧
            (last = goal.value ↔ first = speed) := by
  obtain ⟨frames, inScope⟩ := b.plan.exists_framesAt? b.scope there
  have timed : q.work.isTimed = true := by rw [glide]; rfl
  refine ⟨glide ▸ watched.made.simpleWork? (b.plan.holds_of_at? there inScope) timed, ?_⟩
  obtain ⟨node, args, work, children⟩ := q
  obtain rfl : work = .glide (some w) term? := glide
  obtain ⟨cell, -, leads⟩ := watched.shows there timed Observer.keeps_glides
  rintro earlier ticks later first last rfl course rests
  obtain ⟨g?, start, leads⟩ := leadAll_append.1 leads
  obtain ⟨g'?, leads, -⟩ := leadAll_append.1 leads
  -- a change has ticks only while it is under way
  cases g? with
  | none => cases course <;> obtain ⟨_, ⟨⟩, -⟩ := leads
  | some g =>
    obtain ⟨before, goal, term, speed, rfl, same, rfl⟩ := prepared_of_leadAll start rests
    refine ⟨before, goal, term, speed, rfl, same, fun n atLeastOne whole => ?_⟩
    obtain ⟨values, passes, length, final⟩ := course.passes leads
    subst whole
    obtain ⟨count, ends⟩ := Glide.passes_whole (same ▸ meant) atLeastOne passes
    obtain rfl := Option.some.inj (final.symm.trans ends)
    refine ⟨length.symm.trans count, rfl, ?_⟩
    rw [add_eq_left, sub_eq_zero]

open scoped Exact.Sample in
/-- The second change is prepared when the first one is, and ends as much too high as the first one
has changed the speed. -/
theorem glides_end_off_changes : ∃ (before : List (GlideNote ℚ)) (goal : Goal ℚ) (term speed : ℚ),
    [.prepared (some ⟨.none, 20⟩) 1 0] = before ++ [.prepared (some goal) term speed] ∧
      term = (1 : ℕ) ∧ 30 = goal.value + (10 - speed) := by
  obtain ⟨-, ends⟩ := glides_end_off Exact.Sample.watched_changes (q := Exact.Sample.changeTo 4 20)
    rfl rfl (.inr rfl)
  obtain ⟨before, goal, term, speed, same, -, whole⟩ :=
    ends [.prepared (some ⟨.none, 20⟩) 1 0] [.ticked 10 30 1 true] [] 10 30 rfl (.last 10 30)
      (by rintro _ ⟨⟩ ⟨⟩)
  obtain ⟨-, note⟩ := List.append_inj' ((List.nil_append _).trans same) rfl
  have term_eq : term = (1 : ℕ) := by
    cases note
    rw [Nat.cast_one]
  exact ⟨before, goal, term, speed, same, term_eq, (whole 1 le_rfl term_eq).2.1⟩

open scoped Exact.Sample in
/-- A change to 20 can end at 30. -/
theorem glides_miss_goal : ¬ ∀ (b : Bullet ℚ) (path : TaskPath)
    (earlier ticks later : List (GlideNote ℚ)) (goal : Goal ℚ) (n : ℕ) (speed first last : ℚ)
    (q : Plan ℚ) (w : Wanted) (term? : Option Expression),
    b.Watched .glides path (earlier ++ .prepared (some goal) n speed :: (ticks ++ later)) →
    b.plan.at? path = some q → q.work = .glide (some w) term? →
    w.policy = .absolute ∨ w.policy = .none → 1 ≤ n → Course ticks first last →
    last = goal.value := by
  intro ends
  have reached := ends _ [1] [] [.ticked 10 30 1 true] [] ⟨.none, 20⟩ 1 0 10 30
    (Exact.Sample.changeTo 4 20) _ _ Exact.Sample.watched_changes rfl rfl (.inr rfl) le_rfl
    (.last 10 30)
  norm_num at reached

end Bullet

end Barrage
