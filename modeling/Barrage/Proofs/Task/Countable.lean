import Barrage.Proofs.Host.ShotBullets

/-!
The passes of actions can be counted. Their number is one, none, or a number of times that has been
rounded down and kept within 64 bits, so a count that stays below it fits into 64 bits as well.
-/

set_option autoImplicit false

namespace Barrage

variable {F σ : Type}

namespace Limit

def passes : Int := 0x7fffffffffffffff

end Limit

inductive Plan.Countable : Plan F → Prop where
  | mk {node : NodeId} {args : List F} {work : Work} {children : List (Plan F)}
      (own : ∀ bound, work = .action bound → bound ≤ Limit.passes)
      (each : ∀ c ∈ children, Countable c) : Countable (.mk node args work children)

theorem not_action_of_simpleWork? {t : Tree} {i : NodeId} {work : Work}
    (simple : t.simpleWork? i = some work) (bound : Int) : work ≠ .action bound := by
  unfold Tree.simpleWork? at simple
  split at simple <;> cases simple <;> exact Work.noConfusion

namespace Assembly

variable [Scalar F] {p : Pattern} {h : Host F σ} {outer : Frames F} {i : NodeId} {a a' : Assembly σ}

theorem passes_le (saturates : ∀ x : F, Scalar.floor x ≤ Limit.passes) {bound : Int}
    (ended : Ends (passes p h outer i) a bound a') : bound ≤ Limit.passes := by
  unfold passes at ended
  split at ended
  · obtain ⟨rfl, -⟩ := Ends.pure_iff.1 ended
    decide
  · split at ended
    · obtain ⟨rfl, -⟩ := Ends.pure_iff.1 ended
      decide
    · obtain ⟨x, _, -, ended⟩ := Ends.bind_iff.1 ended
      obtain ⟨rfl, -⟩ := Ends.pure_iff.1 ended
      exact saturates x

omit [Scalar F] in
theorem countable_of_mapM {α : Type} {cs : List α} {f : α → Assembling σ (List (Plan F))}
    {below : List (List (Plan F))} (ended : Ends (cs.mapM f) a below a')
    (each : ∀ c ∈ cs, ∀ a qs a', Ends (f c) a qs a' → ∀ q ∈ qs, q.Countable) :
    ∀ q ∈ below.flatten, q.Countable := by
  intro q inside
  obtain ⟨qs, member, inside⟩ := List.mem_flatten.1 inside
  obtain ⟨_, -, countable⟩ := exists_of_mem_forall₂ (Ends.forall₂_mapM ended each) member
  exact countable q inside

theorem countable_of_fire {args : List F} {q : Plan F}
    (ended : Ends (fire p h outer args i) a q a') : q.Countable := by
  unfold fire at ended
  obtain ⟨_, _, -, ended⟩ := Ends.bind_iff.1 ended
  obtain ⟨holders, _, held, ended⟩ := Ends.bind_iff.1 ended
  obtain ⟨rfl, -⟩ := Ends.pure_iff.1 ended
  refine .mk (fun _ => Work.noConfusion) (countable_of_mapM held ?_)
  rintro c - _ qs _ ended ⟨node, args, work, children⟩ inside
  obtain ⟨rfl, rfl⟩ : work = .sequence ∧ children = [] := (nodes_of_bulletHolder ended).2 _ inside
  exact .mk (fun _ => Work.noConfusion) (List.forall_mem_nil _)

theorem countable_of_node (saturates : ∀ x : F, Scalar.floor x ≤ Limit.passes) {depth : Nat}
    {qs : List (Plan F)} (ended : Ends (node p h depth outer i) a qs a') :
    ∀ q ∈ qs, q.Countable := by
  induction depth, i using node_induction p generalizing outer qs a a' with
  | step depth i below beyond =>
    rw [node] at ended
    split at ended
    -- a repeat
    · obtain ⟨_, _, -, ended⟩ := Ends.bind_iff.1 ended
      obtain ⟨children, _, made, ended⟩ := Ends.bind_iff.1 ended
      obtain ⟨rfl, -⟩ := Ends.pure_iff.1 ended
      rintro _ (_ | ⟨_, ⟨⟩⟩)
      exact .mk (fun _ => Work.noConfusion)
        (countable_of_mapM made fun c _ _ _ _ ended => below c.1 c.2 ended)
    -- an action
    · obtain ⟨bound, _, counted, ended⟩ := Ends.bind_iff.1 ended
      obtain ⟨_, _, -, ended⟩ := Ends.bind_iff.1 ended
      obtain ⟨children, _, made, ended⟩ := Ends.bind_iff.1 ended
      obtain ⟨rfl, -⟩ := Ends.pure_iff.1 ended
      rintro _ (_ | ⟨_, ⟨⟩⟩)
      refine .mk ?_ (countable_of_mapM made fun c _ _ _ _ ended => below c.1 c.2 ended)
      rintro _ ⟨⟩
      exact passes_le saturates counted
    -- an action reference, with the action that it names below it
    · split at ended
      · next shallow =>
        split at ended
        · exact absurd ended Ends.not_throw
        · next target _ =>
          obtain ⟨bound, _, counted, ended⟩ := Ends.bind_iff.1 ended
          obtain ⟨args, _, -, ended⟩ := Ends.bind_iff.1 ended
          obtain ⟨_, _, -, ended⟩ := Ends.bind_iff.1 ended
          obtain ⟨inner, _, counted', ended⟩ := Ends.bind_iff.1 ended
          obtain ⟨_, _, -, ended⟩ := Ends.bind_iff.1 ended
          obtain ⟨children, _, made, ended⟩ := Ends.bind_iff.1 ended
          obtain ⟨rfl, -⟩ := Ends.pure_iff.1 ended
          have named : (Plan.mk target [] (.action inner) children.flatten).Countable := by
            refine .mk ?_ (countable_of_mapM made fun c _ _ _ _ ended => beyond shallow c.1 ended)
            rintro _ ⟨⟩
            exact passes_le saturates counted'
          rintro _ (_ | ⟨_, ⟨⟩⟩)
          refine .mk ?_ ?_
          · rintro _ ⟨⟩
            exact passes_le saturates counted
          · rintro _ (_ | ⟨_, ⟨⟩⟩)
            exact named
      · exact absurd ended Ends.not_throw
    -- a fire, and a reference to one
    · obtain ⟨made, _, fired, ended⟩ := Ends.bind_iff.1 ended
      obtain ⟨rfl, -⟩ := Ends.pure_iff.1 ended
      rintro _ (_ | ⟨_, ⟨⟩⟩)
      exact countable_of_fire fired
    · split at ended
      · split at ended
        · exact absurd ended Ends.not_throw
        · obtain ⟨args, _, -, ended⟩ := Ends.bind_iff.1 ended
          obtain ⟨made, _, fired, ended⟩ := Ends.bind_iff.1 ended
          obtain ⟨rfl, -⟩ := Ends.pure_iff.1 ended
          rintro _ (_ | ⟨_, ⟨⟩⟩)
          exact countable_of_fire fired
      · exact absurd ended Ends.not_throw
    -- a task without others below it
    · split at ended
      · next work simple =>
        obtain ⟨_, _, -, ended⟩ := Ends.bind_iff.1 ended
        obtain ⟨rfl, -⟩ := Ends.pure_iff.1 ended
        rintro _ (_ | ⟨_, ⟨⟩⟩)
        exact .mk (fun bound same => absurd same (not_action_of_simpleWork? simple bound))
          (List.forall_mem_nil _)
      · obtain ⟨rfl, -⟩ := Ends.pure_iff.1 ended
        exact List.forall_mem_nil _

end Assembly

theorem Plan.countable_of_build [Scalar F] (saturates : ∀ x : F, Scalar.floor x ≤ Limit.passes)
    {p : Pattern} {h : Host F σ} {scope : Frames F} {i : NodeId} {s s' : Stage σ} {plan : Plan F}
    (built : (Plan.build h p scope i).run s = (.ok plan, s')) : plan.Countable := by
  have ended : Ends (Assembly.root p h scope i) { toStage := s } plan
      ((Assembly.root p h scope i).run.run { toStage := s }).2 :=
    Prod.ext (congrArg Prod.fst built :) rfl
  rw [Assembly.root] at ended
  obtain ⟨_, _, -, ended⟩ := Ends.bind_iff.1 ended
  obtain ⟨below, _, made, ended⟩ := Ends.bind_iff.1 ended
  obtain ⟨rfl, -⟩ := Ends.pure_iff.1 ended
  exact .mk (fun _ => Work.noConfusion)
    (Assembly.countable_of_mapM made fun _ _ _ _ _ => Assembly.countable_of_node saturates)

end Barrage
