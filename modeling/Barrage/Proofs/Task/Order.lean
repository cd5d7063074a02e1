import Mathlib.Data.List.Basic

/-!
The order of events. Often something must not happen before something else has happened, because of
a state that lasts until then. Such statements are put together along a list of events: as long as
the awaited event is missing, the state at the end of one part is the state at the beginning of the
next.
-/

set_option autoImplicit false

namespace Barrage

variable {α β : Type*}

theorem append_eq_split {xs ys before after : List α} {e : α} :
    xs ++ ys = before ++ e :: after ↔
      (∃ rest, xs = before ++ e :: rest ∧ after = rest ++ ys) ∨
      (∃ rest, before = xs ++ rest ∧ ys = rest ++ e :: after) := by
  rw [List.append_eq_append_iff]
  constructor
  · rintro (⟨rest, same, found⟩ | ⟨rest, same, found⟩)
    · exact .inr ⟨rest, same, found⟩
    · cases rest with
      | nil => exact .inr ⟨[], by simp [same], found.symm⟩
      | cons head rest =>
        obtain ⟨rfl, rfl⟩ := List.cons.inj found
        exact .inl ⟨rest, same, rfl⟩
  · rintro (⟨rest, same, rfl⟩ | ⟨rest, same, found⟩)
    · exact .inr ⟨e :: rest, same, rfl⟩
    · exact .inl ⟨rest, same, found⟩

theorem split_of_middle {xs ys zs before after : List α} {e : α}
    (same : xs ++ (ys ++ zs) = before ++ e :: after) (notAhead : e ∉ xs) (notBehind : e ∉ zs) :
    ∃ ahead behind, ys = ahead ++ e :: behind ∧ after = behind ++ zs := by
  rcases append_eq_split.1 same with ⟨rest, rfl, -⟩ | ⟨rest, -, found⟩
  · exact absurd (List.mem_append_right _ List.mem_cons_self) notAhead
  · rcases append_eq_split.1 found with ⟨behind, inside, rfl⟩ | ⟨behind, -, rfl⟩
    · exact ⟨rest, behind, inside, rfl⟩
    · exact absurd (List.mem_append_right _ List.mem_cons_self) notBehind

/-- Nothing bad happens before the goal is reached, and a state lasts if the goal is not reached. -/
def Keeps (goal bad : α → Prop) (events : List α) (still : Prop) : Prop :=
  (∀ before e after, events = before ++ e :: after → bad e → ∃ g ∈ before, goal g) ∧
    ((∃ g ∈ events, goal g) ∨ still)

namespace Keeps

variable {goal bad : α → Prop} {events xs ys : List α} {still next : Prop}

theorem quiet (harmless : ∀ e ∈ events, ¬ bad e) (lasts : still) : Keeps goal bad events still := by
  refine ⟨?_, .inr lasts⟩
  rintro before e after rfl isBad
  exact absurd isBad (harmless e (by simp))

theorem reached {e : α} (isGoal : goal e) (harmless : ¬ bad e) :
    Keeps goal bad (e :: events) still := by
  refine ⟨?_, .inl ⟨e, List.mem_cons_self, isGoal⟩⟩
  rintro before e' after same isBad
  cases before with
  | nil =>
    obtain ⟨rfl, -⟩ := List.cons.inj same
    exact absurd isBad harmless
  | cons head before =>
    obtain ⟨rfl, -⟩ := List.cons.inj same
    exact ⟨e, List.mem_cons_self, isGoal⟩

theorem append (ahead : Keeps goal bad xs still) (behind : still → Keeps goal bad ys next) :
    Keeps goal bad (xs ++ ys) next := by
  obtain ⟨order, goalOrStill⟩ := ahead
  -- either the goal is reached in the first part, or the second part keeps the order itself
  have later : (∃ g ∈ xs, goal g) ∨ Keeps goal bad ys next := goalOrStill.imp_right behind
  constructor
  · intro before e after same isBad
    rcases append_eq_split.1 same with ⟨rest, found, -⟩ | ⟨rest, rfl, found⟩
    · exact order before e rest found isBad
    · rcases later with ⟨g, member, isGoal⟩ | ⟨order', -⟩
      · exact ⟨g, List.mem_append_left _ member, isGoal⟩
      · obtain ⟨g, member, isGoal⟩ := order' rest e after found isBad
        exact ⟨g, List.mem_append_right _ member, isGoal⟩
  · rcases later with ⟨g, member, isGoal⟩ | ⟨-, ⟨g, member, isGoal⟩ | lasts⟩
    · exact .inl ⟨g, List.mem_append_left _ member, isGoal⟩
    · exact .inl ⟨g, List.mem_append_right _ member, isGoal⟩
    · exact .inr lasts

theorem mono (keeps : Keeps goal bad events still) (weaker : still → next) :
    Keeps goal bad events next :=
  ⟨keeps.1, keeps.2.imp_right weaker⟩

theorem map {goal' bad' : β → Prop} {f : α → β} (keeps : Keeps goal bad events still)
    (goals : ∀ e, goal e → goal' (f e)) (bads : ∀ e, bad' (f e) → bad e) :
    Keeps goal' bad' (events.map f) still := by
  obtain ⟨order, goalOrStill⟩ := keeps
  constructor
  · intro before e after same isBad
    obtain ⟨xs, ys, rfl, rfl, found⟩ := List.map_eq_append_iff.1 same
    obtain ⟨e, ys, rfl, rfl, rfl⟩ := List.map_eq_cons_iff.1 found
    obtain ⟨g, member, isGoal⟩ := order xs e ys rfl (bads e isBad)
    exact ⟨f g, List.mem_map_of_mem member, goals g isGoal⟩
  · refine goalOrStill.imp_left ?_
    rintro ⟨g, member, isGoal⟩
    exact ⟨f g, List.mem_map_of_mem member, goals g isGoal⟩

end Keeps

end Barrage
