import Barrage.Proofs.Task.Tick

/-!
A tick from the point of view of one child. Tasks are done in order, so a child is passed over, or
the tick stops before it, or it has one tick of its own. What is done before and after that tick is
done by other children.
-/

set_option autoImplicit false

namespace Barrage

variable {F : Type}

/-- All that is done is done by children with certain numbers, or below them. -/
def Trace.Only (who : Nat → Prop) (trace : Trace F) : Prop :=
  ∀ e ∈ trace, ∃ i path, e.path = i :: path ∧ who i

namespace Trace.Only

variable {who others : Nat → Prop} {trace trace' : Trace F}

theorem nil : Trace.Only who ([] : Trace F) := by
  intro e member
  cases member

theorem append (ahead : Trace.Only who trace) (behind : Trace.Only who trace') :
    Trace.Only who (trace ++ trace') := by
  intro e member
  rcases List.mem_append.1 member with member | member
  · exact ahead e member
  · exact behind e member

theorem under {i : Nat} (holds : who i) :
    Trace.Only who (trace.map (TaskEvent.under i)) := by
  intro e member
  obtain ⟨e, -, rfl⟩ := List.mem_map.1 member
  exact ⟨i, e.path, e.path_under i, holds⟩

theorem mono (only : Trace.Only who trace) (wider : ∀ i, who i → others i) :
    Trace.Only others trace := by
  intro e member
  obtain ⟨i, path, same, holds⟩ := only e member
  exact ⟨i, path, same, wider i holds⟩

theorem not_nil (only : Trace.Only who trace) {e : TaskEvent F} (member : e ∈ trace) :
    e.path ≠ [] := by
  obtain ⟨i, path, same, -⟩ := only e member
  rw [same]
  nofun

theorem of_path (only : Trace.Only who trace) {e : TaskEvent F} (member : e ∈ trace) {i : Nat}
    {path : TaskPath} (same : e.path = i :: path) : who i := by
  obtain ⟨j, path', same', holds⟩ := only e member
  rw [same] at same'
  obtain ⟨rfl, -⟩ := List.cons.inj same'
  exact holds

end Trace.Only

theorem RanAll.only {i : Nat} {ps : List (Plan F)} {below below' : Cells F ps} {clear : Bool}
    {status : Status} {trace : Trace F} (ran : RanAll i below clear status below' trace) :
    trace.Only (i ≤ ·) := by
  induction ran with
  | nil => exact .nil
  | skip finished rest ih => exact ih.mono fun _ => Nat.le_of_succ_le
  | stop unfinished once => exact .under (Nat.le_refl _)
  | go unfinished once on rest ih =>
    exact (Trace.Only.under (Nat.le_refl _)).append (ih.mono fun _ => Nat.le_of_succ_le)

/-! ## The tick of one child -/

/-- What a tick means for the child with a number: how it was, how it is afterwards, the status of
the tick and its trace. -/
inductive Visit (i : Nat) (child : TaskState F) (child'? : Option (TaskState F)) (status : Status)
    (trace : Trace F) : Prop where
  | skipped (finished : child.cell.finished = true) (same : child'? = some child)
      (elsewhere : trace.Only (· ≠ i))
  | unreached (waiting : status = .waiting) (same : child'? = some child)
      (earlier : trace.Only (· < i))
  | visited {cell' : Cell F child.plan} {status' : Status} {before inside after : Trace F}
      (unfinished : child.cell.finished = false) (ran : Ran child.cell status' cell' inside)
      (there : child'? = some ⟨cell'⟩)
      (split : trace = before ++ (inside.map (TaskEvent.under i) ++ after))
      (earlier : before.Only (· < i)) (later : after.Only (i < ·))
      (stops : status' = .waiting → status = .waiting ∧ after = [])

theorem RanAll.visit_from {i : Nat} {ps : List (Plan F)} {below below' : Cells F ps} {clear : Bool}
    {status : Status} {trace : Trace F} (ran : RanAll i below clear status below' trace) (j : Nat)
    {child : TaskState F} (member : below.get? j = some child) :
    Visit (i + j) child (below'.get? j) status trace := by
  induction ran generalizing j with
  | nil => cases member
  | @skip i p ps head tail tail' clear status trace finished rest ih =>
    cases j with
    | zero =>
      cases member
      exact .skipped finished rfl (rest.only.mono fun _ => Nat.ne_of_gt)
    | succ j =>
      have deeper := ih j member
      rwa [Nat.succ_add_eq_add_succ] at deeper
  | @stop i p ps head head' tail clear trace unfinished once =>
    cases j with
    | zero =>
      cases member
      exact .visited unfinished once rfl (List.append_nil _).symm .nil .nil fun _ => ⟨rfl, rfl⟩
    | succ j => exact .unreached rfl member (.under (Nat.lt_add_of_pos_right (Nat.succ_pos j)))
  | @go i p ps head head' tail tail' clear status status' trace trace' unfinished once on rest ih =>
    cases j with
    | zero =>
      cases member
      exact .visited unfinished once rfl rfl .nil rest.only fun waiting => absurd waiting on
    | succ j =>
      have ahead : i < i + (j + 1) := Nat.lt_add_of_pos_right (Nat.succ_pos j)
      have deeper := ih j member
      rw [Nat.succ_add_eq_add_succ] at deeper
      cases deeper with
      | skipped finished same elsewhere =>
        exact .skipped finished same (.append (.under (Nat.ne_of_lt ahead)) elsewhere)
      | unreached waiting same earlier =>
        exact .unreached waiting same (.append (.under ahead) earlier)
      | visited unfinished ran there split earlier later stops =>
        -- what the first task does comes before all that the others do
        rw [split, ← List.append_assoc]
        exact .visited unfinished ran there rfl (.append (.under ahead) earlier) later stops

theorem RanAll.visit {ps : List (Plan F)} {below below' : Cells F ps} {clear : Bool}
    {status : Status} {trace : Trace F} (ran : RanAll 0 below clear status below' trace) {i : Nat}
    {child : TaskState F} (member : below.get? i = some child) :
    Visit i child (below'.get? i) status trace := by
  have visit := ran.visit_from i member
  rwa [Nat.zero_add] at visit

end Barrage
