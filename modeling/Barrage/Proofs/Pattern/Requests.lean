import Barrage.Proofs.Pattern.Faithful
import Mathlib.Data.List.Induction

/-!
Histories of requests. The references of a tree can be resolved and the tree can be validated at any
time and in any order, also after a validation that failed half-way. Requests read the tree and set
links. Each one is answered as if it were the first, and a link that was set stays as it is.
-/

set_option autoImplicit false

namespace Barrage

inductive Request where
  | resolve (i : NodeId)
  | validate

inductive Answer where
  | target (outcome : Except ReferenceError NodeId)
  | verdict (outcome : Except ValidationError ValidationStats)

namespace Tree

def serve (t : Tree) (l : Linking) : Request → Answer × Linking
  | .resolve i => (.target (t.resolve i l).1, (t.resolve i l).2)
  | .validate =>
    (.verdict ((t.validate l).1.map fun _ => (t.validate l).2.stats), (t.validate l).2.toLinking)

def untouched (t : Tree) : Linking := { links := .blank t.size }

/-- The links after requests that were answered one after the other. -/
def after (t : Tree) (history : List Request) : Linking :=
  history.foldl (fun l r => (t.serve l r).2) t.untouched

variable {t : Tree} {l l' : Linking}

theorem after_append (history : List Request) (r : Request) :
    t.after (history ++ [r]) = (t.serve (t.after history) r).2 := by
  rw [after, List.foldl_append]
  rfl

/-! ## One request -/

theorem validate_inStep (first : l.links.Faithful t) (second : l'.links.Faithful t) :
    (t.validate l).1 = (t.validate l').1 ∧
      InStep t l'.links (t.validate l).2 (t.validate l').2 :=
  alike_validateNode t l'.links root { toLinking := l } { toLinking := l' }
    ⟨rfl, first, second, .refl _, fun _ _ _ => .inl⟩

theorem resolve_eq_lookUp (faithful : l.links.Faithful t) (i : NodeId) :
    (t.resolve i l).1 = (t.lookUp ((t.node? i).getD default)).map (·.target) := by
  cases found : t.lookUp ((t.node? i).getD default) with
  | error e => rw [resolve_error faithful found]; rfl
  | ok r => exact (resolve_ok faithful found).1

/-- A request is answered in the same way whatever links are there, if a search finds them. -/
theorem serve_same (first : l.links.Faithful t) (second : l'.links.Faithful t) (r : Request) :
    (t.serve l r).1 = (t.serve l' r).1 := by
  cases r with
  | resolve i => rw [serve, serve, resolve_eq_lookUp first, resolve_eq_lookUp second]
  | validate =>
    obtain ⟨same, inStep⟩ := validate_inStep first second
    rw [serve, serve, same, inStep.stats]

theorem resolve_others (faithful : l.links.Faithful t) {i i' : NodeId} {k : LinkKind}
    (other : (i', k) ≠ (i, .target)) : (t.resolve i l).2.links.link? i' k = l.links.link? i' k := by
  cases found : t.lookUp ((t.node? i).getD default) with
  | error e => rw [resolve_error faithful found]
  | ok r => exact (resolve_ok faithful found).2.others other

theorem serve_keeps (faithful : l.links.Faithful t) (r : Request) :
    (t.serve l r).2.links.Faithful t ∧ l.links.Within (t.serve l r).2.links := by
  cases r with
  | resolve i =>
    cases found : t.lookUp ((t.node? i).getD default) with
    | error e =>
      rw [serve, resolve_error faithful found]
      exact ⟨faithful, .refl _⟩
    | ok r =>
      have adds := (resolve_ok faithful found).2
      have sought : t.sought? i .target = some r.target := soughtTarget?_eq_some found
      exact ⟨adds.faithful faithful sought, adds.within faithful sought⟩
  | validate =>
    obtain ⟨-, inStep⟩ := validate_inStep faithful faithful
    exact ⟨inStep.second, inStep.kept⟩

theorem validate_again (first : l.links.Faithful t) (second : l'.links.Faithful t)
    (later : (t.validate l).2.links.Within l'.links) : (t.validate l').2.links = l'.links := by
  obtain ⟨-, inStep⟩ := validate_inStep first second
  refine Links.Within.antisymm (fun i k j found => ?_) inStep.kept ?_
  · exact (inStep.added i k j found).elim id (later i k j)
  · exact inStep.second.size.trans second.size.symm

/-! ## Histories -/

theorem faithful_after (history : List Request) : (t.after history).links.Faithful t := by
  induction history using List.reverseRecOn with
  | nil => exact Links.faithful_blank t
  | append_singleton history r ih =>
    rw [after_append]
    exact (serve_keeps ih r).1

theorem within_after (history more : List Request) :
    (t.after history).links.Within (t.after (history ++ more)).links := by
  induction more using List.reverseRecOn with
  | nil =>
    rw [List.append_nil]
    exact .refl _
  | append_singleton more r ih =>
    rw [← List.append_assoc, after_append]
    exact ih.trans (serve_keeps (faithful_after _) r).2

/-- Whatever was asked of a tree before, a request is answered as on the tree without links, and a
reference is resolved to what a search for its label finds. All links are what a search finds; they
are never lost or changed, and resolving a reference sets no link but its own. Validating once more,
now or later, comes to the same result and counts and leaves all links as they are. -/
theorem answers_of_history (t : Tree) (history : List Request) :
    (∀ r, (t.serve (t.after history) r).1 = (t.serve t.untouched r).1) ∧
    (∀ i, (t.serve (t.after history) (.resolve i)).1 =
      .target ((t.lookUp ((t.node? i).getD default)).map (·.target))) ∧
    (t.after history).links.Faithful t ∧
    (∀ more, (t.after history).links.Within (t.after (history ++ more)).links) ∧
    (∀ i i' k, (i', k) ≠ (i, .target) →
      (t.after (history ++ [.resolve i])).links.link? i' k =
        (t.after history).links.link? i' k) ∧
    (∀ more, (t.serve (t.after (history ++ .validate :: more)) .validate).1 =
        (t.serve (t.after history) .validate).1 ∧
      (t.serve (t.after (history ++ .validate :: more)) .validate).2.links =
        (t.after (history ++ .validate :: more)).links) := by
  have faithful : ∀ history, (t.after history).links.Faithful t := faithful_after
  refine ⟨serve_same (faithful history) (faithful []), fun i => ?_, faithful history,
    within_after history, fun i i' k other => ?_, fun more => ⟨?_, ?_⟩⟩
  · rw [serve, resolve_eq_lookUp (faithful history)]
  · rw [after_append]
    exact resolve_others (faithful history) other
  · exact serve_same (faithful _) (faithful history) .validate
  · have later := within_after (t := t) (history ++ [.validate]) more
    rw [List.append_assoc, List.singleton_append, after_append] at later
    exact validate_again (faithful history) (faithful _) later

end Tree

end Barrage
