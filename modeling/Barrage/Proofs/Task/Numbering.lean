import Barrage.Proofs.Task.Order
import Barrage.Proofs.Task.ShotLaw
import Barrage.Proofs.Task.State
import Mathlib.Data.List.Infix

/-!
The numbering of shots. A log holds all shots of all fires and the moments when an action starts
again what is below it. The shots of a fire are numbered from the last of these moments on at which
the fire is reset because a repeat is on the way down to it.
-/

set_option autoImplicit false

namespace Barrage

variable {F : Type}

/-! ## Logs -/

inductive FireEvent (F : Type) : Type 1 where
  | fired (path : TaskPath) (f : Firing F)
  | restarted (path : TaskPath)

abbrev FireLog (F : Type) := List (FireEvent F)

namespace FireEvent

def path : FireEvent F → TaskPath
  | fired path _ => path
  | restarted path => path

/-- The same as seen from the task above, of which the task is a child. -/
def under (i : Nat) : FireEvent F → FireEvent F
  | fired path f => fired (i :: path) f
  | restarted path => restarted (i :: path)

def isFired (path : TaskPath) : FireEvent F → Bool
  | fired path' _ => path' = path
  | restarted _ => false

theorem isFired_iff {path : TaskPath} {e : FireEvent F} :
    e.isFired path = true ↔ ∃ f, e = .fired path f := by
  cases e <;> simp [isFired]

@[simp] theorem path_under (i : Nat) (e : FireEvent F) : (e.under i).path = i :: e.path := by
  cases e <;> rfl

theorem under_eq_fired {i j : Nat} {e : FireEvent F} {path : TaskPath} {f : Firing F} :
    e.under i = .fired (j :: path) f ↔ i = j ∧ e = .fired path f := by
  cases e <;> simp [under, and_assoc]

theorem not_prefix_under {i j : Nat} (other : i ≠ j) (e : FireEvent F) (path : TaskPath) :
    ¬ (e.under i).path <+: j :: path := by
  rw [path_under, List.cons_prefix_cons]
  exact fun isPrefix => other isPrefix.1

end FireEvent

/-! ## Repeats on the way -/

namespace Plan

def RepeatsAt (p : Plan F) (path : TaskPath) : Prop := (p.at? path).map Plan.work = some .again

def RepeatsOn (p : Plan F) (path : TaskPath) : Prop := ∃ around ∈ path.inits, p.RepeatsAt around

/-- A repeat is on the way from one task down to another, below the first one. -/
def Resets (p : Plan F) (above path : TaskPath) : Prop :=
  ∃ around ∈ path.inits, (above <+: around ∧ above ≠ around) ∧ p.RepeatsAt around

instance (p : Plan F) (path : TaskPath) : Decidable (p.RepeatsAt path) :=
  inferInstanceAs (Decidable (_ = _))

instance (p : Plan F) (path : TaskPath) : Decidable (p.RepeatsOn path) :=
  inferInstanceAs (Decidable (∃ around ∈ path.inits, p.RepeatsAt around))

instance (p : Plan F) (above path : TaskPath) : Decidable (p.Resets above path) :=
  inferInstanceAs (Decidable (∃ around ∈ path.inits, (above <+: around ∧ above ≠ around) ∧
    p.RepeatsAt around))

variable {p q : Plan F} {i : Nat} {above path : TaskPath}

theorem repeatsAt_nil : p.RepeatsAt [] ↔ p.work = .again := by simp [RepeatsAt, at?]

theorem repeatsAt_cons (found : p.children[i]? = some q) :
    p.RepeatsAt (i :: path) ↔ q.RepeatsAt path := by
  simp [RepeatsAt, at?, found]

theorem repeatsOn_nil : p.RepeatsOn [] ↔ p.work = .again := by simp [RepeatsOn, repeatsAt_nil]

theorem repeatsOn_cons (found : p.children[i]? = some q) :
    p.RepeatsOn (i :: path) ↔ p.work = .again ∨ q.RepeatsOn path := by
  simp [RepeatsOn, repeatsAt_nil, repeatsAt_cons found]

theorem resets_nil (found : p.children[i]? = some q) :
    p.Resets [] (i :: path) ↔ q.RepeatsOn path := by
  simp [Resets, RepeatsOn, repeatsAt_cons found]

theorem resets_cons (found : p.children[i]? = some q) :
    p.Resets (i :: above) (i :: path) ↔ q.Resets above path := by
  simp [Resets, repeatsAt_cons found]

theorem not_resets (apart : ¬ above <+: path) : ¬ p.Resets above path := by
  rintro ⟨around, inside, ⟨isAbove, -⟩, -⟩
  exact apart (isAbove.trans (List.mem_inits _ _ |>.1 inside))

end Plan

/-! ## Numbering along a log -/

/-- The shots of a fire since it was last reset, the latest one first, after one more event. -/
def FireEvent.since (p : Plan F) (path : TaskPath) : List (Firing F) → FireEvent F → List (Firing F)
  | fs, fired path' f => if path' = path then f :: fs else fs
  | fs, restarted above => if p.Resets above path then [] else fs

namespace FireLog

/-- The shots of a fire since it was last reset, the latest one first, after a log. -/
def since (p : Plan F) (path : TaskPath) (log : FireLog F) (fs : List (Firing F)) :
    List (Firing F) :=
  log.foldl (FireEvent.since p path) fs

theorem since_append {p : Plan F} {path : TaskPath} (log log' : FireLog F) (fs : List (Firing F)) :
    FireLog.since p path (log ++ log') fs = log'.since p path (log.since p path fs) :=
  List.foldl_append

def Obeys (law : Firing F → Option (Firing F) → Prop) (p : Plan F) (path : TaskPath)
    (log : FireLog F) (fs : List (Firing F)) : Prop :=
  ∀ earlier f later, log = earlier ++ .fired path f :: later →
    law f (Firing.previous? (FireLog.since p path earlier fs))

/-- The shots of a fire obey a law along a log, and these are the shots since its last reset. -/
def Numbers (law : Firing F → Option (Firing F) → Prop) (p : Plan F) (path : TaskPath)
    (log : FireLog F) (fs fs' : List (Firing F)) : Prop :=
  log.Obeys law p path fs ∧ log.since p path fs = fs'

theorem obeys_singleton {law : Firing F → Option (Firing F) → Prop} {p : Plan F} {path : TaskPath}
    {e : FireEvent F} {fs : List (Firing F)}
    (follows : ∀ f, e = .fired path f → law f (Firing.previous? fs)) :
    FireLog.Obeys law p path [e] fs := by
  intro earlier f later split
  cases earlier with
  | nil => exact follows f (List.cons.inj split).1
  | cons e' earlier => simp at split

namespace Numbers

variable {law : Firing F → Option (Firing F) → Prop} {p q : Plan F} {i : Nat} {path : TaskPath}
  {log log' : FireLog F} {fs fs' fs'' : List (Firing F)}

theorem append (ahead : log.Numbers law p path fs fs') (behind : log'.Numbers law p path fs' fs'') :
    FireLog.Numbers law p path (log ++ log') fs fs'' := by
  obtain ⟨obeys, rfl⟩ := ahead
  obtain ⟨obeys', rfl⟩ := behind
  refine ⟨fun earlier f later same => ?_, since_append log log' fs⟩
  rcases append_eq_split.1 same with ⟨rest, rfl, -⟩ | ⟨rest, rfl, rfl⟩
  · exact obeys earlier f rest rfl
  · rw [since_append]
    exact obeys' rest f later rfl

theorem quiet (fs : List (Firing F)) (elsewhere : ∀ e ∈ log, ¬ e.path <+: path) :
    log.Numbers law p path fs fs := by
  refine ⟨?_, ?_⟩
  · rintro earlier f later rfl
    exact absurd List.prefix_rfl (elsewhere (.fired path f) (by simp))
  · induction log with
    | nil => rfl
    | cons e log ih =>
      have apart := elsewhere e List.mem_cons_self
      have same : e.since p path fs = fs := by
        cases e with
        | fired path' f =>
          refine if_neg ?_
          rintro rfl
          exact apart List.prefix_rfl
        | restarted above => exact if_neg (Plan.not_resets apart)
      rw [FireLog.since, List.foldl_cons, same]
      exact ih fun e member => elsewhere e (List.mem_cons_of_mem _ member)

theorem nil (fs : List (Firing F)) : FireLog.Numbers law p path [] fs fs :=
  .quiet fs (List.forall_mem_nil _)

theorem under (numbers : log.Numbers law q path fs fs') (found : p.children[i]? = some q) :
    FireLog.Numbers law p (i :: path) (log.map (FireEvent.under i)) fs fs' := by
  obtain ⟨obeys, rfl⟩ := numbers
  have same : ∀ (log : FireLog F) fs,
      FireLog.since p (i :: path) (log.map (FireEvent.under i)) fs = log.since q path fs := by
    intro log fs
    rw [FireLog.since, List.foldl_map]
    congr 1
    funext fs e
    cases e with
    | fired path' f => simp [FireEvent.since, FireEvent.under]
    | restarted above => simp [FireEvent.since, FireEvent.under, Plan.resets_cons found]
  refine ⟨fun earlier f later split => ?_, same log fs⟩
  obtain ⟨earlier, rest, rfl, rfl, rest_eq⟩ := List.map_eq_append_iff.1 split
  obtain ⟨e, later, rfl, fired, rfl⟩ := List.map_eq_cons_iff.1 rest_eq
  obtain ⟨-, rfl⟩ := FireEvent.under_eq_fired.1 fired
  rw [same]
  exact obeys earlier f later rfl

theorem fired {f : Firing F} (follows : law f (Firing.previous? fs)) :
    FireLog.Numbers law p path [.fired path f] fs (f :: fs) := by
  refine ⟨obeys_singleton ?_, if_pos rfl⟩
  rintro _ ⟨⟩
  exact follows

theorem fired_other {path' : TaskPath} {f : Firing F} (other : path' ≠ path)
    (fs : List (Firing F)) : FireLog.Numbers law p path [.fired path' f] fs fs := by
  refine ⟨obeys_singleton ?_, if_neg other⟩
  rintro _ ⟨⟩
  exact absurd rfl other

/-- Starting again what is below the first task sets the numbers back if a repeat is on the way. -/
theorem restarted (found : p.children[i]? = some q) (fs : List (Firing F)) :
    FireLog.Numbers law p (i :: path) [.restarted []] fs (if q.RepeatsOn path then [] else fs) := by
  refine ⟨obeys_singleton ?_, ?_⟩
  · rintro _ ⟨⟩
  · simp [since, FireEvent.since, Plan.resets_nil found]

end Numbers

end FireLog

end Barrage
