import Barrage.Proofs.Host.CoupledTicks
import Barrage.Proofs.Host.Updates
import Barrage.Simulation
import Mathlib.Data.Finset.Card
import Mathlib.Data.List.Nodup

/-!
The books of a simulation. From what its host was asked one reads which entities it made, which came
back in bullets and which were removed. The world follows the calls, and its books agree with them:
what it holds are the entities in bullets that were not removed, and it counted every removal once.
-/

set_option autoImplicit false

namespace Barrage

variable {F : Type}

/-! ## What was asked -/

def ids (bullets : List (Bullet F)) : List Nat := bullets.map fun b => b.entity.id

@[simp] theorem ids_append (bullets more : List (Bullet F)) :
    ids (bullets ++ more) = ids bullets ++ ids more := List.map_append

/-- What became of the entities of a simulation. -/
structure Ledger (F : Type) where
  made : List Nat := []
  given : List (Bullet F) := []
  gone : List Nat := []

namespace Ledger

def living (l : Ledger F) : List Nat := (ids l.given).filter (· ∉ l.gone)

def fallen (l : Ledger F) : List Nat := (ids l.given).filter (· ∈ l.gone)

def unused (l : Ledger F) : List Nat := l.made.filter (· ∉ ids l.given)

theorem length_given (l : Ledger F) : l.given.length = l.living.length + l.fallen.length := by
  have split := List.length_eq_length_filter_add (l := ids l.given) (· ∉ l.gone)
  rw [ids, List.length_map] at split
  rw [split, living, fallen, ids]
  simp

def enter (l : Ledger F) : Call F → Ledger F
  | .create _ none => l
  | .create _ (some e) => { l with made := l.made ++ [e.id] }
  | .spawn b => { l with given := l.given ++ [b] }
  | .remove e => { l with gone := l.gone ++ [e.id] }

def of (log : Calls F) : Ledger F := log.foldl enter {}

theorem of_append (log more : Calls F) : of (log ++ more) = more.foldl enter (of log) :=
  List.foldl_append

theorem foldl_enter (l : Ledger F) (log : Calls F) :
    log.foldl enter l =
      ⟨l.made ++ (of log).made, l.given ++ (of log).given, l.gone ++ (of log).gone⟩ := by
  induction log using List.reverseRecOn with
  | nil => simp [of]
  | append_singleton log c ih =>
    rw [List.foldl_append, ih, of_append]
    rcases c with ⟨_, _ | _⟩ | _ | _ <;> simp [enter]

@[simp] theorem made_append (log more : Calls F) :
    (of (log ++ more)).made = (of log).made ++ (of more).made := by rw [of_append, foldl_enter]

@[simp] theorem given_append (log more : Calls F) :
    (of (log ++ more)).given = (of log).given ++ (of more).given := by rw [of_append, foldl_enter]

@[simp] theorem gone_append (log more : Calls F) :
    (of (log ++ more)).gone = (of log).gone ++ (of more).gone := by rw [of_append, foldl_enter]

theorem mem_given {log : Calls F} {b : Bullet F} : b ∈ (of log).given ↔ .spawn b ∈ log := by
  induction log using List.reverseRecOn with
  | nil => simp [of]
  | append_singleton log c ih =>
    rw [given_append, List.mem_append, List.mem_append, ih]
    rcases c with ⟨_, _ | _⟩ | _ | _ <;> simp [of, enter]

theorem mem_gone {log : Calls F} {id : Nat} :
    id ∈ (of log).gone ↔ ∃ e, .remove e ∈ log ∧ e.id = id := by
  induction log using List.reverseRecOn with
  | nil => simp [of]
  | append_singleton log c ih =>
    simp only [gone_append, List.mem_append, ih, or_and_right, exists_or]
    rcases c with ⟨_, _ | _⟩ | _ | _ <;> simp [of, enter, eq_comm]

end Ledger

/-! ## The world follows the calls -/

variable [Scalar F]

namespace Arena

def obey (a : Arena F) : Call F → Arena F
  | .create wanted _ => (create wanted a).2
  | .spawn b => spawn b a
  | .remove e => remove e a

def AnswersOne (a : Arena F) : Call F → Prop
  | .create wanted made? => (create wanted a).1 = made?
  | _ => True

def Answers (a : Arena F) : Calls F → Prop
  | [] => True
  | c :: calls => a.AnswersOne c ∧ Answers (a.obey c) calls

theorem answers_append {a : Arena F} {calls more : Calls F} :
    a.Answers (calls ++ more) ↔ a.Answers calls ∧ (calls.foldl obey a).Answers more := by
  induction calls generalizing a with
  | nil => exact ⟨fun rest => ⟨trivial, rest⟩, And.right⟩
  | cons c calls ih => rw [List.cons_append, Answers, Answers, ih, List.foldl_cons, and_assoc]

/-- What a world is after some calls; random numbers may have been drawn besides. -/
structure Follows (a : Arena F) (calls : Calls F) (a' : Arena F) : Prop where
  answers : a.Answers calls
  world : { a' with random := a.random } = calls.foldl obey a

variable {a a' : Arena F} {calls : Calls F}

theorem create_of_full (wanted : Emission F) (full : a.maxEntities ≤ a.alive) :
    create wanted a = (none, { a with report.refused := a.report.refused + 1 }) := if_pos full

theorem create_of_free (wanted : Emission F) (free : ¬ a.maxEntities ≤ a.alive) :
    create wanted a = (some (.resting (a.lastId + 1) wanted.position (some wanted.emitter)),
      { a with lastId := a.lastId + 1 }) := if_neg free

theorem create_random (wanted : Emission F) (a : Arena F) (random : RandomSource F) :
    create wanted { a with random } =
      ((create wanted a).1, { (create wanted a).2 with random }) := by
  have alike : ({ a with random } : Arena F).maxEntities ≤ ({ a with random } : Arena F).alive ↔
      a.maxEntities ≤ a.alive := .rfl
  by_cases full : a.maxEntities ≤ a.alive
  · rw [create_of_full wanted (alike.2 full), create_of_full wanted full]
  · rw [create_of_free wanted (alike.not.2 full), create_of_free wanted full]

namespace Follows

theorem step {c : Call F} (follows : a.Follows calls a') (answered : a'.AnswersOne c) :
    a.Follows (calls ++ [c]) (a'.obey c) := by
  have answer : ∀ random, ({ a' with random } : Arena F).AnswersOne c := by
    intro random
    cases c with
    | create wanted made? => rw [AnswersOne, create_random, ← answered]
    | _ => trivial
  have world : ∀ random, ({ a' with random } : Arena F).obey c = { a'.obey c with random } := by
    intro random
    cases c with
    | create wanted made? => rw [obey, create_random, obey]
    | spawn b => rfl
    | remove e =>
      unfold obey remove
      dsimp only
      split <;> rfl
  refine ⟨answers_append.2 ⟨follows.answers, ?_, trivial⟩, ?_⟩
  · exact follows.world ▸ answer _
  · rw [List.foldl_append, ← follows.world]
    exact (world _).symm

end Follows

def Followed (a : Arena F) (a' : Arena F) (w : Recorded F (Arena F)) : Prop :=
  w.world = a' ∧ a.Follows w.calls a'

theorem alike_followed (a : Arena F) :
    (host : Host F (Arena F)).Alike (Followed a) host.recorded where
  target := by
    rintro w _ ⟨rfl, -⟩ e
    rfl
  rank := by
    rintro w _ ⟨rfl, -⟩
    rfl
  random := by
    rintro w _ ⟨rfl, follows⟩
    exact ⟨rfl, rfl, follows.answers, follows.world⟩

theorem deals_followed (a : Arena F) :
    (host : Host F (Arena F)).Deals (Followed a) (Followed a) host.recorded where
  free := alike_followed a
  taken := alike_followed a
  refused := by
    rintro w _ ⟨rfl, follows⟩ wanted refused
    exact ⟨refused, rfl, follows.step rfl⟩
  made := by
    rintro w _ ⟨rfl, follows⟩ wanted e made
    exact ⟨made, rfl, follows.step rfl⟩
  spawn := by
    rintro w _ ⟨rfl, follows⟩ b
    exact ⟨rfl, follows.step (c := .spawn b) trivial⟩
  giveBack := by
    rintro w _ ⟨rfl, follows⟩ e
    exact ⟨rfl, follows.step (c := .remove e) trivial⟩
  remove := by
    rintro w _ ⟨rfl, follows⟩ e
    exact ⟨rfl, follows.step (c := .remove e) trivial⟩

end Arena

end Barrage
