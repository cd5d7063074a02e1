import Barrage.Proofs.Batch.Agreement
import Mathlib.Data.List.DropRight

/-!
Batches that are to end with the first failure. One worker ends there, and no file behind it is
loaded. Workers that share a batch all go on: their results end with the first failure exactly if no
file but the last one fails.
-/

set_option autoImplicit false

namespace Barrage.Batch

variable {α ε : Type}

def EndsAtFailure (files : List Path) (r : BatchResults α ε) : Prop :=
  r.failed.length ≤ 1 ∧ ∀ x ∈ r.failed, ∃ before after, files = before ++ x.1 :: after ∧
    (r.loaded.map Prod.fst).Sublist before

/-! ## Results of outcomes -/

section Results

variable {outcomes : List (FileOutcome α ε)}

theorem failed_of_well (well : ∀ x ∈ outcomes, x.2.isOk) :
    outcomes.filterMap FileOutcome.failed? = [] := by
  refine List.filterMap_eq_nil_iff.2 fun x inside => ?_
  obtain ⟨p, e | a⟩ := x
  · cases well _ inside
  · rfl

theorem loaded_sublist (outcomes : List (FileOutcome α ε)) :
    ((outcomes.filterMap FileOutcome.loaded?).map Prod.fst).Sublist (outcomes.map Prod.fst) := by
  induction outcomes with
  | nil => exact .slnil
  | cons x outcomes ih =>
    obtain ⟨p, e | a⟩ := x
    · exact ih.cons p
    · exact ih.cons_cons p

theorem length_loaded_add (outcomes : List (FileOutcome α ε)) :
    (outcomes.filterMap FileOutcome.loaded?).length +
      (outcomes.filterMap FileOutcome.failed?).length = outcomes.length := by
  have all := BatchResults.processed_ofOutcomes 0 outcomes
  rwa [BatchResults.ofOutcomes_eq] at all

theorem endsAtFailure_of_last {discovered : Nat} {rest : List Path} (x : FileOutcome α ε)
    (well : ∀ x ∈ outcomes, x.2.isOk) :
    EndsAtFailure ((outcomes ++ [x]).map Prod.fst ++ rest)
      (.ofOutcomes discovered (outcomes ++ [x])) := by
  rw [EndsAtFailure, BatchResults.ofOutcomes_eq, List.filterMap_append, List.filterMap_append,
    failed_of_well well]
  obtain ⟨p, e | a⟩ := x
  · refine ⟨Nat.le_refl 1, fun failure member => ?_⟩
    obtain rfl := List.mem_singleton.1 member
    refine ⟨outcomes.map Prod.fst, rest, by simp, ?_⟩
    simpa [FileOutcome.loaded?, List.filterMap_cons] using loaded_sublist outcomes
  · exact ⟨Nat.zero_le 1, fun _ inside => absurd inside List.not_mem_nil⟩

theorem endsAtFailure_of_well {discovered : Nat} {files : List Path}
    (well : ∀ x ∈ outcomes, x.2.isOk) :
    EndsAtFailure files (.ofOutcomes discovered outcomes) := by
  rw [EndsAtFailure, BatchResults.ofOutcomes_eq, failed_of_well well]
  exact ⟨Nat.zero_le 1, fun _ inside => absurd inside List.not_mem_nil⟩

/-- When all files are loaded, the results end with a failure exactly if it is that of the last
file. -/
theorem endsAtFailure_iff {discovered : Nat} (files : List Path) (answer : Path → Except ε α) :
    EndsAtFailure files (.ofOutcomes discovered (files.map fun p => (p, answer p))) ↔
      ∀ p ∈ files.dropLast, (answer p).isOk := by
  constructor
  · rintro ⟨once, ends⟩ p early
    by_contra fails
    cases answered : answer p with
    | ok a => exact fails (by rw [answered]; rfl)
    | error e =>
      have recorded : (p, e) ∈ (files.map fun p => (p, answer p)).filterMap FileOutcome.failed? :=
        List.mem_filterMap.2 ⟨(p, answer p), List.mem_map_of_mem (List.dropLast_subset _ early),
          by rw [answered]; rfl⟩
      rw [BatchResults.ofOutcomes_eq] at once ends
      obtain ⟨before, after, rfl, sub⟩ := ends _ recorded
      have few := sub.length_le
      have many := length_loaded_add ((before ++ p :: after).map fun p => (p, answer p))
      rw [List.length_map] at few many
      rw [List.length_append, List.length_cons] at many
      dsimp only at once few
      -- everything but one file is loaded and stands before it, so it is the last one
      obtain rfl : after = [] := List.eq_nil_of_length_eq_zero (by omega)
      rw [List.dropLast_concat] at early
      have again : (p, e) ∈ (before.map fun p => (p, answer p)).filterMap FileOutcome.failed? :=
        List.mem_filterMap.2 ⟨(p, answer p), List.mem_map_of_mem early, by rw [answered]; rfl⟩
      have twice := List.length_pos_of_mem again
      simp only [List.map_append, List.filterMap_append, List.length_append, List.map_cons,
        List.map_nil, answered, FileOutcome.failed?, List.filterMap_cons, List.filterMap_nil,
        List.length_cons, List.length_nil] at once
      omega
  · intro well
    obtain rfl | ⟨init, p, rfl⟩ := List.eq_nil_or_concat' files
    · exact endsAtFailure_of_well (List.forall_mem_nil _)
    · rw [List.dropLast_concat] at well
      have early : ∀ x ∈ init.map fun p => (p, answer p), x.2.isOk := fun x member => by
        obtain ⟨p, early, rfl⟩ := List.mem_map.1 member
        exact well p early
      have ends := @endsAtFailure_of_last _ _ _ discovered [] (p, answer p) early
      simpa [Function.comp_def] using ends

end Results

/-! ## Batches -/

theorem Ended.endsAtFailure {outcomes : List (FileOutcome α ε)} {left : List Job} {j j' : Journal}
    (ended : Ended true outcomes left j j') (discovered : Nat) :
    EndsAtFailure (outcomes.map Prod.fst ++ left.map Prod.fst)
      (.ofOutcomes discovered outcomes) := by
  cases ended with
  | done well => exact endsAtFailure_of_well (well rfl)
  | failed _ well => exact endsAtFailure_of_last _ well

/-- Where failures are to end a batch, one worker loads files in order up to the first failure and
its results end there. Workers that share the files do not ask for it: they load every file in any
case, and their results end with the first failure exactly if all files but the last one load. -/
theorem only_one_worker_fails_fast {load : Nat → Path → Logged (Except ε α)}
    {answer : Path → Except ε α} (steady : ∀ id p j, ((load id p).run j).1 = answer p)
    {o : BatchOptions} (fast : o.failFast = true) (files : List Path) (j : Journal) :
    (∃ (loads : List Job) (w : Worker α ε) (j₁ j' : Journal), files.zipIdx = loads ++ w.left ∧
      Runs load (.single files j) loads ⟨[w], j₁⟩ ∧ Ended true w.outcomes w.left j₁ j' ∧
      (checkInOrder load o files).run j = (concluded "Batch check completed" []
        (.ofOutcomes files.length w.outcomes)).run j' ∧
      EndsAtFailure files (.ofOutcomes files.length w.outcomes)) ∧
    checkShared load o files = checkShared load { o with failFast := false } files ∧
    (∀ jobs c, Runs load (.shared o.maxWorkers files j) jobs c → c.left = [] →
      jobs.Perm files.zipIdx ∧ (EndsAtFailure files (.ofOutcomes files.length c.outcomes) ↔
        ∀ p ∈ files.dropLast, (answer p).isOk)) ∧
    (EndsAtFailure files ((checkShared load o files).run j).1 ↔
      ∀ p ∈ files.dropLast, (answer p).isOk) := by
  refine ⟨?_, rfl, fun jobs c runs nothing => ?_, ?_⟩
  · obtain ⟨loads, w, j₁, j', all, runs, ended, checked⟩ := checkInOrder_runs load o files j
    rw [fast] at ended
    refine ⟨loads, w, j₁, j', all, runs, ended, checked, ?_⟩
    -- what was loaded and what is left are the files, in their order
    have paths := runs.told Prod.fst Prod.fst fun _ _ _ => rfl
    simp only [Crew.told, Crew.single, List.flatMap_singleton, List.map_nil, List.nil_append,
      List.zipIdx_map_fst] at paths
    exact paths ▸ ended.endsAtFailure files.length
  · obtain ⟨each, done⟩ := runs.of_shared steady
    rw [nothing, List.append_nil] at each
    rw [done nothing]
    exact ⟨each, endsAtFailure_iff files answer⟩
  · obtain ⟨c, -, -, shared⟩ := checkShared_eq o files j steady
    rw [shared, sharedEnd_fst]
    exact endsAtFailure_iff files answer

/-- On the disk with one file, a batch goes on behind a file that is missing. -/
theorem only_one_worker_fails_fast_missing :
    (∀ id p j, ((loadFile lonely {} id p).run j).1 = ((loadFile lonely {} 0 p).run {}).1) ∧
    ({ failFast := true } : BatchOptions).failFast = true ∧
    ¬ EndsAtFailure [⟨"b.xml"⟩, ⟨"a.xml"⟩] ((checkShared (loadFile lonely {}) { failFast := true }
      [⟨"b.xml"⟩, ⟨"a.xml"⟩]).run {}).1 := by
  have steady : ∀ id p j,
      ((loadFile lonely {} id p).run j).1 = ((loadFile lonely {} 0 p).run {}).1 :=
    fun id p j => (steady_loadFile lonely {} p id 0 j {} trivial).1
  refine ⟨steady, rfl, fun ends => ?_⟩
  obtain ⟨-, -, -, exactly⟩ :=
    only_one_worker_fails_fast steady (o := { failFast := true }) rfl [⟨"b.xml"⟩, ⟨"a.xml"⟩] {}
  exact absurd (exactly.1 ends ⟨"b.xml"⟩ (List.mem_singleton.2 rfl)) (by decide)

end Barrage.Batch
