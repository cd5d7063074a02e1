import Barrage.Batch.Check
import Barrage.Proofs.Coupled
import Mathlib.Data.List.Perm.Basic

/-!
Workers that share a batch. At every moment any one of them loads the next file of its share, and
all write to the same journal. However these steps fall, every file is loaded once under its number;
if what becomes of a file does not depend on the moment, the outcomes of the shares, one share after
another, are those of one worker with all files.
-/

set_option autoImplicit false

namespace Barrage.Batch

variable {α ε : Type}

abbrev Job := Path × Nat

/-- A worker: the files of its share that are left, and what became of the others. -/
structure Worker (α ε : Type) where
  left : List Job
  outcomes : List (FileOutcome α ε) := []

/-- Workers and the journal that they write to. -/
structure Crew (α ε : Type) where
  workers : List (Worker α ε)
  journal : Journal

inductive Step (load : Nat → Path → Logged (Except ε α)) : Crew α ε → Job → Crew α ε → Prop where
  | intro {before after : List (Worker α ε)} {p : Path} {id : Nat} {rest : List Job}
      {outcomes : List (FileOutcome α ε)} {j : Journal} :
      Step load ⟨before ++ ⟨(p, id) :: rest, outcomes⟩ :: after, j⟩ (p, id)
        ⟨before ++ ⟨rest, outcomes ++ [(p, ((load id p).run j).1)]⟩ :: after, ((load id p).run j).2⟩

/-- Files are loaded in an order, each by some worker. -/
inductive Runs (load : Nat → Path → Logged (Except ε α)) :
    Crew α ε → List Job → Crew α ε → Prop where
  | nil {c : Crew α ε} : Runs load c [] c
  | cons {c c' c'' : Crew α ε} {job : Job} {jobs : List Job} (first : Step load c job c')
      (rest : Runs load c' jobs c'') : Runs load c (job :: jobs) c''

namespace Crew

def left (c : Crew α ε) : List Job := c.workers.flatMap Worker.left

def outcomes (c : Crew α ε) : List (FileOutcome α ε) := c.workers.flatMap Worker.outcomes

/-- What is told of the files of all shares, by their outcomes or as long as they are left. -/
def told {γ : Type} (done : FileOutcome α ε → γ) (left : Job → γ) (c : Crew α ε) : List γ :=
  c.workers.flatMap fun w => w.outcomes.map done ++ w.left.map left

def single (files : List Path) (j : Journal) : Crew α ε := ⟨[⟨files.zipIdx, []⟩], j⟩

/-- Workers for shares of a size; the first share has a place among all. -/
def ofShares (size place : Nat) (shares : List (List Path)) : List (Worker α ε) :=
  (shares.zipIdx place).map fun (files, k) => ⟨files.zipIdx (k * size), []⟩

def shared (workers : Nat) (files : List Path) (j : Journal) : Crew α ε :=
  let size := shareSize files.length (max workers 1)
  ⟨ofShares size 0 (pieces size files), j⟩

theorem told_of_done {γ : Type} {done : FileOutcome α ε → γ} {left : Job → γ} {c : Crew α ε}
    (nothing : c.left = []) : c.told done left = c.outcomes.map done := by
  simp only [told, outcomes, List.map_flatMap]
  refine List.flatMap_congr fun w member => ?_
  have finished : w.left = [] := List.flatMap_eq_nil_iff.1 nothing w member
  rw [finished, List.map_nil, List.append_nil]

theorem told_of_fresh {γ : Type} {done : FileOutcome α ε → γ} {left : Job → γ} {c : Crew α ε}
    (fresh : c.outcomes = []) : c.told done left = c.left.map left := by
  simp only [told, Crew.left, List.map_flatMap]
  refine List.flatMap_congr fun w member => ?_
  have unstarted : w.outcomes = [] := List.flatMap_eq_nil_iff.1 fresh w member
  rw [unstarted, List.map_nil, List.nil_append]

end Crew

/-! ## What runs keep -/

section Runs

variable {load : Nat → Path → Logged (Except ε α)} {c c' : Crew α ε}

theorem Step.left {job : Job} (step : Step load c job c') : (job :: c'.left).Perm c.left := by
  cases step
  simp only [Crew.left, List.flatMap_append, List.flatMap_cons, List.cons_append]
  exact List.perm_middle.symm

theorem Runs.left {jobs : List Job} (runs : Runs load c jobs c') :
    (jobs ++ c'.left).Perm c.left := by
  induction runs with
  | nil => rfl
  | cons first _ ih => exact (ih.cons _).trans first.left

/-- What can be told of a file before it is loaded, and is the same after, stays. -/
theorem Step.told {γ : Type} (done : FileOutcome α ε → γ) (left : Job → γ)
    (agree : ∀ id p j, done (p, ((load id p).run j).1) = left (p, id)) {job : Job}
    (step : Step load c job c') : c'.told done left = c.told done left := by
  cases step
  simp [Crew.told, agree]

theorem Runs.told {γ : Type} (done : FileOutcome α ε → γ) (left : Job → γ)
    (agree : ∀ id p j, done (p, ((load id p).run j).1) = left (p, id)) {jobs : List Job}
    (runs : Runs load c jobs c') : c'.told done left = c.told done left := by
  induction runs with
  | nil => rfl
  | cons first _ ih => exact ih.trans (first.told done left agree)

theorem Runs.append {jobs jobs' : List Job} {c'' : Crew α ε} (runs : Runs load c jobs c')
    (more : Runs load c' jobs' c'') : Runs load c (jobs ++ jobs') c'' := by
  induction runs with
  | nil => exact more
  | cons first _ ih => exact .cons first (ih more)

end Runs

/-! ## Shares -/

theorem pieces_nil {β : Type} (size : Nat) : pieces size ([] : List β) = [] := by
  rw [pieces, if_pos (.inl rfl)]

theorem zipIdx_pieces {β : Type} {size : Nat} (positive : 0 < size) (l : List β) (place : Nat) :
    (((pieces size l).zipIdx place).flatMap fun (piece, k) => piece.zipIdx (k * size))
      = l.zipIdx (place * size) := by
  induction l using pieces.induct size generalizing place with
  | case1 l stop =>
    obtain rfl : l = [] := stop.resolve_right (Nat.ne_of_gt positive)
    rw [pieces, if_pos stop]
    rfl
  | case2 l go ih =>
    rw [pieces, if_neg go, List.zipIdx_cons, List.flatMap_cons, ih]
    conv_rhs => rw [← List.take_append_drop size l, List.zipIdx_append]
    congr 1
    -- a piece that is shorter than the others is the last one
    rcases Nat.lt_or_ge l.length size with short | long
    · rw [List.drop_eq_nil_of_le (Nat.le_of_lt short)]
      rfl
    · rw [List.length_take_of_le long, Nat.add_mul, Nat.one_mul]

theorem Crew.shareSize_pos {files workers : Nat} (file : 0 < files) (worker : 0 < workers) :
    0 < shareSize files workers :=
  Nat.div_pos (by omega) worker

theorem Crew.left_shared (workers : Nat) (files : List Path) (j : Journal) :
    (Crew.shared workers files j : Crew α ε).left = files.zipIdx := by
  cases files with
  | nil =>
    rw [Crew.left, shared, pieces_nil]
    rfl
  | cons p files =>
    have positive : 0 < shareSize (p :: files).length (max workers 1) :=
      shareSize_pos (Nat.succ_pos _) (Nat.le_max_right ..)
    have all := zipIdx_pieces positive (p :: files) 0
    rw [Nat.zero_mul] at all
    simp only [Crew.left, shared, ofShares, List.flatMap_map]
    exact all

theorem Crew.outcomes_shared (workers : Nat) (files : List Path) (j : Journal) :
    (Crew.shared workers files j : Crew α ε).outcomes = [] := by
  refine List.flatMap_eq_nil_iff.2 fun w member => ?_
  obtain ⟨share, -, rfl⟩ := List.mem_map.1 member
  rfl

/-! ## One worker after another -/

section InOrder

variable (load : Nat → Path → Logged (Except ε α))

/-- How a worker comes to its end, with what is left then and the journals before and after: it is
done, or there was a failure and failures end the work. -/
inductive Ended (failFast : Bool) :
    List (FileOutcome α ε) → List Job → Journal → Journal → Prop where
  | done {outcomes : List (FileOutcome α ε)} {j : Journal}
      (well : failFast = true → ∀ x ∈ outcomes, x.2.isOk) : Ended failFast outcomes [] j j
  | failed {outcomes : List (FileOutcome α ε)} {p : Path} {e : ε} {left : List Job} {j : Journal}
      (stops : failFast = true) (well : ∀ x ∈ outcomes, x.2.isOk) :
      Ended failFast (outcomes ++ [(p, .error e)]) left j
        (j.warn .warning "Fail-fast mode enabled, stopping batch")

theorem Ended.cons {failFast : Bool} {outcomes : List (FileOutcome α ε)} {left : List Job}
    {j j' : Journal} {x : FileOutcome α ε} (goes : failFast = true → x.2.isOk)
    (ended : Ended failFast outcomes left j j') : Ended failFast (x :: outcomes) left j j' := by
  cases ended with
  | done well =>
    exact .done fun stops => List.forall_mem_cons.2 ⟨goes stops, well stops⟩
  | failed stops well =>
    exact @Ended.failed _ _ _ (x :: _) _ _ _ _ stops (List.forall_mem_cons.2 ⟨goes stops, well⟩)

theorem Ended.whole {outcomes : List (FileOutcome α ε)} {left : List Job} {j j' : Journal}
    (ended : Ended false outcomes left j j') : left = [] ∧ j' = j := by
  cases ended with
  | done => exact ⟨rfl, rfl⟩
  | failed stops => cases stops

theorem run_oneByOne_cons {failFast : Bool} {p : Path} {id : Nat} {j : Journal}
    (goes : failFast = true → ((load id p).run j).1.isOk) (files : List Path) :
    (oneByOne load failFast id (p :: files)).run j =
      let r := (oneByOne load failFast (id + 1) files).run ((load id p).run j).2
      ((p, ((load id p).run j).1) :: r.1, r.2) := by
  rw [oneByOne, run_bind_eq]
  cases answer : ((load id p).run j).1 with
  | ok a => rfl
  | error e =>
    cases failFast with
    | false => rfl
    | true => simp [answer, Except.isOk, Except.toBool] at goes

theorem run_oneByOne_stop {p : Path} {id : Nat} {j : Journal} {e : ε}
    (fails : ((load id p).run j).1 = .error e) (files : List Path) :
    (oneByOne load true id (p :: files)).run j =
      ([(p, .error e)], ((load id p).run j).2.warn .warning
        "Fail-fast mode enabled, stopping batch") := by
  rw [oneByOne, run_bind_eq, fails]
  rfl

/-- A worker loads its files in order, all of them unless a failure ends the work. -/
theorem runs_oneByOne (failFast : Bool) (files : List Path) (id : Nat) (j : Journal)
    (before after : List (Worker α ε)) (outcomes : List (FileOutcome α ε)) :
    ∃ loads left j', files.zipIdx id = loads ++ left ∧
      Runs load ⟨before ++ ⟨files.zipIdx id, outcomes⟩ :: after, j⟩ loads
        ⟨before ++ ⟨left, outcomes ++ ((oneByOne load failFast id files).run j).1⟩ :: after, j'⟩ ∧
      Ended failFast ((oneByOne load failFast id files).run j).1 left j'
        ((oneByOne load failFast id files).run j).2 := by
  induction files generalizing id j outcomes with
  | nil =>
    refine ⟨[], [], j, rfl, ?_, .done fun _ => nofun⟩
    rw [oneByOne, run_pure_eq, List.append_nil]
    exact .nil
  | cons p files ih =>
    have first : Step load ⟨before ++ ⟨(p :: files).zipIdx id, outcomes⟩ :: after, j⟩ (p, id) _ :=
      .intro
    by_cases goes : failFast = true → ((load id p).run j).1.isOk
    · obtain ⟨loads, left, j', all, runs, ended⟩ := ih (id + 1) ((load id p).run j).2
        (outcomes ++ [(p, ((load id p).run j).1)])
      rw [List.append_assoc] at runs
      rw [run_oneByOne_cons load goes]
      refine ⟨(p, id) :: loads, left, j', ?_, .cons first runs, ?_⟩
      · rw [List.zipIdx_cons, all, List.cons_append]
      · exact ended.cons goes
    · obtain ⟨rfl, fails⟩ := Classical.not_imp.1 goes
      cases answer : ((load id p).run j).1 with
      | ok a => simp [answer, Except.isOk, Except.toBool] at fails
      | error e =>
        rw [run_oneByOne_stop load answer]
        rw [answer] at first
        exact ⟨[(p, id)], files.zipIdx (id + 1), _, rfl, .cons first .nil,
          @Ended.failed _ _ _ [] _ _ _ _ rfl nofun⟩

theorem runs_shares (size place : Nat) (parts : List (List Path)) (j : Journal)
    (before : List (Worker α ε)) :
    ∃ done : List (Worker α ε), done.flatMap Worker.left = [] ∧
      done.flatMap Worker.outcomes = ((shares load size place parts).run j).1 ∧
      Runs load ⟨before ++ Crew.ofShares size place parts, j⟩
        ((Crew.ofShares size place parts : List (Worker α ε)).flatMap Worker.left)
        ⟨before ++ done, ((shares load size place parts).run j).2⟩ := by
  induction parts generalizing place j before with
  | nil => exact ⟨[], rfl, rfl, .nil⟩
  | cons files parts ih =>
    obtain ⟨loads, left, j', all, runs, ended⟩ := runs_oneByOne load false files (place * size) j
      before (Crew.ofShares size (place + 1) parts) []
    obtain ⟨rfl, same⟩ := ended.whole
    rw [shares, run_bind_eq, run_bind_eq]
    generalize (oneByOne load false (place * size) files).run j = r at runs same ⊢
    obtain ⟨done, nothing, outcomes, others⟩ := ih (place + 1) r.2 (before ++ [⟨[], r.1⟩])
    refine ⟨⟨[], r.1⟩ :: done, nothing, congrArg (r.1 ++ ·) outcomes, ?_⟩
    rw [List.append_nil] at all
    rw [← all, ← same] at runs
    rw [List.append_assoc, List.append_assoc] at others
    exact runs.append others

end InOrder

end Barrage.Batch
