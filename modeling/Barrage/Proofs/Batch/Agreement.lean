import Barrage.Proofs.Batch.Workers

/-!
Batches come to the same results however the work is done. A file is loaded to the same outcome
whenever and under whatever number it is loaded, so one worker after another, workers that do their
shares in turn, and workers whose steps fall in any order leave the same results.
-/

set_option autoImplicit false

namespace Barrage

variable {α ε : Type}

/-! ## Results -/

def FileOutcome.loaded? : FileOutcome α ε → Option (Path × α)
  | (p, .ok a) => some (p, a)
  | (_, .error _) => none

def FileOutcome.failed? : FileOutcome α ε → Option (Path × ε)
  | (_, .ok _) => none
  | (p, .error e) => some (p, e)

namespace BatchResults

theorem foldl_record (r : BatchResults α ε) (outcomes : List (FileOutcome α ε)) :
    outcomes.foldl record r =
      ⟨r.discovered, r.loaded ++ outcomes.filterMap FileOutcome.loaded?,
        r.failed ++ outcomes.filterMap FileOutcome.failed?⟩ := by
  induction outcomes generalizing r with
  | nil => simp
  | cons outcome outcomes ih =>
    obtain ⟨p, _ | _⟩ := outcome <;>
      simp [ih, record, List.filterMap_cons, FileOutcome.loaded?, FileOutcome.failed?]

theorem ofOutcomes_eq (discovered : Nat) (outcomes : List (FileOutcome α ε)) :
    ofOutcomes discovered outcomes =
      ⟨discovered, outcomes.filterMap FileOutcome.loaded?,
        outcomes.filterMap FileOutcome.failed?⟩ :=
  foldl_record { discovered } outcomes

theorem processed_ofOutcomes (discovered : Nat) (outcomes : List (FileOutcome α ε)) :
    (ofOutcomes discovered outcomes).processed = outcomes.length := by
  rw [ofOutcomes_eq, processed]
  dsimp only
  induction outcomes with
  | nil => rfl
  | cons outcome outcomes ih =>
    obtain ⟨p, _ | _⟩ := outcome <;>
      simp [List.filterMap_cons, FileOutcome.loaded?, FileOutcome.failed?] <;> omega

end BatchResults

namespace Batch

/-! ## Loading a file -/

section Loading

abbrev Steady {β : Type} (x x' : Logged β) : Prop := Together (fun _ _ => True) x x'

theorem steady_note (f g : Journal → Journal) : Steady (note f) (note g) :=
  fun _ _ _ => ⟨rfl, trivial⟩

theorem steady_noted {β : Type} (f g : Journal → Journal) (b : β) :
    Steady (do note f; pure b) (do note g; pure b) :=
  (steady_note f g).bind fun _ => .pure b

theorem steady_fail {β : Type} (p : Path) (e : FileError) (words : String)
    (details : List (String × String)) :
    Steady (SourceFile.fail p e words details : Logged (Except FileError β))
      (SourceFile.fail p e words details) :=
  steady_noted _ _ _

theorem steady_read (d : Disk) (s : FileSettings) (p : Path) :
    Steady (SourceFile.read d s p) (SourceFile.read d s p) := by
  unfold SourceFile.read SourceFile.ofRegular SourceFile.ofContent
  refine (steady_note _ _).bind fun _ => ?_
  split
  · exact steady_fail _ _ _ _
  · dsimp only
    split
    · exact steady_fail _ _ _ _
    · split
      · exact steady_fail _ _ _ _
      · split
        · exact steady_fail _ _ _ _
        · exact steady_noted _ _ _
  · exact steady_fail _ _ _ _

open Load

theorem steady_tokens (source : String) : Steady (tokens source) (tokens source) := by
  unfold tokens
  dsimp only
  split <;> exact steady_noted _ _ _

theorem steady_document (s : Markup.TokenStream) : Steady (document s) (document s) := by
  unfold document elements
  refine (steady_note _ _).bind fun _ => ?_
  refine (steady_noted _ _ _).bind fun ⟨outcome, depth⟩ => ?_
  cases outcome <;> exact steady_noted _ _ _

theorem steady_draft (s : LoaderSettings) (root : Markup.Element) :
    Steady (draft s root) (draft s root) := by
  unfold draft
  refine (steady_note _ _).bind fun _ => ?_
  cases Draft.ofDocument root with
  | mk outcome d =>
    have told : Steady (d.ignored.toList.forM warnIgnored) (d.ignored.toList.forM warnIgnored) :=
      Together.forM (fun _ => steady_note _ _) _
    cases outcome <;> dsimp only <;> split
    · exact told.bind fun _ => steady_noted _ _ _
    · exact steady_noted _ _ _
    · exact told.bind fun _ => steady_noted _ _ _
    · exact steady_noted _ _ _

theorem steady_links (s : LoaderSettings) (t : Tree) (before : Links) :
    Steady (links s t before) (links s t before) := by
  unfold links
  refine (steady_note _ _).bind fun _ => ?_
  cases t.validate { links := before } with
  | mk outcome w =>
    refine (Together.forM (fun _ => steady_note _ _) _).bind fun _ => ?_
    cases outcome with
    | error e => exact steady_noted _ _ _
    | ok => exact (steady_note _ _).bind fun _ => (steady_note _ _).bind fun _ => .pure _

theorem steady_stage {β ε : Type} (wrap : ε → LoadError) {x : Logged (Except ε β)}
    (steady : Steady x x) : Steady (stage wrap x).run (stage wrap x).run :=
  steady.bind fun _ => .pure _

theorem steady_pattern (s : LoaderSettings) (source : String) :
    Steady (pattern s source).run (pattern s source).run := by
  unfold pattern
  refine .bindExcept (steady_stage _ (steady_tokens source)) fun stream => ?_
  refine .bindExcept (steady_stage _ (steady_document stream)) fun root => ?_
  refine .bindExcept (steady_stage _ (steady_draft s root)) fun d => ?_
  refine .bindExcept (steady_stage _ ((steady_links s _ _).bind fun _ => .pure _)) fun _ => ?_
  exact .bindExcept (steady_noted _ _ _) fun _ => .pure _

theorem steady_openedFile (d : Disk) (s : Settings) (p : Path) :
    Steady (openedFile d s p).run (openedFile d s p).run := by
  unfold openedFile
  refine .bindExcept (steady_noted _ _ _) fun _ => ?_
  refine .bindExcept (steady_stage _ (steady_read d s.files p)) fun f => ?_
  exact .bindExcept (steady_pattern s.loader f.source) fun _ => .pure _

theorem steady_loadFile (d : Disk) (s : Settings) (p : Path) (id id' : Nat) :
    Steady (loadFile d s id p) (loadFile d s id' p) := by
  unfold loadFile Load.file withFile
  refine ((steady_note _ _).bind fun _ => (steady_openedFile d s p).bind fun _ =>
    steady_noted _ _ _).bind fun outcome => ?_
  cases outcome <;> exact steady_noted _ _ _

end Loading

/-! ## Checking files -/

section Checking

variable (load : Nat → Path → Logged (Except ε α)) (o : BatchOptions) (files : List Path)
  (j : Journal)

def concluded (words : String) (details : List (String × String)) (r : BatchResults α ε) :
    Logged (BatchResults α ε) := do
  noteEnd words r details
  pure r

theorem checkInOrder_runs : ∃ (loads : List Job) (w : Worker α ε) (j₁ j' : Journal),
    files.zipIdx = loads ++ w.left ∧ Runs load (.single files j) loads ⟨[w], j₁⟩ ∧
    Ended o.failFast w.outcomes w.left j₁ j' ∧
    (checkInOrder load o files).run j = (concluded "Batch check completed" []
      (BatchResults.ofOutcomes files.length w.outcomes)).run j' := by
  obtain ⟨loads, left, j₁, all, runs, ended⟩ :=
    runs_oneByOne load o.failFast files 0 j [] [] []
  exact ⟨loads, ⟨left, _⟩, j₁, _, all, runs, ended, rfl⟩

/-- What is told at the end of a batch that workers shared; nothing if there was no file. -/
def sharedEnd (r : BatchResults α ε) : Logged (BatchResults α ε) :=
  if files = [] then pure r
  else concluded "Parallel batch check completed" [("threads", toString (max o.maxWorkers 1))] r

/-- Shared files are checked as by workers of which each does the whole of its share in turn. -/
theorem checkShared_runs : ∃ c, Runs load (.shared o.maxWorkers files j) files.zipIdx c ∧
    c.left = [] ∧ (checkShared load o files).run j =
      (sharedEnd o files (BatchResults.ofOutcomes files.length c.outcomes)).run c.journal := by
  let size := shareSize files.length (max o.maxWorkers 1)
  let r := (shares load size 0 (pieces size files)).run j
  obtain ⟨done, nothing, outcomes, runs⟩ := runs_shares load size 0 (pieces size files) j []
  have all : ((Crew.ofShares size 0 (pieces size files) : List (Worker α ε)).flatMap Worker.left)
      = files.zipIdx := Crew.left_shared o.maxWorkers files j
  rw [all] at runs
  refine ⟨⟨done, r.2⟩, runs, nothing, ?_⟩
  change _ = (sharedEnd o files (BatchResults.ofOutcomes files.length
    (done.flatMap Worker.outcomes))).run r.2
  rw [outcomes]
  cases files with
  | nil =>
    have unshared : r = ([], j) := by simp only [r, pieces_nil, shares, run_pure_eq]
    change _ = (sharedEnd o [] (BatchResults.ofOutcomes 0 r.1)).run r.2
    rw [unshared]
    rfl
  | cons p files => rfl

variable {load files j} {answer : Path → Except ε α}
  (steady : ∀ id p j, ((load id p).run j).1 = answer p)

include steady

theorem Runs.outcomes {jobs : List Job} {c c' : Crew α ε} (runs : Runs load c jobs c')
    (fresh : c.outcomes = []) (all : c.left = files.zipIdx) (nothing : c'.left = []) :
    c'.outcomes = files.map fun p => (p, answer p) := by
  have told := runs.told id (fun job => (job.1, answer job.1))
    fun id p j => congrArg (Prod.mk p) (steady id p j)
  rw [Crew.told_of_done nothing, Crew.told_of_fresh fresh, all, List.map_id] at told
  have paths := congrArg (List.map fun p => (p, answer p)) (List.zipIdx_map_fst 0 files)
  rw [List.map_map] at paths
  exact told.trans paths

/-- What workers with shares have done, and what became of the files when nothing is left. -/
theorem Runs.of_shared {jobs : List Job} {workers : Nat} {c : Crew α ε}
    (runs : Runs load (.shared workers files j) jobs c) :
    (jobs ++ c.left).Perm files.zipIdx ∧
      (c.left = [] → c.outcomes = files.map fun p => (p, answer p)) := by
  have all : (Crew.shared workers files j : Crew α ε).left = files.zipIdx :=
    Crew.left_shared workers files j
  exact ⟨all ▸ runs.left, runs.outcomes steady (Crew.outcomes_shared workers files j) all⟩

variable (files j) in
theorem checkInOrder_eq (goesOn : o.failFast = false) :
    ∃ c, Runs load (.single files j) files.zipIdx c ∧ c.left = [] ∧
      (checkInOrder load o files).run j = (concluded "Batch check completed" []
        (.ofOutcomes files.length (files.map fun p => (p, answer p)))).run c.journal := by
  obtain ⟨loads, ⟨left, outcomes⟩, j₁, j', all, runs, ended, checked⟩ :=
    checkInOrder_runs load o files j
  rw [goesOn] at ended
  obtain ⟨rfl, rfl⟩ := ended.whole
  have known := runs.outcomes steady rfl (List.append_nil _) rfl
  rw [Crew.outcomes, List.flatMap_singleton] at known
  rw [List.append_nil] at all
  exact ⟨_, all ▸ runs, rfl, known ▸ checked⟩

variable (files j) in
theorem checkShared_eq :
    ∃ c, Runs load (.shared o.maxWorkers files j) files.zipIdx c ∧ c.left = [] ∧
      (checkShared load o files).run j = (sharedEnd o files
        (.ofOutcomes files.length (files.map fun p => (p, answer p)))).run c.journal := by
  obtain ⟨c, runs, nothing, checked⟩ := checkShared_runs load o files j
  rw [(runs.of_shared steady).2 nothing] at checked
  exact ⟨c, runs, nothing, checked⟩

end Checking

@[simp] theorem concluded_fst (words : String) (details : List (String × String))
    (r : BatchResults α ε) (j : Journal) : ((concluded words details r).run j).1 = r := rfl

@[simp] theorem sharedEnd_fst (o : BatchOptions) (files : List Path) (r : BatchResults α ε)
    (j : Journal) : ((sharedEnd o files r).run j).1 = r := by
  unfold sharedEnd
  split <;> rfl

/-- A batch has the same results whether one worker checks the files or several share them, unless
failures end it. -/
theorem check_eq (d : Disk) (s : Settings) {o : BatchOptions} (goesOn : o.failFast = false)
    (ps : List Path) (j : Journal) :
    ((check d s o true ps).run j).1 = ((check d s o false ps).run j).1 := by
  unfold check
  rw [run_bind_eq, run_bind_eq]
  cases ((discover d o ps).run j).1 with
  | error e => rfl
  | ok files =>
    have steady : ∀ id p j, ((loadFile d s id p).run j).1 = ((loadFile d s 0 p).run {}).1 :=
      fun id p j => (steady_loadFile d s p id 0 j {} trivial).1
    obtain ⟨c, -, -, inOrder⟩ := checkInOrder_eq o files ((discover d o ps).run j).2 steady goesOn
    obtain ⟨c', -, -, shared⟩ := checkShared_eq o files ((discover d o ps).run j).2 steady
    have left := congrArg Prod.fst inOrder
    have right := congrArg Prod.fst shared
    rw [concluded_fst] at left
    rw [sharedEnd_fst] at right
    exact congrArg Except.ok (left.trans right.symm)

/-- Where failures do not end a batch, one worker and several come to the same results, which have
all files in order. One worker loads every file once, in order and under its number; several load
every file once and under its number, in whatever order their steps fall. -/
theorem results_agree {load : Nat → Path → Logged (Except ε α)} {answer : Path → Except ε α}
    (steady : ∀ id p j, ((load id p).run j).1 = answer p) {o : BatchOptions}
    (goesOn : o.failFast = false) (files : List Path) (j : Journal) :
    ∃ r : BatchResults α ε,
      r.loaded = files.filterMap (fun p => FileOutcome.loaded? (p, answer p)) ∧
      r.failed = files.filterMap (fun p => FileOutcome.failed? (p, answer p)) ∧
      r.discovered = files.length ∧ r.processed = r.discovered ∧
      (∃ c, Runs load (.single files j) files.zipIdx c ∧ c.left = [] ∧
        (checkInOrder load o files).run j =
          (concluded "Batch check completed" [] r).run c.journal) ∧
      (∃ c, Runs load (.shared o.maxWorkers files j) files.zipIdx c ∧ c.left = [] ∧
        (checkShared load o files).run j = (sharedEnd o files r).run c.journal) ∧
      ∀ jobs c, Runs load (.shared o.maxWorkers files j) jobs c →
        (jobs ++ c.left).Perm files.zipIdx ∧
          (c.left = [] → BatchResults.ofOutcomes files.length c.outcomes = r) := by
  refine ⟨.ofOutcomes files.length (files.map fun p => (p, answer p)), ?_, ?_, ?_, ?_, ?_, ?_, ?_⟩
  · simp only [BatchResults.ofOutcomes_eq, List.filterMap_map]
    rfl
  · simp only [BatchResults.ofOutcomes_eq, List.filterMap_map]
    rfl
  · rw [BatchResults.ofOutcomes_eq]
  · rw [BatchResults.processed_ofOutcomes, BatchResults.ofOutcomes_eq, List.length_map]
  · exact checkInOrder_eq o files j steady goesOn
  · exact checkShared_eq o files j steady
  · intro jobs c runs
    obtain ⟨each, done⟩ := runs.of_shared steady
    exact ⟨each, fun nothing => by rw [done nothing]⟩

def lonely : Disk where
  look p := if p = ⟨"a.xml"⟩ then .ok (.file "<bulletml/>".toUTF8) else .error .notFound

theorem results_agree_missing :
    (∀ id p j, ((loadFile lonely {} id p).run j).1 = ((loadFile lonely {} 0 p).run {}).1) ∧
    ({ maxWorkers := 2 } : BatchOptions).failFast = false ∧
    ∃ r, r.loaded.map Prod.fst = [⟨"a.xml"⟩, ⟨"a.xml"⟩] ∧ r.failed.map Prod.fst = [⟨"b.xml"⟩] ∧
      r.processed = 3 ∧
      ((checkInOrder (loadFile lonely {}) { maxWorkers := 2 }
        [⟨"a.xml"⟩, ⟨"b.xml"⟩, ⟨"a.xml"⟩]).run {}).1 = r ∧
      ((checkShared (loadFile lonely {}) { maxWorkers := 2 }
        [⟨"a.xml"⟩, ⟨"b.xml"⟩, ⟨"a.xml"⟩]).run {}).1 = r := by
  have steady : ∀ id p j,
      ((loadFile lonely {} id p).run j).1 = ((loadFile lonely {} 0 p).run {}).1 :=
    fun id p j => (steady_loadFile lonely {} p id 0 j {} trivial).1
  obtain ⟨a, there⟩ : ∃ a, ((loadFile lonely {} 0 ⟨"a.xml"⟩).run {}).1 = .ok a := by
    have loads : ((loadFile lonely {} 0 ⟨"a.xml"⟩).run {}).1.isOk := by decide +kernel
    cases answer : ((loadFile lonely {} 0 ⟨"a.xml"⟩).run {}).1 with
    | ok a => exact ⟨a, rfl⟩
    | error e => rw [answer] at loads; cases loads
  have missing : ((loadFile lonely {} 0 ⟨"b.xml"⟩).run {}).1 =
      .error (.file (.notFound "b.xml")) := rfl
  obtain ⟨r, loaded, failed, discovered, processed, ⟨c, -, -, inOrder⟩, ⟨c', -, -, shared⟩, -⟩ :=
    results_agree steady (o := { maxWorkers := 2 }) rfl [⟨"a.xml"⟩, ⟨"b.xml"⟩, ⟨"a.xml"⟩] {}
  refine ⟨steady, rfl, r, ?_, ?_, ?_, ?_, ?_⟩
  · rw [loaded]
    simp only [List.filterMap_cons, there, missing, FileOutcome.loaded?, List.filterMap_nil,
      List.map_cons, List.map_nil]
  · rw [failed]
    simp only [List.filterMap_cons, there, missing, FileOutcome.failed?, List.filterMap_nil,
      List.map_cons, List.map_nil]
  · rw [processed, discovered]
    rfl
  · rw [inOrder]
    rfl
  · rw [shared]
    rfl

end Batch

end Barrage
