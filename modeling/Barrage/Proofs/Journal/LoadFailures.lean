import Barrage.Pattern.Load
import Barrage.Proofs.Computation

/-!
What a load tells the journal. A load does nothing to the journal but log events. A load that
succeeds logs no error; a load that fails logs one, at the stage that fails, and the error has the
code of the failure.
-/

set_option autoImplicit false

namespace Barrage

def errorCodes (events : List Event) : List Code := (events.filter Event.isError).map Event.code

@[simp] theorem errorCodes_append (es es' : List Event) :
    errorCodes (es ++ es') = errorCodes es ++ errorCodes es' := by
  simp [errorCodes]

theorem errorCodes_eq_nil {events : List Event} :
    errorCodes events = [] ↔ ∀ e ∈ events, e.isError = false := by
  simp [errorCodes, List.filter_eq_nil_iff]

namespace Journal

/-! ## Events one after the other -/

def logAll (j : Journal) (events : List Event) : Journal := events.foldl log j

@[simp] theorem logAll_nil (j : Journal) : j.logAll [] = j := rfl

@[simp] theorem logAll_cons (j : Journal) (e : Event) (events : List Event) :
    j.logAll (e :: events) = (j.log e).logAll events := rfl

theorem logAll_append (j : Journal) (es es' : List Event) :
    j.logAll (es ++ es') = (j.logAll es).logAll es' := by
  simp [logAll]

theorem exists_log_eq (j : Journal) (e : Event) :
    ∃ collector, j.log e = { j with collector }.keep (j.attachFile e) := by
  unfold log
  dsimp only
  split
  · next f _ =>
    split
    · exact ⟨j.collector.record f.path (j.attachFile e), rfl⟩
    · exact ⟨j.collector, rfl⟩
  · exact ⟨j.collector, rfl⟩

@[simp] theorem log_file (j : Journal) (e : Event) : (j.log e).file = j.file := by
  obtain ⟨collector, logged⟩ := j.exists_log_eq e
  rw [logged, keep]
  split <;> rfl

@[simp] theorem logAll_file (j : Journal) (events : List Event) :
    (j.logAll events).file = j.file := by
  induction events generalizing j with
  | nil => rfl
  | cons e events ih => simp [ih]

theorem exists_attachFile_eq (j : Journal) (e : Event) :
    ∃ details, j.attachFile e = { e with details } := by
  unfold attachFile
  split
  · split
    · exact ⟨_, rfl⟩
    · exact ⟨e.details, rfl⟩
  · exact ⟨e.details, rfl⟩

/-- What is kept of an event; errors always are. -/
theorem exists_log_events (j : Journal) (e : Event) :
    ∃ kept, (j.log e).events.toList = j.events.toList ++ kept ∧
      errorCodes kept = errorCodes [e] := by
  obtain ⟨collector, logged⟩ := j.exists_log_eq e
  obtain ⟨details, attached⟩ := j.exists_attachFile_eq e
  rw [logged, attached, keep]
  split
  · refine ⟨[{ e with details }], by simp [append], ?_⟩
    cases level : e.level <;> simp [errorCodes, Event.isError, level]
  · next drops =>
    refine ⟨[], by simp, ?_⟩
    -- an error is important enough for every journal
    cases level : e.level with
    | error => simp [level, Level.keeps, Level.rank] at drops
    | warning | info | debug => simp [errorCodes, Event.isError, level]

theorem exists_logAll_events (j : Journal) (events : List Event) :
    ∃ kept, (j.logAll events).events.toList = j.events.toList ++ kept ∧
      errorCodes kept = errorCodes events := by
  induction events generalizing j with
  | nil => exact ⟨[], by simp, rfl⟩
  | cons e events ih =>
    obtain ⟨first, firstKept, firstCodes⟩ := j.exists_log_events e
    obtain ⟨rest, restKept, restCodes⟩ := ih (j.log e)
    refine ⟨first ++ rest, ?_, ?_⟩
    · rw [logAll_cons, restKept, firstKept, List.append_assoc]
    · rw [errorCodes_append, firstCodes, restCodes, ← errorCodes_append, List.singleton_append]

end Journal

variable {α β ε : Type}

/-! ## Computations that log -/

/-- A computation does nothing to a journal but log events, and the errors among them have the codes
that go with what it comes to. -/
def Logs (codes : α → List Code) (x : Logged α) : Prop :=
  ∀ j, ∃ told, (x.run j).2 = j.logAll told ∧ errorCodes told = codes (x.run j).1

abbrev LogsNoError (x : Logged α) : Prop := Logs (fun _ => []) x

def failureCodes (code : ε → Code) : Except ε α → List Code
  | .ok _ => []
  | .error e => [code e]

@[simp] theorem failureCodes_mapError {ε' : Type} (code : ε' → Code) (wrap : ε → ε')
    (outcome : Except ε α) :
    failureCodes code (outcome.mapError wrap) = failureCodes (fun e => code (wrap e)) outcome := by
  cases outcome <;> rfl

@[simp] theorem failureCodes_map (code : ε → Code) (f : α → β) (outcome : Except ε α) :
    failureCodes code (outcome.map f) = failureCodes code outcome := by
  cases outcome <;> rfl

abbrev LogsFailure (code : ε → Code) (x : Logged (Except ε α)) : Prop := Logs (failureCodes code) x

theorem LogsNoError.before {codes : β → List Code} {x : Logged α} {f : α → Logged β}
    (first : LogsNoError x) (next : ∀ a, Logs codes (f a)) : Logs codes (x >>= f) := by
  intro j
  obtain ⟨told, journal, none⟩ := first j
  obtain ⟨told', journal', same⟩ := next (x.run j).1 (x.run j).2
  refine ⟨told ++ told', ?_, ?_⟩
  · rw [run_bind_eq, journal', journal, Journal.logAll_append]
  · rw [run_bind_eq, errorCodes_append, none, List.nil_append, same]

theorem LogsFailure.bind {code : ε → Code} {x : ExceptT ε Logged α} {f : α → ExceptT ε Logged β}
    (first : LogsFailure code x.run) (next : ∀ a, LogsFailure code (f a).run) :
    LogsFailure code (x >>= f).run := by
  intro j
  obtain ⟨told, journal, same⟩ := first j
  rw [Ends.run_eq_bind]
  cases came : x.run.run j with
  | mk outcome j' =>
    rw [came] at journal same
    cases outcome with
    | error e => exact ⟨told, journal, same⟩
    | ok a =>
      obtain ⟨told', journal', same'⟩ := next a j'
      obtain rfl : j' = j.logAll told := journal
      refine ⟨told ++ told', ?_, ?_⟩
      · exact journal'.trans (Journal.logAll_append j told told').symm
      · rw [errorCodes_append, same, same']
        rfl

namespace Logs

theorem pure {codes : α → List Code} {a : α} (none : codes a = []) : Logs codes (pure a) :=
  fun _ => ⟨[], rfl, none.symm⟩

theorem map {codes : β → List Code} {x : Logged α} {f : α → β}
    (logs : Logs (fun a => codes (f a)) x) :
    Logs codes (do
      let a ← x
      Pure.pure (f a)) := logs

theorem event (e : Event) : Logs (fun _ => errorCodes [e]) (note fun j => j.log e) :=
  fun _ => ⟨[e], rfl, rfl⟩

theorem warn (code : Code) (words : String) (details : List (String × String))
    (span : Option Span) : LogsNoError (note fun j => j.warn code words details span) :=
  event (.make .warning code words details span)

theorem success (code : Code) (words : String) (details : List (String × String)) :
    LogsNoError (note fun j => j.success code words details) :=
  event (.make .info code words details)

theorem info (words : String) (details : List (String × String)) :
    LogsNoError (note fun j => j.info words details) :=
  event (.make .info .info words details)

theorem debug (words : String) (details : Unit → List (String × String)) :
    LogsNoError (note fun j => j.debug words details) := by
  intro j
  cases keeps : j.level.keeps .debug
  · refine ⟨[], ?_, rfl⟩
    change j.debug words details = j
    simp [Journal.debug, keeps]
  · refine ⟨[.make .debug .debug words (details ())], ?_, rfl⟩
    change j.debug words details = j.log (.make .debug .debug words (details ()))
    simp [Journal.debug, keeps]

theorem forM {f : α → Logged Unit} (each : ∀ a, LogsNoError (f a)) (as : List α) :
    LogsNoError (as.forM f) := by
  induction as with
  | nil => exact pure rfl
  | cons a as ih => exact (each a).before fun _ => ih

theorem failed {codes : α → List Code} {a : α} (code : Code) (words : String)
    (details : List (String × String)) (span : Option Span) (own : codes a = [code]) :
    Logs codes (do
      note fun j => j.error code words details span
      Pure.pure a) :=
  fun _ => ⟨[.make .error code words details span], rfl, own.symm⟩

theorem succeeded {codes : α → List Code} {a : α} (code : Code) (words : String)
    (details : List (String × String)) (none : codes a = []) :
    Logs codes (do
      note fun j => j.success code words details
      Pure.pure a) :=
  (success code words details).before fun _ => pure none

end Logs

/-! ## The stages of a load -/

namespace SourceFile

theorem logs_fail (p : Path) (e : FileError) (words : String) (details : List (String × String)) :
    LogsFailure FileError.code (fail p e words details : Logged (Except FileError α)) :=
  .failed e.code words _ none rfl

theorem logs_ofContent (s : FileSettings) (p : Path) (size : Nat) (content : ByteArray)
    (extension? : Option String) :
    LogsFailure FileError.code (ofContent s p size content extension?) := by
  unfold ofContent
  split
  · apply logs_fail
  · exact Logs.succeeded _ _ _ rfl

theorem logs_ofRegular (s : FileSettings) (p : Path) (size : Nat)
    (content : Except DiskError ByteArray) :
    LogsFailure FileError.code (ofRegular s p size content) := by
  unfold ofRegular
  dsimp only
  split
  · apply logs_fail
  · cases content with
    | error e => apply logs_fail
    | ok content => apply logs_ofContent

theorem logs_read (d : Disk) (s : FileSettings) (p : Path) :
    LogsFailure FileError.code (read d s p) := by
  unfold read
  refine LogsNoError.before (.debug _ _) fun _ => ?_
  split
  · apply logs_fail
  · apply logs_ofRegular
  · apply logs_fail

end SourceFile

namespace Load

open Markup

theorem logs_tokens (source : String) : LogsFailure LexError.code (tokens source) := by
  unfold tokens
  dsimp only
  split
  · exact Logs.failed _ _ _ _ rfl
  · exact Logs.succeeded _ _ _ rfl

theorem logs_document (s : TokenStream) : LogsFailure DocumentError.code (document s) := by
  unfold document elements
  refine LogsNoError.before (.debug _ _) fun _ => ?_
  refine LogsNoError.before (LogsNoError.before (.debug _ _) fun _ => .pure rfl) ?_
  rintro ⟨outcome, depth⟩
  cases outcome with
  | error e => exact Logs.failed _ _ _ _ rfl
  | ok root => exact Logs.succeeded _ _ _ rfl

theorem logs_draft (s : LoaderSettings) (root : Element) :
    LogsFailure FormatError.code (draft s root) := by
  unfold draft
  refine LogsNoError.before (.debug _ _) fun _ => ?_
  obtain ⟨outcome, d⟩ := Draft.ofDocument root
  have warned : LogsNoError (d.ignored.toList.forM warnIgnored) :=
    Logs.forM (fun _ => .warn _ _ _ _) _
  cases outcome with
  | error e =>
    dsimp only
    split
    · exact warned.before fun _ => .failed _ _ _ _ rfl
    · exact Logs.failed _ _ _ _ rfl
  | ok =>
    have built : LogsFailure FormatError.code (do
        note fun j => j.success .treeBuilt "Pattern tree built"
          [("nodes", toString d.tree.size), ("orientation", d.orientation.title)]
        pure (Except.ok d)) :=
      Logs.succeeded _ _ _ rfl
    dsimp only
    split
    · exact warned.before fun _ => built
    · exact built

theorem logs_links (s : LoaderSettings) (t : Tree) (before : Links) :
    Logs (fun r => failureCodes ValidationError.code r.1) (links s t before) := by
  unfold links
  refine LogsNoError.before (.debug _ _) fun _ => ?_
  obtain ⟨outcome, w⟩ := t.validate { links := before }
  refine LogsNoError.before (Logs.forM (fun _ => .debug _ _) _) fun _ => ?_
  cases outcome with
  | error e => exact Logs.failed _ _ _ _ rfl
  | ok =>
    refine LogsNoError.before (.success _ _ _) fun _ => ?_
    exact Logs.succeeded _ _ _ rfl

theorem logs_stage {wrap : ε → LoadError} {x : Logged (Except ε α)}
    (logs : LogsFailure (fun e => (wrap e).code) x) :
    LogsFailure LoadError.code (stage wrap x).run := by
  have mapped : Logs (fun outcome => failureCodes LoadError.code (outcome.mapError wrap)) x := by
    simpa only [failureCodes_mapError] using logs
  exact mapped.map

theorem logs_lift {x : Logged α} (logs : LogsNoError x) :
    LogsFailure LoadError.code (ExceptT.lift x).run := logs

theorem logs_pattern (s : LoaderSettings) (source : String) :
    LogsFailure LoadError.code (pattern s source).run := by
  unfold pattern
  refine .bind (logs_stage (logs_tokens source)) fun stream => ?_
  refine .bind (logs_stage (logs_document stream)) fun root => ?_
  refine .bind (logs_stage (logs_draft s root)) fun d => ?_
  refine .bind (logs_stage (Logs.map ?_)) fun _ => ?_
  · simp only [failureCodes_map]
    exact logs_links s d.tree (.blank d.tree.size)
  refine .bind (logs_lift (.success _ _ _)) fun _ => ?_
  exact Logs.pure rfl

theorem logs_openedFile (d : Disk) (s : Settings) (path : Path) :
    LogsFailure LoadError.code (openedFile d s path).run := by
  unfold openedFile
  refine .bind (logs_lift (.info _ _)) fun _ => ?_
  refine .bind (logs_stage (SourceFile.logs_read d s.files path)) fun f => ?_
  refine .bind (logs_pattern s.loader f.source) fun p => ?_
  exact Logs.pure rfl

/-! ## Loading a file -/

theorem isError_iff_of_errorCodes {outcome : Except LoadError Pattern} {told : List Event}
    (same : errorCodes told = failureCodes LoadError.code outcome) :
    (∃ failure, outcome = .error failure) ↔ ∃ e ∈ told, e.isError := by
  cases outcome with
  | error failure =>
    refine iff_of_true ⟨failure, rfl⟩ ?_
    by_contra none
    have quiet : errorCodes told = [] := errorCodes_eq_nil.2 (by simpa using none)
    rw [same] at quiet
    cases quiet
  | ok p =>
    refine iff_of_false (by simp) ?_
    rintro ⟨e, inside, isError⟩
    rw [errorCodes_eq_nil.1 same e inside] at isError
    cases isError

/-- Whatever the file system answers and whatever the journal holds, a load logs events while its
file is set, and the file is no longer set when the load is over. The load fails exactly if an error
is among the events; then it is the only one, and it has the code of the failure. The errors are
kept, whatever the level of the journal is. -/
theorem failures_are_logged_once (d : Disk) (s : Settings) (path : Path) (id : Nat)
    (j : Journal) :
    ∃ outcome told after, (file d s path id).run j = (outcome, after) ∧
      after = ((j.setFile ⟨path, id⟩).logAll told).clearFile ∧
      (∀ part, part <+: told → ((j.setFile ⟨path, id⟩).logAll part).file = some ⟨path, id⟩) ∧
      after.file = none ∧
      ((∃ failure, outcome = .error failure) ↔ ∃ e ∈ told, e.isError) ∧
      (∀ failure, outcome = .error failure → errorCodes told = [failure.code]) ∧
      (∀ p, outcome = .ok p →
        ∀ e ∈ told, e.level = .warning ∨ e.level = .info ∨ e.level = .debug) ∧
      ∃ kept, after.events.toList = j.events.toList ++ kept ∧
        errorCodes kept = errorCodes told := by
  obtain ⟨told, journal, same⟩ := logs_openedFile d s path (j.setFile ⟨path, id⟩)
  refine ⟨_, told, _, rfl, ?_, ?_, rfl, isError_iff_of_errorCodes same, ?_, ?_, ?_⟩
  · exact congrArg Journal.clearFile journal
  · intro part _
    exact Journal.logAll_file _ part
  · intro failure failed
    exact same.trans (congrArg (failureCodes LoadError.code) failed)
  · intro p loaded e inside
    have quiet : errorCodes told = [] := same.trans (congrArg (failureCodes LoadError.code) loaded)
    have other := errorCodes_eq_nil.1 quiet e inside
    cases level : e.level <;> simp [Event.isError, level] at other ⊢
  · obtain ⟨kept, events, codes⟩ := (j.setFile ⟨path, id⟩).exists_logAll_events told
    exact ⟨kept, (congrArg (fun j => j.events.toList) journal).trans events, codes⟩

end Load

end Barrage
