import Barrage.Journal.Event
import Barrage.Path

/-!
Errors and warnings by file. A collector keeps a bounded number of events for each file, in the
order of the files' paths, and also remembers files that were looked at without any event. Its
report lists every error and warning under its file and ends with the counts.
-/

set_option autoImplicit false

namespace Barrage

structure FileContext where
  path : Path
  id : Nat
  deriving DecidableEq, Repr

/-- Values by path, in the order of the paths. The first spelling of a path is kept. -/
abbrev ByPath (α : Type) := List (Path × α)

namespace ByPath

variable {α : Type}

def find? (m : ByPath α) (p : Path) : Option α :=
  (List.find? (fun entry => entry.1.same p) m).map (·.2)

/-- Replaces the value at a path, which is `none` where there is no entry yet. -/
def alter (p : Path) (f : Option α → α) : ByPath α → ByPath α
  | [] => [(p, f none)]
  | (q, v) :: rest =>
    if p.same q then (q, f (some v)) :: rest
    else if p.lt q then (p, f none) :: (q, v) :: rest
    else (q, v) :: alter p f rest

def paths (m : ByPath α) : List Path := m.map (·.1)

end ByPath

structure Collector where
  events : ByPath (Array Event) := []
  files : ByPath FileContext := []

structure Summary where
  files : Nat := 0
  successful : Nat := 0
  failed : Nat := 0
  withWarnings : Nat := 0
  errors : Nat := 0
  warnings : Nat := 0
  deriving DecidableEq, Repr

namespace Collector

/-- The most events kept for one file, a last notice that there were more apart. -/
def eventLimit : Nat := 1000

def overflowNotice : Event :=
  .make .warning .warning s!"Too many events for file (limit: {eventLimit})"

/-- Adds an event within the limit; the first one beyond it is replaced by a notice. -/
def push (kept : Array Event) (e : Event) : Array Event :=
  if kept.size < eventLimit then kept.push e
  else if kept.size = eventLimit then kept.push overflowNotice
  else kept

def record (c : Collector) (p : Path) (e : Event) : Collector :=
  { c with events := c.events.alter p fun kept => push (kept.getD #[]) e }

def enter (c : Collector) (file : FileContext) : Collector :=
  { c with files := c.files.alter file.path fun _ => file }

def eventsOf (c : Collector) (p : Path) : List Event := ((c.events.find? p).getD #[]).toList

def errorsOf (c : Collector) (p : Path) : List Event := (c.eventsOf p).filter Event.isError

def warningsOf (c : Collector) (p : Path) : List Event := (c.eventsOf p).filter Event.isWarning

def hasErrors (c : Collector) (p : Path) : Bool := !(c.errorsOf p).isEmpty

def seen (c : Collector) : List Path :=
  (c.files.paths.foldl (fun m p => ByPath.alter p (fun _ => ()) m)
    (c.events.map fun (p, _) => (p, ()))).paths

/-- A file without errors is successful, whether it has warnings or not. -/
def Summary.addFile (s : Summary) (errors warnings : Nat) : Summary :=
  { files := s.files + 1
    errors := s.errors + errors
    warnings := s.warnings + warnings
    failed := s.failed + if errors > 0 then 1 else 0
    successful := s.successful + if errors > 0 then 0 else 1
    withWarnings := s.withWarnings + if errors = 0 ∧ warnings > 0 then 1 else 0 }

def summary (c : Collector) : Summary :=
  c.seen.foldl
    (fun s p => Summary.addFile s (c.errorsOf p).length (c.warningsOf p).length) {}

def placeLine (p : Path) (e : Event) : String :=
  match e.span with
  | some s => "\n  --> " ++ p.text ++ ":" ++ s.start.text
  | none => ""

/-- An error or warning with its details; errors come with what to do. The file is not repeated. -/
def eventLines (p : Path) (e : Event) : String :=
  let kind := if e.isError then "error" else "warning"
  let details := e.details.filter fun (k, _) => k ≠ "file" ∧ k ≠ "file_id"
  let help := match e.code.action? with
    | some action => if e.isError then "  = help: " ++ action ++ "\n" else ""
    | none => ""
  kind ++ "[" ++ e.code.text ++ "]: " ++ e.message ++ placeLine p e ++ "\n"
    ++ String.join (details.map fun (k, v) => "  = " ++ k ++ ": " ++ v ++ "\n") ++ help

def fileReport (p : Path) (events : Array Event) : String :=
  let shown := events.toList.filter fun e => e.isError || e.isWarning
  if shown.isEmpty then ""
  else "Checking " ++ p.text ++ "...\n" ++ String.join (shown.map (eventLines p)) ++ "\n"

def Summary.line (s : Summary) : String :=
  s!"{s.files} file(s) checked: {s.successful} ok, {s.failed} failed"
    ++ (if s.errors > 0 then s!", {s.errors} error(s)" else "")
    ++ (if s.warnings > 0 then s!", {s.warnings} warning(s)" else "") ++ "\n"

def report (c : Collector) : String :=
  String.join (c.events.map fun (p, events) => fileReport p events) ++ Summary.line c.summary

end Collector

end Barrage
