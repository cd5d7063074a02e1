import Barrage.Journal.Collector

/-!
The journal: the events kept so far, the errors and warnings collected by file, and the file that is
being worked on. Everything that is logged while a file is set carries the file's path and number;
errors and warnings are also collected under it.
-/

set_option autoImplicit false

namespace Barrage

structure Journal where
  level : Level := .info
  /-- Whether events name the file that is being worked on. -/
  namesFile : Bool := true
  events : Array Event := #[]
  collector : Collector := {}
  file : Option FileContext := none

abbrev Logged := StateM Journal

namespace Journal

def append (j : Journal) (e : Event) : Journal := { j with events := j.events.push e }

def keep (j : Journal) (e : Event) : Journal :=
  if j.level.keeps e.level then j.append e else j

def attachFile (j : Journal) (e : Event) : Event :=
  match j.file with
  | some f =>
    if j.namesFile then (e.withDetail "file" f.path.text).withDetail "file_id" (toString f.id)
    else e
  | none => e

def isCollected (e : Event) : Bool := e.isError || e.isWarning

def log (j : Journal) (e : Event) : Journal :=
  let e := j.attachFile e
  let j := match j.file with
    | some f => if isCollected e then { j with collector := j.collector.record f.path e } else j
    | none => j
  j.keep e

def error (j : Journal) (code : Code) (message : String)
    (details : List (String × String) := []) (span : Option Span := none) : Journal :=
  j.log (.make .error code message details span)

def warn (j : Journal) (code : Code) (message : String)
    (details : List (String × String) := []) (span : Option Span := none) : Journal :=
  j.log (.make .warning code message details span)

def success (j : Journal) (code : Code) (message : String)
    (details : List (String × String) := []) : Journal :=
  j.log (.make .info code message details)

def info (j : Journal) (message : String) (details : List (String × String) := []) : Journal :=
  j.log (.make .info .info message details)

def debug (j : Journal) (message : String)
    (details : Unit → List (String × String) := fun _ => []) : Journal :=
  if j.level.keeps .debug then j.log (.make .debug .debug message (details ())) else j

def setFile (j : Journal) (f : FileContext) : Journal :=
  { j with file := some f, collector := j.collector.enter f }

def clearFile (j : Journal) : Journal := { j with file := none }

end Journal

def note (f : Journal → Journal) : Logged Unit := modify f

/-- Runs a computation with a file set, which is cleared afterwards. -/
def withFile {α : Type} (f : FileContext) (x : Logged α) : Logged α := do
  note fun j => j.setFile f
  let a ← x
  note Journal.clearFile
  pure a

end Barrage
