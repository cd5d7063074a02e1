import Barrage.Batch.Check
import Barrage.CommandLine.Command
import Barrage.Json
import Barrage.Journal.Structured
import Barrage.Pattern.Json
import Barrage.Settings.Environment
import Barrage.Settings.Text
import Barrage.Simulation

/-!
Carrying out a command line. What the program prints and whether it succeeds follow from its words,
the environment, the files, and a seed for when none is chosen.
-/

set_option autoImplicit false

namespace Barrage.CommandLine

structure Outcome where
  exitCode : Nat
  output : String := ""
  errors : String := ""
  log : List String := []

/-- The text of a command that was carried out, and whether it found nothing wrong. -/
structure Answer where
  text : String
  success : Bool := true

def loadedLine (path : Path) (p : Pattern) : String :=
  "  ✓ " ++ path.text ++ s!" ({p.tree.size} nodes, {p.entryPoints.length} entry points)\n"

def failedLine (path : Path) (e : LoadError) : String :=
  "  ✗ " ++ path.text ++ ": [" ++ e.code.text ++ "] " ++ e.message ++ "\n"

/-- Checks files. The errors and warnings of each file are listed if one of them failed. -/
def check (d : Disk) (s : Settings) (paths : List Path) (sequential : Bool) (o : BatchOptions) :
    Logged (Except String Answer) := do
  match ← Batch.check d s o sequential paths with
  | .error e => pure (.error e.message)
  | .ok r =>
    let j ← get
    let report := if s.logging.reportByFile && !r.isSuccess then j.collector.report ++ "\n" else ""
    let text := String.join (r.loaded.map fun (path, p) => loadedLine path p)
      ++ String.join (r.failed.map fun (path, e) => failedLine path e)
      ++ report ++ r.summary ++ "\n"
    pure (.ok { text, success := r.isSuccess })

def simulationFor (s : SimulationSettings Float32) (a : Arguments) : SimulationSettings Float32 :=
  { s with
    ticks := a.ticks?.getD s.ticks
    seed? := a.seed?.or s.seed?
    rank := a.rank?.getD s.rank
    target := a.target?.getD s.target }

def reportText (file : Path) (r : Report) : OutputForm → String
  | .text => "=== Simulation: " ++ file.text ++ " ===\n" ++ r.text ++ "\n"
  | .json => r.json.pretty ++ "\n"

def simulateFile (d : Disk) (s : Settings) (arbitrary : UInt64) (file : Path) (a : Arguments) :
    Logged (Except String Answer) := do
  match ← Load.file d s file 0 with
  | .error e => pure (.error e.message)
  | .ok p =>
    let settings := simulationFor s.simulation a
    match ← simulate settings (.ofSeed (settings.seed?.getD arbitrary)) p with
    | .error e => pure (.error e.message)
    | .ok r => pure (.ok { text := reportText file r a.output })

def dump (d : Disk) (s : Settings) (file : Path) : Logged (Except String Answer) := do
  match ← Load.file d s file 0 with
  | .error e => pure (.error e.message)
  | .ok p => pure (.ok { text := p.json.pretty ++ "\n" })

def perform (d : Disk) (s : Settings) (arbitrary : UInt64) :
    Command → Logged (Except String Answer)
  | .check paths sequential o => check d s paths sequential o
  | .run file a => simulateFile d s arbitrary file a
  | .dump file => dump d s file
  | .config => pure ((s.text.mapError SettingsError.message).map fun text => { text })

def session (d : Disk) (s : Settings) (arbitrary : UInt64) (c : Command) :
    Logged (Except String Answer) := do
  note fun j => j.info (Release.program ++ " starting") [("version", Release.version)]
  let answer ← perform d s arbitrary c
  match answer with
  | .ok _ => pure ()
  | .error message => note fun j => j.error .internalError message
  pure answer

def errorText (message : String) : String := "Error: " ++ message ++ "\n"

def logLine (s : LoggingSettings) (e : Event) : String :=
  "[" ++ String.ofList (e.level.name.toList.rightpad 5 ' ') ++ " " ++ Release.program ++ "] "
    ++ (if s.structured then e.json.compact else e.line)

def runCommand (d : Disk) (s : Settings) (arbitrary : UInt64) (c : Command) : Outcome :=
  let start : Journal := { level := s.logging.minLevel, namesFile := s.logging.includeFile }
  let (answer, j) := (session d s arbitrary c).run start
  let log := j.events.toList.map (logLine s.logging)
  match answer with
  | .ok a => { exitCode := if a.success then 0 else 1, output := a.text, log }
  | .error message => { exitCode := 1, errors := errorText message, log }

def settings (d : Disk) (env : Environment) (config? : Option Path) :
    Except SettingsError Settings :=
  match config? with
  | some path => Settings.ofFile d (.ofEnvironment env) path
  | none => .ok (.ofEnvironment env)

def run (d : Disk) (env : Environment) (arbitrary : UInt64) (words : List String) : Outcome :=
  match Invocation.read words with
  | .error (.shown text) => { exitCode := 0, output := text }
  | .error .misuse =>
    { exitCode := 2
      errors := "error: the arguments were not understood\n\n" ++ Help.usage "[OPTIONS] <COMMAND>"
        ++ "For more information, try '--help'.\n" }
  | .ok i =>
    match settings d env i.config? with
    | .error e => { exitCode := 1, errors := errorText e.message }
    | .ok s => runCommand d s arbitrary i.command

/-- The paths that a command line names; nothing else on the disk is looked at, except for what lies
in folders among them. -/
def pathsOf (words : List String) : List Path :=
  match Invocation.read words with
  | .error _ => []
  | .ok i =>
    let operands := match i.command with
      | .check paths _ _ => paths
      | .run file _ => [file]
      | .dump file => [file]
      | .config => []
    i.config?.toList ++ operands

end Barrage.CommandLine
