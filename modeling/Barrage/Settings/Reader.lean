import Barrage.Files.Disk
import Barrage.Number.Single
import Barrage.Settings.Basic
import Barrage.Toml.Reader

/-!
Reading settings files. A file has a section for each group of settings; what it leaves out keeps
its default, and keys without a meaning are skipped.
-/

set_option autoImplicit false

namespace Barrage

open Toml (Value)

inductive SettingsError where
  | unreadable (path : Path) (reason : DiskError)
  /-- The text is no document, or a value does not fit its setting. -/
  | malformed
  | outOfRange
  deriving DecidableEq, Repr

def SettingsError.message : SettingsError → String
  | unreadable path reason =>
    "Cannot read configuration file " ++ path.text ++ ": " ++ reason.text
  | malformed => "Invalid configuration: the document does not hold settings"
  | outOfRange => "Invalid configuration: out-of-range value for u64 type"

/-- The values of a section: by key, or one after another in the order of the keys. -/
inductive Section where
  | keyed (entries : List (String × Value))
  | placed (items : List Value)

namespace Section

def ofValue? : Value → Option Section
  | .table entries => some (.keyed entries)
  | .array items => some (.placed items)
  | .datetime => some (.keyed [])
  | _ => none

def find? (s : Section) (place : Nat) (key : String) : Option Value :=
  match s with
  | keyed entries => Value.find? entries key
  | placed items => items[place]?

def get? {α : Type} (s : Section) (read? : Value → Option α) (place : Nat) (key : String)
    (default : α) : Option α :=
  match s.find? place key with
  | some v => read? v
  | none => some default

def boolean? : Value → Option Bool
  | .boolean b => some b
  | _ => none

def natural? (limit : Nat) : Value → Option Nat
  | .integer n => if 0 ≤ n ∧ n < limit then some n.toNat else none
  | _ => none

def seed? (v : Value) : Option (Option UInt64) :=
  (natural? UInt64.size v).map fun n => some (UInt64.ofNat n)

def number? : Value → Option Float32
  | .float bits => some (Single.ofDouble bits)
  | .integer n => some (Single.ofDecimal (.ofInt n))
  | _ => none

def point? : Value → Option (Float32 × Float32)
  | .array (x :: y :: _) => do some (← number? x, ← number? y)
  | _ => none

def level? : Value → Option Level
  | .string name => Level.ofKey? name
  | .table [(name, .table [])] | .table [(name, .array [])] => Level.ofKey? name
  | _ => none

end Section

def FileSettings.ofSection? (d : FileSettings) (s : Section) : Option FileSettings := do
  some {
    requireExtension := ← s.get? Section.boolean? 0 "require_pattern_extension" d.requireExtension
    logMetrics := ← s.get? Section.boolean? 1 "log_file_metrics" d.logMetrics }

def LoaderSettings.ofSection? (d : LoaderSettings) (s : Section) : Option LoaderSettings := do
  some {
    warnUnknownAttributes :=
      ← s.get? Section.boolean? 0 "warn_unknown_attributes" d.warnUnknownAttributes
    logValidationDetails :=
      ← s.get? Section.boolean? 1 "log_validation_details" d.logValidationDetails }

def LoggingSettings.ofSection? (d : LoggingSettings) (s : Section) : Option LoggingSettings := do
  some {
    structured := ← s.get? Section.boolean? 0 "use_structured_logging" d.structured
    console := ← s.get? Section.boolean? 1 "enable_console_logging" d.console
    minLevel := ← s.get? Section.level? 2 "min_log_level" d.minLevel
    reportByFile := ← s.get? Section.boolean? 3 "enable_cargo_style_output" d.reportByFile
    includeFile := ← s.get? Section.boolean? 4 "include_file_context" d.includeFile }

def SimulationSettings.ofSection? (d : SimulationSettings Float32) (s : Section) :
    Option (SimulationSettings Float32) := do
  some {
    ticks := ← s.get? (Section.natural? UInt32.size) 0 "ticks" d.ticks
    seed? := ← s.get? Section.seed? 1 "seed" d.seed?
    rank := ← s.get? Section.number? 2 "rank" d.rank
    target := ← s.get? Section.point? 3 "target" d.target
    origin := ← s.get? Section.point? 4 "origin" d.origin
    maxEntities := ← s.get? (Section.natural? UInt64.size) 5 "max_entities" d.maxEntities }

namespace Settings

def group? {α : Type} (entries : List (String × Value)) (read? : α → Section → Option α)
    (key : String) (default : α) : Option α :=
  match Value.find? entries key with
  | some v => (Section.ofValue? v).bind (read? default)
  | none => some default

def ofTable? (d : Settings) (entries : List (String × Value)) : Option Settings := do
  some {
    files := ← group? entries FileSettings.ofSection? "file_processor" d.files
    loader := ← group? entries LoaderSettings.ofSection? "loader" d.loader
    logging := ← group? entries LoggingSettings.ofSection? "logging" d.logging
    simulation := ← group? entries SimulationSettings.ofSection? "simulation" d.simulation }

def read (d : Settings) (source : String) : Except SettingsError Settings :=
  match (Toml.read? source).bind d.ofTable? with
  | some s => .ok s
  | none => .error .malformed

def ofFile (disk : Disk) (d : Settings) (path : Path) : Except SettingsError Settings :=
  match disk.readText path with
  | .ok source => d.read source
  | .error reason => .error (.unreadable path reason)

end Settings

end Barrage
