import Barrage.Number.Single
import Barrage.Settings.Basic

/-!
Defaults from the environment. A variable that is not set, or whose value cannot be read, leaves the
standard default.
-/

set_option autoImplicit false

namespace Barrage

abbrev Environment := String → Option String

namespace Environment

def empty : Environment := fun _ => none

def ofList (pairs : List (String × String)) : Environment := fun name => pairs.lookup name

def get {α : Type} (env : Environment) (read? : String → Option α) (name : String) (default : α) :
    α :=
  ((env name).bind read?).getD default

def readBool? : String → Option Bool
  | "true" => some true
  | "false" => some false
  | _ => none

def readNat? (limit : Nat) (s : String) : Option Nat := Text.readNat? 10 limit s.toList

def readSeed? (s : String) : Option UInt64 := (readNat? UInt64.size s).map UInt64.ofNat

def readSingle? (s : String) : Option Float32 := Single.read? s.toList

end Environment

/-! The names of the variables. -/

namespace Variable

def requireExtension : String := "BML_REQUIRE_PATTERN_EXTENSION"
def logMetrics : String := "BML_LOG_FILE_METRICS"
def warnUnknownAttributes : String := "BML_LOADER_WARN_UNKNOWN_ATTRIBUTES"
def logValidationDetails : String := "BML_LOADER_LOG_VALIDATION_DETAILS"
def structured : String := "BML_LOGGING_USE_STRUCTURED"
def console : String := "BML_LOGGING_ENABLE_CONSOLE"
def minLevel : String := "BML_LOGGING_MIN_LEVEL"
def reportByFile : String := "BML_LOGGING_CARGO_STYLE"
def includeFile : String := "BML_LOGGING_INCLUDE_FILE_CONTEXT"
def ticks : String := "BML_SIMULATION_TICKS"
def seed : String := "BML_SIMULATION_SEED"
def rank : String := "BML_SIMULATION_RANK"
def maxEntities : String := "BML_SIMULATION_MAX_ENTITIES"

def all : List String := [
  requireExtension, logMetrics, warnUnknownAttributes, logValidationDetails, structured, console,
  minLevel, reportByFile, includeFile, ticks, seed, rank, maxEntities]

end Variable

def Settings.ofEnvironment (env : Environment) : Settings where
  files :=
    let d : FileSettings := {}
    { requireExtension :=
        env.get Environment.readBool? Variable.requireExtension d.requireExtension
      logMetrics := env.get Environment.readBool? Variable.logMetrics d.logMetrics }
  loader :=
    let d : LoaderSettings := {}
    { warnUnknownAttributes :=
        env.get Environment.readBool? Variable.warnUnknownAttributes d.warnUnknownAttributes
      logValidationDetails :=
        env.get Environment.readBool? Variable.logValidationDetails d.logValidationDetails }
  logging :=
    let d : LoggingSettings := {}
    { structured := env.get Environment.readBool? Variable.structured d.structured
      console := env.get Environment.readBool? Variable.console d.console
      minLevel := env.get Level.read? Variable.minLevel d.minLevel
      reportByFile := env.get Environment.readBool? Variable.reportByFile d.reportByFile
      includeFile := env.get Environment.readBool? Variable.includeFile d.includeFile }
  simulation :=
    let d := SimulationSettings.standard
    { d with
      ticks := env.get (Environment.readNat? UInt32.size) Variable.ticks d.ticks
      seed? := (env Variable.seed).bind Environment.readSeed?
      rank := env.get Environment.readSingle? Variable.rank d.rank
      maxEntities := env.get (Environment.readNat? UInt64.size) Variable.maxEntities d.maxEntities }

end Barrage
