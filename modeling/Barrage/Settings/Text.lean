import Barrage.Journal.Collector
import Barrage.Number.Shortest
import Barrage.Settings.Reader

/-!
The text of settings: as a document that can be read again, and the logging settings in words.
Numbers with a fraction are written as the double-precision numbers that they widen to.
-/

set_option autoImplicit false

namespace Barrage

namespace Toml

/-- The text of a double-precision number: positional, with `.0` behind a whole number. The sign of
what is not a number is not written. -/
def floatText (bits : Nat) : String :=
  let text := BinaryFormat.double.text bits
  match BinaryFormat.double.decode bits with
  | .nan => "nan"
  | .infinite => text
  | .finite _ _ => if text.toList.contains '.' then text else text ++ ".0"

def naturalText? (n : Nat) : Option String := if n < integerBound then some (toString n) else none

def keyLine (key text : String) : String := key ++ " = " ++ text ++ "\n"

def sectionText (name : String) (lines : List (String × String)) : String :=
  "[" ++ name ++ "]\n" ++ String.join (lines.map fun (key, text) => keyLine key text)

end Toml

namespace Settings

def singleText (x : Float32) : String := Toml.floatText (Single.toDouble x)

def pointText (p : Float32 × Float32) : String :=
  "[\n    " ++ singleText p.1 ++ ",\n    " ++ singleText p.2 ++ ",\n]"

def fileLines (s : FileSettings) : List (String × String) := [
  ("require_pattern_extension", toString s.requireExtension),
  ("log_file_metrics", toString s.logMetrics)]

def loaderLines (s : LoaderSettings) : List (String × String) := [
  ("warn_unknown_attributes", toString s.warnUnknownAttributes),
  ("log_validation_details", toString s.logValidationDetails)]

def loggingLines (s : LoggingSettings) : List (String × String) := [
  ("use_structured_logging", toString s.structured),
  ("enable_console_logging", toString s.console),
  ("min_log_level", "\"" ++ s.minLevel.key ++ "\""),
  ("enable_cargo_style_output", toString s.reportByFile),
  ("include_file_context", toString s.includeFile)]

/-- The lines of the simulation settings; a seed that is not chosen has none. -/
def simulationLines? (s : SimulationSettings Float32) : Option (List (String × String)) := do
  let seed ← match s.seed? with
    | some seed => do some [("seed", ← Toml.naturalText? seed.toNat)]
    | none => some []
  let maxEntities ← Toml.naturalText? s.maxEntities
  some (("ticks", toString s.ticks) :: seed ++ [
    ("rank", singleText s.rank),
    ("target", pointText s.target),
    ("origin", pointText s.origin),
    ("max_entities", maxEntities)])

def text (s : Settings) : Except SettingsError String :=
  match simulationLines? s.simulation with
  | some lines => .ok ("\n".intercalate [
      Toml.sectionText "file_processor" (fileLines s.files),
      Toml.sectionText "loader" (loaderLines s.loader),
      Toml.sectionText "logging" (loggingLines s.logging),
      Toml.sectionText "simulation" lines])
  | none => .error .outOfRange

end Settings

def LoggingSettings.summary (s : LoggingSettings) : String :=
  s!"Logging Configuration:\n- Max events per file: {Collector.eventLimit}\n"
    ++ s!"- Max message length: {Event.messageLimit}\n- Min log level: {s.minLevel.title}\n"
    ++ s!"- Structured logging: {s.structured}\n- Console logging: {s.console}\n"
    ++ s!"- Cargo-style output: {s.reportByFile}\n- Include file context: {s.includeFile}"

end Barrage
