import Barrage.Journal.Event
import Barrage.Number.Single

/-!
Settings: what a user may choose. Every setting has a default, which variables of the environment
can change; a settings file then fills in what it names.
-/

set_option autoImplicit false

namespace Barrage

structure FileSettings where
  /-- Whether files need the extension of a pattern file. -/
  requireExtension : Bool := false
  /-- Whether the size and the number of lines of a file are logged. -/
  logMetrics : Bool := true
  deriving DecidableEq, Repr

structure LoaderSettings where
  /-- Whether attributes without a meaning are warned about. -/
  warnUnknownAttributes : Bool := true
  logValidationDetails : Bool := false
  deriving DecidableEq, Repr

structure LoggingSettings where
  structured : Bool := false
  console : Bool := false
  minLevel : Level := .info
  reportByFile : Bool := true
  /-- Whether events name the file that is being worked on. -/
  includeFile : Bool := true
  deriving DecidableEq, Repr

structure SimulationSettings (F : Type) where
  ticks : Nat
  seed? : Option UInt64
  rank : F
  target : F × F
  origin : F × F
  maxEntities : Nat

namespace SimulationSettings

def standard : SimulationSettings Float32 where
  ticks := 600
  seed? := none
  rank := Single.ofDecimal ⟨false, 5, -1⟩
  target := (Single.ofBits 0, Single.ofDecimal (.ofNat 200))
  origin := (Single.ofBits 0, Single.ofBits 0)
  maxEntities := 10000

end SimulationSettings

structure Settings where
  files : FileSettings := {}
  loader : LoaderSettings := {}
  logging : LoggingSettings := {}
  simulation : SimulationSettings Float32 := .standard

end Barrage
