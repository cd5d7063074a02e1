import Barrage.Pattern.Load

/-!
Batches of files: what is asked for, what can go wrong before the first file, and the results, which
keep the order of the files.
-/

set_option autoImplicit false

namespace Barrage

structure BatchOptions where
  recursive : Bool := true
  maxFiles? : Option Nat := none
  /-- Whether a batch that runs one file after another ends with the first failure. -/
  failFast : Bool := false
  /-- The most workers that share a batch; there is always one. -/
  maxWorkers : Nat := 8
  deriving DecidableEq, Repr

inductive BatchError where
  | pathNotFound (path : Path)
  | noFilesFound (folder : Path)
  deriving DecidableEq, Repr

def BatchError.message : BatchError → String
  | pathNotFound path => "Path not found: " ++ path.text
  | noFilesFound folder => "No pattern files found under " ++ folder.text

abbrev FileOutcome (α ε : Type) := Path × Except ε α

/-- The results of a batch: loaded and failed files, each in the order in which they were found. -/
structure BatchResults (α ε : Type) where
  discovered : Nat := 0
  loaded : List (Path × α) := []
  failed : List (Path × ε) := []

namespace BatchResults

variable {α ε : Type}

def record (r : BatchResults α ε) (outcome : FileOutcome α ε) : BatchResults α ε :=
  match outcome with
  | (path, .ok a) => { r with loaded := r.loaded ++ [(path, a)] }
  | (path, .error e) => { r with failed := r.failed ++ [(path, e)] }

def ofOutcomes (discovered : Nat) (outcomes : List (FileOutcome α ε)) : BatchResults α ε :=
  outcomes.foldl record { discovered }

def processed (r : BatchResults α ε) : Nat := r.loaded.length + r.failed.length

def isSuccess (r : BatchResults α ε) : Bool := r.failed.isEmpty

def summary (r : BatchResults α ε) : String :=
  s!"{r.processed} files checked, {r.loaded.length} loaded, {r.failed.length} failed"

end BatchResults

end Barrage
