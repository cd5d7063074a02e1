import Barrage.Batch.Discovery

/-!
Loading the files of a batch: one after another, or shared out to workers. Files are numbered in the
order in which they were found, and the results keep this order however the work is shared.
-/

set_option autoImplicit false

namespace Barrage.Batch

variable {α ε : Type}

def oneByOne (load : Nat → Path → Logged (Except ε α)) (failFast : Bool) :
    (id : Nat) → List Path → Logged (List (FileOutcome α ε))
  | _, [] => pure []
  | id, p :: rest => do
    let outcome ← load id p
    match outcome with
    | .ok _ =>
      let others ← oneByOne load failFast (id + 1) rest
      pure ((p, outcome) :: others)
    | .error _ =>
      if failFast then
        note fun j => j.warn .warning "Fail-fast mode enabled, stopping batch"
        pure [(p, outcome)]
      else
        let others ← oneByOne load failFast (id + 1) rest
        pure ((p, outcome) :: others)

def pieces {β : Type} (size : Nat) (l : List β) : List (List β) :=
  if l = [] ∨ size = 0 then [] else l.take size :: pieces size (l.drop size)
termination_by l.length
decreasing_by
  have h : ¬(l = [] ∨ size = 0) := ‹_›
  have : 0 < l.length := List.length_pos_iff.2 fun e => h (.inl e)
  simp only [List.length_drop]
  omega

/-- Loads shares of the same size, beginning with the one at a place. No worker stops at a
failure. -/
def shares (load : Nat → Path → Logged (Except ε α)) (size : Nat) :
    (place : Nat) → List (List Path) → Logged (List (FileOutcome α ε))
  | _, [] => pure []
  | place, files :: rest => do
    let outcomes ← oneByOne load false (place * size) files
    let others ← shares load size (place + 1) rest
    pure (outcomes ++ others)

def shareSize (files workers : Nat) : Nat := (files + workers - 1) / workers

/-- Shares the files out to workers, of which there is at least one. -/
def sharedOut (load : Nat → Path → Logged (Except ε α)) (workers : Nat) (files : List Path) :
    Logged (List (FileOutcome α ε)) :=
  let size := shareSize files.length workers
  shares load size 0 (pieces size files)

def loadFile (d : Disk) (s : Settings) (id : Nat) (p : Path) :
    Logged (Except LoadError Pattern) := do
  let outcome ← Load.file d s p id
  let details := [("file", p.text), ("file_id", toString id)]
  match outcome with
  | .ok _ => note fun j => j.success .fileRead "File checked" details
  | .error e => note fun j => j.error e.code "File check failed" details
  pure outcome

def noteEnd (words : String) (r : BatchResults α ε) (details : List (String × String) := []) :
    Logged Unit :=
  note fun j => j.info words
    (("files", toString r.processed) :: ("failed", toString r.failed.length) :: details)

def checkInOrder (load : Nat → Path → Logged (Except ε α)) (o : BatchOptions)
    (files : List Path) : Logged (BatchResults α ε) := do
  let outcomes ← oneByOne load o.failFast 0 files
  let r := BatchResults.ofOutcomes files.length outcomes
  noteEnd "Batch check completed" r
  pure r

def checkShared (load : Nat → Path → Logged (Except ε α)) (o : BatchOptions)
    (files : List Path) : Logged (BatchResults α ε) := do
  if files.isEmpty then pure {}
  else
    let workers := max o.maxWorkers 1
    let outcomes ← sharedOut load workers files
    let r := BatchResults.ofOutcomes files.length outcomes
    noteEnd "Parallel batch check completed" r [("threads", toString workers)]
    pure r

def check (d : Disk) (s : Settings) (o : BatchOptions) (sequential : Bool) (ps : List Path) :
    Logged (Except BatchError (BatchResults Pattern LoadError)) := do
  match ← discover d o ps with
  | .error e => pure (.error e)
  | .ok files =>
    let r ← if sequential then checkInOrder (loadFile d s) o files
      else checkShared (loadFile d s) o files
    pure (.ok r)

end Barrage.Batch
