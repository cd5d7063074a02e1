import Barrage.Batch.Basic

/-!
Finding the files of a batch. A file that is named is taken as it is; a folder gives the pattern
files in it, in the order of their paths.
-/

set_option autoImplicit false

namespace Barrage

namespace Path

def isPatternFile (p : Path) : Bool := isPatternExtension (p.extension?.map Text.lowerAscii)

def sorted (ps : List Path) : List Path := ps.mergeSort fun p q => !q.lt p

end Path

namespace Batch

/-- The pattern files in a folder with the given names. `depth` is how many folders may lie inside
each other. -/
def filesIn (d : Disk) (recursive : Bool) (depth : Nat) (folder : Path) (names : List String) :
    List Path :=
  names.flatMap fun name =>
    let p := folder.join name
    match d.look p with
    | .ok (.folder inner) =>
      match depth with
      | 0 => []
      | depth + 1 => if recursive then filesIn d recursive depth p inner else []
    | _ => if p.isPatternFile then [p] else []

/-- The files that one path stands for. Each folder adds a name to the path, so there are never more
folders inside each other than a path has bytes. -/
def filesAt (d : Disk) (recursive : Bool) (p : Path) : Except BatchError (List Path) :=
  match d.look p with
  | .ok (.regular ..) => .ok [p]
  | .ok (.folder names) =>
    let found := filesIn d recursive Disk.maxPath p names
    if found.isEmpty then .error (.noFilesFound p) else .ok (Path.sorted found)
  | .ok (.special _) | .error _ => .error (.pathNotFound p)

def filesAtAll (d : Disk) (recursive : Bool) (ps : List Path) : Except BatchError (List Path) := do
  let found ← ps.mapM (filesAt d recursive)
  pure found.flatten

def limited (maxFiles? : Option Nat) (files : List Path) : Logged (List Path) :=
  match maxFiles? with
  | none => pure files
  | some limit => do
    if files.length > limit then
      note fun j => j.warn .warning "Reached maximum file limit"
        [("files_found", toString files.length), ("limit", toString limit)]
    pure (files.take limit)

def discover (d : Disk) (o : BatchOptions) (ps : List Path) :
    Logged (Except BatchError (List Path)) :=
  match filesAtAll d o.recursive ps with
  | .error e => pure (.error e)
  | .ok files => do
    let files ← limited o.maxFiles? files
    pure (.ok files)

end Batch

end Barrage
