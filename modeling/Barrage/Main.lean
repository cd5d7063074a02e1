import Barrage.CommandLine.Run
import Std.Data.HashMap

/-!
The program. It gathers what a run depends on, which is the words of the command line, the
environment, the files that are named, and a seed; the rest is decided without the outside world.
-/

set_option autoImplicit false

namespace Barrage.Program

abbrev Found := Std.HashMap String (Except DiskError DiskEntry)

def ofSystemError : IO.Error → DiskError
  | .noFileOrDirectory .. => .notFound
  | .permissionDenied .. => .permissionDenied
  | .inappropriateType .. => .notFolder
  | e => .other (toString e)

def answer {α : Type} (act : IO α) : IO (Except DiskError α) := do
  try return .ok (← act) catch e => return .error (ofSystemError e)

/-- What is at a path. The content of a file is only read if it is wanted. -/
def look (wanted : Bool) (p : Path) : IO (Except DiskError DiskEntry) :=
  answer do
    let place ← IO.FS.realPath p.text
    let found ← place.metadata
    let content := if wanted then answer (IO.FS.readBinFile place) else pure (.ok .empty)
    match found.type with
    | .dir =>
      let entries ← place.readDir
      return .folder (entries.toList.map (·.fileName))
    | .file => return .regular found.byteSize.toNat (← content)
    | _ => return .special (← content)

/-- Adds what is at a path, and what lies in it if it is a folder. -/
partial def gather (found : Found) (wanted : Bool) (p : Path) : IO Found := do
  let entry ← look wanted p
  let found := found.insert p.text entry
  match entry with
  | .ok (.folder names) =>
    names.foldlM (fun found name =>
      let inner := p.join name
      gather found inner.isPatternFile inner) found
  | _ => return found

def environment : IO Environment := do
  let pairs ← Variable.all.filterMapM fun name => do
    let value? ← IO.getEnv name
    return value?.map fun value => (name, value)
  return .ofList pairs

def arbitrarySeed : IO UInt64 := do
  let bytes ← IO.getRandomBytes 8
  return bytes.foldl (fun seed byte => seed * 256 + byte.toUInt64) 0

end Barrage.Program

open Barrage in
def main (words : List String) : IO UInt32 := do
  let found ← (CommandLine.pathsOf words).foldlM (fun found p => Program.gather found true p) {}
  let disk : Disk := { look := fun p => (found[p.text]?).getD (.error .notFound) }
  let o := CommandLine.run disk (← Program.environment) (← Program.arbitrarySeed) words
  for line in o.log do
    IO.eprintln line
  IO.print o.output
  IO.eprint o.errors
  return UInt32.ofNat o.exitCode
