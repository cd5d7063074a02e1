import Barrage.Path

/-!
What a file system answers. A disk tells for every path what is there, or why nothing can be
reached; what is there may still not be read. A disk can also be made from a list of files, which
are then all there is.
-/

set_option autoImplicit false

namespace Barrage

inductive DiskError where
  | notFound
  | permissionDenied
  /-- A step of the path goes through something that is not a folder. -/
  | notFolder
  | isFolder
  | nameTooLong
  | nulInName
  | other (text : String)
  deriving DecidableEq, Repr

def DiskError.text : DiskError → String
  | notFound => "No such file or directory (os error 2)"
  | permissionDenied => "Permission denied (os error 13)"
  | notFolder => "Not a directory (os error 20)"
  | isFolder => "Is a directory (os error 21)"
  | nameTooLong => "File name too long (os error 36)"
  | nulInName => "file name contained an unexpected NUL byte"
  | other text => text

inductive DiskEntry where
  /-- A regular file: its size before it is read, and what reading it gives. -/
  | regular (size : Nat) (content : Except DiskError ByteArray)
  | folder (names : List String)
  /-- Neither a regular file nor a folder, and what reading it gives. -/
  | special (content : Except DiskError ByteArray)

def DiskEntry.file (content : ByteArray) : DiskEntry := .regular content.size (.ok content)

structure Disk where
  look : Path → Except DiskError DiskEntry

namespace Disk

def readBytes (d : Disk) (p : Path) : Except DiskError ByteArray :=
  match d.look p with
  | .ok (.regular _ content) | .ok (.special content) => content
  | .ok (.folder _) => .error .isFolder
  | .error e => .error e

def readText (d : Disk) (p : Path) : Except DiskError String := do
  match String.fromUTF8? (← d.readBytes p) with
  | some text => .ok text
  | none => .error (.other "stream did not contain valid UTF-8")

/-- A file with its content, or a folder, at a place given by names from the working folder on. -/
structure Placed where
  place : List String
  content? : Option ByteArray

def maxName : Nat := 255

def maxPath : Nat := 4095

def namesAt (all : List Placed) (place : List String) : List String :=
  (all.filterMap fun e =>
    if place.isPrefixOf e.place then (e.place.drop place.length).head? else none).eraseDups

/-- What is at a place. Every place above a file or folder is a folder. -/
def entryAt? (all : List Placed) (place : List String) : Option DiskEntry :=
  match (all.find? fun e => e.place = place).bind (·.content?) with
  | some content => some (.file content)
  | none =>
    if place.isEmpty || all.any fun e => place.isPrefixOf e.place then
      some (.folder (namesAt all place))
    else none

def follow (all : List Placed) (place : List String) :
    List String → Except DiskError DiskEntry
  | [] =>
    match entryAt? all place with
    | some e => .ok e
    | none => .error .notFound
  | step :: rest =>
    match entryAt? all place with
    | none => .error .notFound
    | some (.regular ..) | some (.special _) => .error .notFolder
    | some (.folder _) =>
      if step.isEmpty || step = "." then follow all place rest
      else if step = ".." then follow all place.dropLast rest
      else if step.utf8ByteSize > maxName then .error .nameTooLong
      else follow all (place ++ [step]) rest

def steps (p : Path) : List String := (Text.splitOnChar '/' p.text.toList).map String.ofList

/-- The disk on which some files and folders lie in the working folder, and nothing else. -/
def ofFiles (files : List (Path × Option ByteArray)) : Disk :=
  let all := files.map fun (p, content?) =>
    (⟨(steps p).filter fun step => !step.isEmpty && step ≠ ".", content?⟩ : Placed)
  { look := fun p =>
      if p.text.isEmpty || p.text.toList.head? = some '/' then .error .notFound
      else if p.text.toList.contains '\x00' then .error .nulInName
      else if p.text.utf8ByteSize > maxPath then .error .nameTooLong
      else follow all [] (steps p) }

end Disk

end Barrage
