import Barrage.Files.Disk
import Barrage.Journal.Basic
import Barrage.Settings.Basic

/-!
Reading pattern files. A file is looked at before it is read: it has to exist, to be a regular file
with an acceptable extension, and to be neither empty nor too large. Then it is read, which may fail
as well, and its content has to be UTF-8.
-/

set_option autoImplicit false

namespace Barrage

inductive FileError where
  | notFound (path : String)
  | invalidExtension (extension? : Option String)
  | tooLarge (size : Nat)
  | empty
  | permissionDenied (path : String)
  | invalidEncoding (path : String)
  | inputOutput (text : String)
  deriving DecidableEq, Repr

namespace Limit

def file : Nat := 4 * 1024 * 1024

def largeFile : Nat := 256 * 1024

end Limit

/-- The extensions of pattern files, in lower case. -/
def patternExtensions : List String := ["xml", "bulletml"]

namespace FileError

def quoteChar (c : Char) : String :=
  match c with
  | '"' => "\\\""
  | '\\' => "\\\\"
  | '\n' => "\\n"
  | '\r' => "\\r"
  | '\t' => "\\t"
  | '\x00' => "\\0"
  | _ =>
    if c.toNat < 32 ∨ (127 ≤ c.toNat ∧ c.toNat < 160) then
      "\\u\x7b" ++ String.ofList (Nat.toDigits 16 c.toNat) ++ "\x7d"
    else c.toString

def quoted (s : String) : String := "\"" ++ String.join (s.toList.map quoteChar) ++ "\""

def extensionText : Option String → String
  | some extension => "Some(" ++ quoted extension ++ ")"
  | none => "None"

def code : FileError → Code
  | notFound _ => .fileNotFound
  | invalidExtension _ => .invalidExtension
  | tooLarge _ => .fileTooLarge
  | empty => .emptyFile
  | permissionDenied _ => .permissionDenied
  | invalidEncoding _ => .invalidEncoding
  | inputOutput _ => .inputOutput

def message : FileError → String
  | notFound path => "File not found: " ++ path
  | invalidExtension extension? =>
    "Invalid file extension: expected .xml or .bulletml, found " ++ extensionText extension?
  | tooLarge size => s!"File too large: {size} bytes (max: {Limit.file})"
  | empty => "File is empty"
  | permissionDenied path => "Permission denied: " ++ path
  | invalidEncoding path => "Invalid UTF-8 encoding in file: " ++ path
  | inputOutput text => "I/O error reading file: " ++ text

def halts (e : FileError) : Bool := e.code.halts

def ofDisk (p : Path) : DiskError → FileError
  | .notFound => .notFound p.text
  | .permissionDenied => .permissionDenied p.text
  | e => .inputOutput (p.text ++ ": " ++ e.text)

end FileError

structure SourceFile where
  path : Path
  source : String
  /-- In bytes. -/
  size : Nat
  /-- In lower case. -/
  extension? : Option String
  lines : Nat

def hundredths (num den : Nat) : String :=
  let scaled := num * 100
  let low := scaled / den
  let twice := 2 * (scaled % den)
  let q := if twice > den ∨ (twice = den ∧ low % 2 = 1) then low + 1 else low
  let rest := q % 100
  toString (q / 100) ++ "." ++ (if rest < 10 then "0" else "") ++ toString rest

/-- A number of bytes in the largest unit that it fills, up to gigabytes. -/
def sizeText (size : Nat) : String :=
  let kilo := 1024
  let mega := 1024 * kilo
  let giga := 1024 * mega
  if size < kilo then s!"{size} B"
  else if size < mega then hundredths size kilo ++ " KB"
  else if size < giga then hundredths size mega ++ " MB"
  else hundredths size giga ++ " GB"

/-- Line feeds end lines; what follows the last one is a line if it is not empty. -/
def lineCount (cs : List Char) : Nat :=
  cs.count '\n' + if cs.getLast?.getD '\n' = '\n' then 0 else 1

def isPatternExtension (extension? : Option String) : Bool :=
  match extension? with
  | some extension => patternExtensions.contains extension
  | none => false

namespace SourceFile

def isLarge (f : SourceFile) : Bool := f.size > Limit.largeFile

def isPattern (f : SourceFile) : Bool := isPatternExtension f.extension?

/-- What can be said against a file before it is read, with the words for the journal. -/
def refusal? (s : FileSettings) (size : Nat) (extension? : Option String) :
    Option (FileError × String × List (String × String)) :=
  if s.requireExtension && !isPatternExtension extension? then
    some (.invalidExtension extension?, "File does not have a pattern extension",
      [("extension", extension?.getD "none")])
  else if size > Limit.file then
    some (.tooLarge size, "File exceeds maximum size",
      [("size", toString size), ("max_size", toString Limit.file)])
  else if size = 0 then some (.empty, "File is empty", [])
  else none

def fail {α : Type} (p : Path) (e : FileError) (words : String)
    (details : List (String × String) := []) : Logged (Except FileError α) := do
  note fun j => j.error e.code words (("file", p.text) :: details)
  pure (.error e)

def report (s : FileSettings) (f : SourceFile) : Logged Unit :=
  note fun j => j.success .fileRead "File processed successfully" (("file", f.path.text) ::
    if s.logMetrics then
      [("size", sizeText f.size), ("lines", toString f.lines), ("large_file", toString f.isLarge)]
    else [])

def ofContent (s : FileSettings) (p : Path) (size : Nat) (content : ByteArray)
    (extension? : Option String) : Logged (Except FileError SourceFile) :=
  match String.fromUTF8? content with
  | none => fail p (.invalidEncoding p.text) "File is not valid UTF-8"
  | some source => do
    let f : SourceFile :=
      { path := p, source, size, extension?, lines := lineCount source.toList }
    report s f
    pure (.ok f)

/-- A file that was looked at: the file with its text, unless something can be said against it. -/
def ofRegular (s : FileSettings) (p : Path) (size : Nat) (content : Except DiskError ByteArray) :
    Logged (Except FileError SourceFile) :=
  let extension? := p.extension?.map Text.lowerAscii
  match refusal? s size extension? with
  | some (e, words, details) => fail p e words details
  | none =>
    match content with
    | .error e => fail p (.ofDisk p e) "Failed to read file"
    | .ok content => ofContent s p size content extension?

def read (d : Disk) (s : FileSettings) (p : Path) : Logged (Except FileError SourceFile) := do
  note fun j => j.debug "Starting file processing" fun _ => [("file", p.text)]
  match d.look p with
  | .error e => fail p (.ofDisk p e) "Cannot access file"
  | .ok (.regular size content) => ofRegular s p size content
  | .ok _ => fail p (.inputOutput (p.text ++ " is not a regular file")) "Path is not a file"

end SourceFile

end Barrage
