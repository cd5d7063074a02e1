import Barrage.Journal.Code
import Barrage.Source.Position

/-!
Events: what the library reports while it works. An event has a level, a code, a message of bounded
length, the span that it is about if there is one, and named details in the order of their names.
-/

set_option autoImplicit false

namespace Barrage

inductive Level where
  | error
  | warning
  | info
  | debug
  deriving DecidableEq, Repr

namespace Level

def rank : Level → Nat
  | .error => 0
  | .warning => 1
  | .info => 2
  | .debug => 3

def name : Level → String
  | .error => "ERROR"
  | .warning => "WARN"
  | .info => "INFO"
  | .debug => "DEBUG"

def key : Level → String
  | .error => "error"
  | .warning => "warning"
  | .info => "info"
  | .debug => "debug"

def title : Level → String
  | .error => "Error"
  | .warning => "Warning"
  | .info => "Info"
  | .debug => "Debug"

def all : List Level := [.error, .warning, .info, .debug]

def ofKey? (s : String) : Option Level := all.find? fun l => l.key = s

/-- Reads a level from the environment: its name in any case, a short name, or its rank. -/
def read? (s : String) : Option Level :=
  match Text.lowerAscii s with
  | "error" | "0" => some .error
  | "warning" | "warn" | "1" => some .warning
  | "info" | "2" => some .info
  | "debug" | "3" => some .debug
  | _ => none

def keeps (minimum level : Level) : Bool := level.rank ≤ minimum.rank

end Level

abbrev Details := List (String × String)

def Details.insert (key value : String) : Details → Details
  | [] => [(key, value)]
  | (k, v) :: rest =>
    if key < k then (key, value) :: (k, v) :: rest
    else if key = k then (key, value) :: rest
    else (k, v) :: Details.insert key value rest

def Details.ofList (pairs : List (String × String)) : Details :=
  pairs.foldl (fun d (k, v) => Details.insert k v d) []

structure Event where
  level : Level
  code : Code
  message : String
  span : Option Span := none
  details : Details := []
  deriving DecidableEq, Repr

namespace Event

def messageLimit : Nat := 10000

def takeBytes (limit : Nat) : List Char → List Char
  | [] => []
  | c :: cs => if c.utf8Size ≤ limit then c :: takeBytes (limit - c.utf8Size) cs else []

/-- A message within the limit stays; a longer one is cut between characters and marked. -/
def clip (message : String) : String :=
  if message.utf8ByteSize > messageLimit then
    String.ofList (takeBytes messageLimit message.toList) ++ "..."
  else message

def make (level : Level) (code : Code) (message : String)
    (details : List (String × String) := []) (span : Option Span := none) : Event :=
  { level, code, message := clip message, span, details := Details.ofList details }

def withDetail (e : Event) (key value : String) : Event :=
  { e with details := e.details.insert key value }

def isError (e : Event) : Bool := e.level = .error

def isWarning (e : Event) : Bool := e.level = .warning

def line (e : Event) : String :=
  let place := match e.span with
    | some s => " at " ++ s.start.text
    | none => ""
  "[" ++ e.level.name ++ "] " ++ e.code.text ++ " - " ++ e.message ++ place

/-- The line, and below it what the registry says of the code and the details. -/
def paragraph (e : Event) : String :=
  let recoverable :=
    if e.isError then s!"\n  Recoverable: {e.code.isRecoverable}" else ""
  let description := match e.code.description? with
    | some d => "\n  Description: " ++ d
    | none => ""
  let action := match e.code.action? with
    | some a => "\n  Recommended action: " ++ a
    | none => ""
  e.line ++ "\n  Category: " ++ e.code.category ++ "\n  Severity: " ++ e.code.severity.name
    ++ recoverable ++ description ++ action
    ++ String.join (e.details.map fun (k, v) => "\n  " ++ k ++ ": " ++ v)

end Event

end Barrage
