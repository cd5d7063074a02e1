import Barrage.Batch.Basic
import Barrage.Number.Single
import Barrage.Settings.Basic

/-!
The words of a command line. Words that begin with a hyphen choose options, whose value stands
behind an equals sign or in the next word; all others are operands. Reading goes from left to right,
so that what ends it first decides.
-/

set_option autoImplicit false

namespace Barrage.CommandLine

inductive OutputForm where
  | text
  | json
  deriving DecidableEq, Repr

structure Arguments where
  config? : Option Path := none
  paths : List Path := []
  sequential : Bool := false
  batch : BatchOptions := {}
  ticks? : Option Nat := none
  seed? : Option UInt64 := none
  rank? : Option Float32 := none
  target? : Option (Float32 × Float32) := none
  output : OutputForm := .text

structure Choice where
  name : String
  value? : Option String
  help : String
  take : String → Arguments → Option Arguments

inductive Word where
  | choice (c : Choice) (value : String)
  | operand (text : String)
  | command (name : String) (rest : List String)
  | help
  | version
  | stray

namespace Word

def isOption (s : String) : Bool :=
  match s.toList with
  | '-' :: _ :: _ => true
  | _ => false

/-- The name of an option, and its value if there is one behind an equals sign. -/
def splitValue (cs : List Char) : String × Option String :=
  match Text.breakOn ['='] cs with
  | some (name, value) => (String.ofList name, some (String.ofList value))
  | none => (String.ofList cs, none)

def special (named : Bool) (name : String) (value? : Option String) : Word :=
  if value?.isSome then .stray
  else if name = "help" then .help
  else if named && name = "version" then .version
  else .stray

def ofLetter (named : Bool) (letter : Char) : Word :=
  if letter = 'h' then .help
  else if named && letter = 'V' then .version
  else .stray

/-- The roles of words. With `named`, the first operand is the name of a command. -/
def ofList (choices : List Choice) (named : Bool) : List String → List Word
  | [] => []
  | word :: rest =>
    match word.toList with
    | ['-', '-'] => if named then [.stray] else rest.map .operand
    | '-' :: '-' :: option =>
      let (name, value?) := splitValue option
      match choices.find? fun c => c.name = name with
      | none => [special named name value?]
      | some c =>
        match c.value?, value? with
        | none, none => .choice c "" :: ofList choices named rest
        | none, some _ => [.stray]
        | some _, some value => .choice c value :: ofList choices named rest
        | some _, none =>
          match rest with
          | [] => [.stray]
          | value :: rest =>
            if isOption value then [.stray] else .choice c value :: ofList choices named rest
    | '-' :: letter :: _ => [ofLetter named letter]
    | _ =>
      if named then [.command word rest] else .operand word :: ofList choices named rest

end Word

structure Progress where
  arguments : Arguments := {}
  given : List String := []

def Progress.choose (p : Progress) (c : Choice) (value : String) : Option Progress :=
  if p.given.contains c.name then none
  else (c.take value p.arguments).map fun a => { arguments := a, given := c.name :: p.given }

namespace Choice

def path? (s : String) : Option Path := if s.isEmpty then none else some ⟨s⟩

def natural? (limit : Nat) (s : String) : Option Nat := Text.readNat? 10 limit s.toList

def ticks? (s : String) : Option Nat :=
  match s.toList with
  | '-' :: digits =>
    if digits.isEmpty then none else (Text.digitsFrom? 10 0 digits).filter (· = 0)
  | cs => Text.readNat? 10 UInt32.size cs

def point? (s : String) : Option (Float32 × Float32) := do
  let (x, y) ← Text.breakOn [','] s.toList
  some (← Single.read? (Text.trim x), ← Single.read? (Text.trim y))

def outputForm? : String → Option OutputForm
  | "text" => some .text
  | "json" => some .json
  | _ => none

def valued {α : Type} (name value help : String) (read? : String → Option α)
    (put : α → Arguments → Arguments) : Choice where
  name
  value? := some value
  help
  take s a := (read? s).map (put · a)

def flag (name help : String) (put : Arguments → Arguments) : Choice where
  name
  value? := none
  help
  take _ a := some (put a)

def config : Choice :=
  valued "config" "FILE" "TOML configuration file; BML_* environment variables fill the gaps" path?
    fun p a => { a with config? := some p }

def ofCheck : List Choice := [
  flag "sequential" "Load files one after another" fun a => { a with sequential := true },
  valued "threads" "N" "Maximum worker threads" (natural? UInt64.size)
    fun n a => { a with batch.maxWorkers := n },
  flag "no-recursive" "Don't search subdirectories" fun a => { a with batch.recursive := false },
  valued "max-files" "N" "Limit the number of files loaded" (natural? UInt64.size)
    fun n a => { a with batch.maxFiles? := some n },
  flag "fail-fast" "Stop at the first failing file" fun a => { a with batch.failFast := true }]

def ofRun : List Choice := [
  valued "ticks" "TICKS" "" ticks? fun n a => { a with ticks? := some n },
  valued "seed" "SEED" "" (natural? UInt64.size)
    fun n a => { a with seed? := some (UInt64.ofNat n) },
  valued "rank" "RANK" "" (fun s => Single.read? s.toList) fun x a => { a with rank? := some x },
  valued "target" "X,Y" "Aim target as X,Y" point? fun p a => { a with target? := some p },
  valued "output" "OUTPUT" "[default: text] [possible values: text, json]" outputForm?
    fun f a => { a with output := f }]

end Choice

end Barrage.CommandLine
