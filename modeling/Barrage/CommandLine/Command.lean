import Barrage.CommandLine.Arguments
import Barrage.Release

/-!
The commands of the program, how they are called, and the help for them.
-/

set_option autoImplicit false

namespace Barrage.CommandLine

inductive Command where
  /-- Loads pattern files and tells which ones are well formed. -/
  | check (paths : List Path) (sequential : Bool) (options : BatchOptions)
  | run (file : Path) (choices : Arguments)
  | dump (file : Path)
  | config

structure Invocation where
  config? : Option Path
  command : Command

inductive Ending where
  | shown (text : String)
  | misuse

structure Form where
  name : String
  about : String
  operand? : Option String
  several : Bool
  choices : List Choice
  command? : Arguments → Option Command

namespace Form

def onFile (name about : String) (choices : List Choice) (command : Path → Arguments → Command) :
    Form where
  name
  about
  operand? := some "FILE"
  several := false
  choices
  command? a := a.paths.head?.map fun file => command file a

def all : List Form := [
  { name := "check"
    about := "Load and validate pattern files or directories"
    operand? := some "PATHS"
    several := true
    choices := Choice.ofCheck
    command? := fun a => if a.paths.isEmpty then none
      else some (.check a.paths a.sequential a.batch) },
  onFile "run" "Simulate a pattern from a fixed emitter" Choice.ofRun .run,
  onFile "dump" "Print the compiled pattern tree as JSON" [] fun file _ => .dump file,
  { name := "config"
    about := "Print the effective configuration as TOML"
    operand? := none
    several := false
    choices := []
    command? := fun _ => some .config }]

end Form

namespace Help

def table (rows : List (String × String)) : String :=
  let width := (rows.map fun (left, _) => left.length).foldl max 0
  String.join (rows.map fun (left, right) =>
    left ++ String.ofList (List.replicate (width + 2 - left.length) ' ') ++ right ++ "\n")

def choiceRow (c : Choice) : String × String :=
  let value := match c.value? with
    | some value => " <" ++ value ++ ">"
    | none => ""
  ("      --" ++ c.name ++ value, c.help)

def helpRow : String × String := ("  -h, --help", "Print help")

def aboutHelp : String := "Print this message or the help of the given subcommand(s)"

def usage (words : String) : String := "Usage: " ++ Release.program ++ " " ++ words ++ "\n\n"

def program : String :=
  "BulletML pattern checker and simulator\n\n" ++ usage "[OPTIONS] <COMMAND>" ++ "Commands:\n"
    ++ table (Form.all.map (fun f => ("  " ++ f.name, f.about)) ++ [("  help", aboutHelp)])
    ++ "\nOptions:\n"
    ++ table [choiceRow Choice.config, helpRow, ("  -V, --version", "Print version")]

def ofForm (f : Form) : String :=
  let (words, operands) := match f.operand? with
    | some name =>
      (" <" ++ name ++ ">" ++ (if f.several then "..." else ""),
        "Arguments:\n" ++ table [("  <" ++ name ++ ">" ++ (if f.several then "..." else ""), "")]
          ++ "\n")
    | none => ("", "")
  f.about ++ "\n\n" ++ usage (f.name ++ " [OPTIONS]" ++ words) ++ operands ++ "Options:\n"
    ++ table ((Choice.config :: f.choices).map choiceRow ++ [helpRow])

def ofHelp : String :=
  aboutHelp ++ "\n\n" ++ usage "help [COMMAND]..." ++ "Arguments:\n"
    ++ table [("  [COMMAND]...", "Print help for the subcommand(s)")]

def ending : List String → Ending
  | [] => .shown program
  | [name] =>
    if name = "help" then .shown ofHelp
    else match Form.all.find? fun f => f.name = name with
      | some f => .shown (ofForm f)
      | none => .misuse
  | _ => .misuse

end Help

namespace Form

def addOperand (f : Form) (p : Progress) (text : String) : Option Progress := do
  let path ← Choice.path? text
  if f.operand?.isNone || (!f.several && !p.arguments.paths.isEmpty) then none
  else some { p with arguments.paths := p.arguments.paths ++ [path] }

def readWords (f : Form) : Progress → List Word → Except Ending Arguments
  | p, [] => .ok p.arguments
  | p, .choice c value :: rest =>
    match p.choose c value with
    | some p => readWords f p rest
    | none => .error .misuse
  | p, .operand text :: rest =>
    match f.addOperand p text with
    | some p => readWords f p rest
    | none => .error .misuse
  | _, .help :: _ => .error (.shown (Help.ofForm f))
  | _, _ => .error .misuse

/-- Reads a command; a settings file that is named in it goes before one named in front of it. -/
def read (f : Form) (config? : Option Path) (words : List String) : Except Ending Invocation := do
  let words := Word.ofList (Choice.config :: f.choices) false words
  let a ← f.readWords { arguments := { config? } } words
  match f.command? a with
  | some command => .ok { config? := a.config?, command }
  | none => .error .misuse

end Form

namespace Invocation

def readWords : Progress → List Word → Except Ending Invocation
  | p, .choice c value :: rest =>
    match p.choose c value with
    | some p => readWords p rest
    | none => .error .misuse
  | p, .command name rest :: _ =>
    if name = "help" then .error (Help.ending rest)
    else match Form.all.find? fun f => f.name = name with
      | some f => f.read p.arguments.config? rest
      | none => .error .misuse
  | _, .help :: _ => .error (.shown Help.program)
  | _, .version :: _ => .error (.shown (Release.program ++ " " ++ Release.version ++ "\n"))
  | _, _ => .error .misuse

def read (words : List String) : Except Ending Invocation :=
  readWords {} (Word.ofList [Choice.config] true words)

end Invocation

end Barrage.CommandLine
