import Barrage.Journal.Event
import Barrage.Json

/-!
Events as JSON. Errors come with what the registry says of their code; a span and details are only
members where there are any.
-/

set_option autoImplicit false

namespace Barrage.Event

def metadata (e : Event) : Json :=
  .object [
    ("recoverable", .bool e.code.isRecoverable),
    ("requires_halt", .bool e.code.halts),
    ("description", .string e.code.description),
    ("recommended_action", .string e.code.action)]

def spanJson (s : Span) : Json :=
  .object [
    ("start_line", .number s.start.line),
    ("start_column", .number s.start.column),
    ("end_line", .number s.stop.line),
    ("end_column", .number s.stop.column)]

def detailsJson (details : Details) : Json :=
  .object (details.map fun (key, value) => (key, .string value))

def json (e : Event) : Json :=
  .object ([
    ("level", .string e.level.name),
    ("code", .string e.code.text),
    ("message", .string e.message),
    ("category", .string e.code.category),
    ("severity", .string e.code.severity.name)]
    ++ (if e.isError then [("error_metadata", e.metadata)] else [])
    ++ (match e.span with
      | some s => [("span", spanJson s)]
      | none => [])
    ++ if e.details.isEmpty then [] else [("context", detailsJson e.details)])

end Barrage.Event
