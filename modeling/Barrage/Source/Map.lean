import Barrage.Source.Position

/-!
The lines of a source text, and the snippet that shows a reader where a message applies: the line
that holds the start of the span, underlined from the span's first column.
-/

set_option autoImplicit false

namespace Barrage

structure SourceMap where
  /-- The lines without their line feeds; there is at least one. -/
  lines : Array (List Char)

namespace SourceMap

def ofSource (source : String) : SourceMap :=
  ⟨(Text.splitOnChar '\n' source.toList).toArray⟩

/-- A line by its number, counted from one, without carriage returns at its end. -/
def line? (m : SourceMap) (number : Nat) : Option (List Char) :=
  if number = 0 then none
  else m.lines[number - 1]?.map fun cs => (cs.reverse.dropWhile (· = '\r')).reverse

/-- The number of carets: up to the end column on one line, up to the line's end otherwise. A start
column more than one past the end of the line has no width. -/
def underline? (span : Span) (line : List Char) : Option Nat :=
  let column : Nat := span.start.column
  if span.start.line = span.stop.line then some (span.stop.column - column)
  else if column ≤ line.length + 1 then some (line.length + 1 - column)
  else none

def spaces (n : Nat) : String := String.ofList (List.replicate n ' ')

/-- The message, the place and, if the source has the line, the line with carets below the span.
There is always at least one caret. -/
def render? (m : SourceMap) (span : Span) (message : String) : Option String :=
  let head := s!"error: {message}\n  --> {span.start.text}\n"
  match m.line? span.start.line with
  | none => some head
  | some line => do
    let width ← underline? span line
    let gutter := toString span.start.line
    let pad := spaces gutter.length
    let carets := String.ofList (List.replicate (max width 1) '^')
    some (head ++ s!"{pad} |\n{gutter} | {String.ofList line}\n"
      ++ s!"{pad} | {spaces (span.start.column.toNat - 1)}{carets}\n")

end SourceMap

end Barrage
