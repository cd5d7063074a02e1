import Barrage.Text.Basic

/-!
Places in a source text. A position counts bytes from zero, lines from one and columns from one;
only a line feed ends a line. Lines and columns have 32 bits and start again from zero. A span is a
half-open range of positions.
-/

set_option autoImplicit false

namespace Barrage

instance coeUInt32Nat : Coe UInt32 Nat := ⟨UInt32.toNat⟩

/-- A number of 32 bits is taken modulo `2 ^ 32`. -/
instance coeNatUInt32 : Coe Nat UInt32 := ⟨UInt32.ofNat⟩

structure Position where
  offset : Nat
  line : UInt32
  /-- Counted in characters. -/
  column : UInt32
  deriving DecidableEq, Repr, Inhabited

namespace Position

def start : Position := ⟨0, 1, 1⟩

def advance (p : Position) (c : Char) : Position :=
  if c = '\n' then ⟨p.offset + 1, p.line + 1, 1⟩
  else ⟨p.offset + c.utf8Size, p.line, p.column + 1⟩

def advanceAll (p : Position) (cs : List Char) : Position := cs.foldl advance p

@[simp] theorem advanceAll_nil (p : Position) : p.advanceAll [] = p := rfl

@[simp] theorem advanceAll_cons (p : Position) (c : Char) (cs : List Char) :
    p.advanceAll (c :: cs) = (p.advance c).advanceAll cs := rfl

theorem advanceAll_append (p : Position) (as bs : List Char) :
    p.advanceAll (as ++ bs) = (p.advanceAll as).advanceAll bs := by
  simp [advanceAll, List.foldl_append]

theorem advance_offset (p : Position) (c : Char) :
    (p.advance c).offset = p.offset + c.utf8Size := by
  unfold advance
  split
  · next h => subst h; rfl
  · rfl

theorem advanceAll_offset (p : Position) (cs : List Char) :
    (p.advanceAll cs).offset = p.offset + Text.byteLength cs := by
  induction cs generalizing p with
  | nil => simp
  | cons c cs ih => simp [ih, advance_offset, Nat.add_assoc]

def text (p : Position) : String := s!"{p.line}:{p.column}"

end Position

structure Span where
  start : Position
  stop : Position
  deriving DecidableEq, Repr, Inhabited

namespace Span

def point (p : Position) : Span := ⟨p, p⟩

def nowhere : Span := point .start

/-- The smallest span that covers both; of two equal ends the first span's is kept. -/
def merge (a b : Span) : Span :=
  { start := if a.start.offset ≤ b.start.offset then a.start else b.start
    stop := if a.stop.offset ≥ b.stop.offset then a.stop else b.stop }

def length (s : Span) : Nat := s.stop.offset - s.start.offset

def isEmpty (s : Span) : Bool := s.start.offset == s.stop.offset

def cutAt? (offset : Nat) (seen : List Char) : List Char → Option (List Char × List Char)
  | [] => if offset = 0 then some (seen.reverse, []) else none
  | c :: cs =>
    if offset = 0 then some (seen.reverse, c :: cs)
    else if offset < c.utf8Size then none
    else cutAt? (offset - c.utf8Size) (c :: seen) cs

/-- The text covered by a span, or nothing if the span does not fit the source. -/
def slice (s : Span) (source : String) : String :=
  match cutAt? s.start.offset [] source.toList with
  | none => ""
  | some (_, rest) =>
    if s.stop.offset < s.start.offset then ""
    else match cutAt? (s.stop.offset - s.start.offset) [] rest with
      | none => ""
      | some (inside, _) => String.ofList inside

/-- Within one line the end is written as a column, else as a place. -/
def text (s : Span) : String :=
  if s.start.line = s.stop.line then s!"{s.start.line}:{s.start.column}-{s.stop.column}"
  else s!"{s.start.text}-{s.stop.text}"

end Span

structure Spanned (α : Type) where
  value : α
  span : Span
  deriving DecidableEq, Repr, Inhabited

def Spanned.map {α β : Type} (f : α → β) (x : Spanned α) : Spanned β := ⟨f x.value, x.span⟩

end Barrage
