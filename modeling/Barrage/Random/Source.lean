import Barrage.Random.Keystream

/-!
Where random numbers come from: a keystream, or a list that is handed out in turn, over and over.
-/

set_option autoImplicit false

namespace Barrage

inductive RandomSource (F : Type) where
  | keystream (g : Keystream)
  /-- The numbers that are left of this turn, and all of them. -/
  | cycle (left all : List F)

namespace RandomSource

variable {F : Type} [Scalar F]

def ofSeed (seed : UInt64) : RandomSource F := .keystream (.ofSeed seed)

def ofList (all : List F) : RandomSource F := .cycle all all

def next : RandomSource F → F × RandomSource F
  | .keystream g => let (x, g) : F × Keystream := g.next; (x, .keystream g)
  | .cycle (x :: left) all => (x, .cycle left all)
  | .cycle [] (x :: rest) => (x, .cycle rest (x :: rest))
  | .cycle [] [] => (Scalar.zero, .cycle [] [])

def take (s : RandomSource F) : Nat → List F × RandomSource F
  | 0 => ([], s)
  | n + 1 =>
    let (x, s) := s.next
    let (xs, s) := s.take n
    (x :: xs, s)

end RandomSource

end Barrage
