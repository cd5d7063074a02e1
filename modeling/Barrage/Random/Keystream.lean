import Barrage.Number.Scalar

/-!
The random source: the ChaCha keystream with twelve rounds, under a key that is expanded from a
64-bit seed. One word of the keystream gives one number in `[0, 1)`, with 24 bits.
-/

set_option autoImplicit false

namespace Barrage

structure Keystream where
  key : List UInt32
  counter : UInt64 := 0
  pending : List UInt32 := []
  deriving Repr

namespace Keystream

def expand (state : UInt64) : UInt32 × UInt64 :=
  let state := state * 6364136223846793005 + 11634580027462260723
  let word := (((state >>> 18) ^^^ state) >>> 27).toUInt32
  let turn := (state >>> 59).toUInt32
  ((word >>> turn) ||| (word <<< ((32 - turn) % 32)), state)

def keyWords (state : UInt64) : Nat → List UInt32
  | 0 => []
  | n + 1 => let (word, state) := expand state; word :: keyWords state n

def ofSeed (seed : UInt64) : Keystream := { key := keyWords seed 8 }

abbrev Block := Array UInt32

def rotate (word : UInt32) (n : UInt32) : UInt32 := (word <<< n) ||| (word >>> (32 - n))

def quarter (b : Block) (i j k l : Nat) : Block :=
  let a := b.getD i 0
  let d := b.getD l 0
  let c := b.getD k 0
  let e := b.getD j 0
  let a := a + e
  let d := rotate (d ^^^ a) 16
  let c := c + d
  let e := rotate (e ^^^ c) 12
  let a := a + e
  let d := rotate (d ^^^ a) 8
  let c := c + d
  let e := rotate (e ^^^ c) 7
  (((b.setIfInBounds i a).setIfInBounds j e).setIfInBounds k c).setIfInBounds l d

def doubleRound (b : Block) : Block :=
  let b := quarter (quarter (quarter (quarter b 0 4 8 12) 1 5 9 13) 2 6 10 14) 3 7 11 15
  quarter (quarter (quarter (quarter b 0 5 10 15) 1 6 11 12) 2 7 8 13) 3 4 9 14

def rounds (b : Block) : Nat → Block
  | 0 => b
  | n + 1 => rounds (doubleRound b) n

/-- A block before the rounds: constants, key, counter and two zero words. -/
def initialBlock (key : List UInt32) (counter : UInt64) : Block :=
  (([0x61707865, 0x3320646e, 0x79622d32, 0x6b206574] : List UInt32) ++ key
    ++ [counter.toUInt32, (counter >>> 32).toUInt32, 0, 0]).toArray

def block (key : List UInt32) (counter : UInt64) : List UInt32 :=
  let start := initialBlock key counter
  (Array.zipWith (· + ·) (rounds start 6) start).toList

def nextWord (g : Keystream) : UInt32 × Keystream :=
  match g.pending with
  | word :: rest => (word, { g with pending := rest })
  | [] => match block g.key g.counter with
    | word :: rest => (word, { g with counter := g.counter + 1, pending := rest })
    | [] => (0, g)

def unit {F : Type} [Scalar F] (word : UInt32) : F :=
  Scalar.ofDecimal (.ofNat (word >>> 8).toNat) / Scalar.ofDecimal (.ofNat 0x1000000)

def next {F : Type} [Scalar F] (g : Keystream) : F × Keystream :=
  let (word, g) := g.nextWord
  (unit word, g)

end Keystream

end Barrage
