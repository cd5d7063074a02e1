import Barrage.Text.Basic

/-!
Exact decimal numbers as they stand in a text: digits, an optional fraction and an optional
exponent. Nothing is rounded here.
-/

set_option autoImplicit false

namespace Barrage

/-- The number `digits * 10 ^ exponent`, negated if `negative`. Zero has a sign. -/
structure Decimal where
  negative : Bool := false
  digits : Nat
  exponent : Int := 0
  deriving DecidableEq, Repr, Inhabited

namespace Decimal

def ofNat (n : Nat) : Decimal := { digits := n }

def ofInt (n : Int) : Decimal := { negative := n < 0, digits := n.natAbs }

instance : Neg Decimal := ⟨fun d => { d with negative := !d.negative }⟩

def width (n : Nat) : Nat := (Nat.toDigits 10 n).length

/-- The exponent that ends a number's text: nothing, or a mark, a sign and digits. -/
def readExponent? : List Char → Option Int
  | [] => some 0
  | mark :: rest =>
    if mark = 'e' ∨ mark = 'E' then
      match rest with
      | '-' :: digits => (digitsOf? digits).map fun n => -(n : Int)
      | '+' :: digits => (digitsOf? digits).map fun n => (n : Int)
      | digits => (digitsOf? digits).map fun n => (n : Int)
    else none
where
  digitsOf? (cs : List Char) : Option Nat :=
    if cs.isEmpty then none else Text.digitsFrom? 10 0 cs

/-- An unsigned number: digits with an optional point and an optional exponent. At least one digit
stands before the exponent. -/
def readUnsigned? (cs : List Char) : Option Decimal :=
  let whole := cs.takeWhile Char.isDigit
  let rest := cs.dropWhile Char.isDigit
  let (fraction, rest) := match rest with
    | '.' :: r => (r.takeWhile Char.isDigit, r.dropWhile Char.isDigit)
    | r => ([], r)
  if whole.isEmpty && fraction.isEmpty then none
  else do
    let digits ← Text.digitsFrom? 10 0 (whole ++ fraction)
    let exponent ← readExponent? rest
    some { digits, exponent := exponent - fraction.length }

def read? : List Char → Option Decimal
  | '-' :: cs => (readUnsigned? cs).map (- ·)
  | '+' :: cs => readUnsigned? cs
  | cs => readUnsigned? cs

end Decimal

end Barrage
