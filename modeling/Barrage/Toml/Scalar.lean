import Barrage.Toml.Value

/-!
The words of TOML: numbers, booleans, dates and times. Digits may be grouped by single underscores;
decimal numbers have no needless zeros in front; integers have 64 bits.
-/

set_option autoImplicit false

namespace Barrage.Toml

def digitRun? (isDigit : Char → Bool) : List Char → Option (List Char)
  | [] => none
  | [c] => if isDigit c then some [c] else none
  | c :: '_' :: rest => if isDigit c then (digitRun? isDigit rest).map (c :: ·) else none
  | c :: rest => if isDigit c then (digitRun? isDigit rest).map (c :: ·) else none

def isDecimal (c : Char) : Bool := '0' ≤ c && c ≤ '9'

/-- Digits of a decimal number, which begin with zero only if they are just zero. -/
def decimalRun? (cs : List Char) : Option (List Char) :=
  match digitRun? isDecimal cs with
  | some ['0'] => some ['0']
  | some ('0' :: _) => none
  | other => other

def takeSign (cs : List Char) : Bool × List Char :=
  match cs with
  | '-' :: rest => (true, rest)
  | '+' :: rest => (false, rest)
  | _ => (false, cs)

def withSign (negative : Bool) (n : Nat) : Int := if negative then -(n : Int) else n

/-- Integers lie below this, and not below its negative. -/
def integerBound : Nat := 0x8000000000000000

def fitting? (n : Int) : Option Int :=
  if -(integerBound : Int) ≤ n ∧ n < integerBound then some n else none

def based? (base : Nat) (cs : List Char) : Option Int := do
  let isDigit (c : Char) : Bool := (Text.digitValue? c).any (· < base)
  let digits ← digitRun? isDigit cs
  let n ← Text.digitsFrom? base 0 digits
  fitting? n

def integer? (cs : List Char) : Option Int :=
  match cs with
  | '0' :: 'x' :: rest => based? 16 rest
  | '0' :: 'o' :: rest => based? 8 rest
  | '0' :: 'b' :: rest => based? 2 rest
  | _ => do
    let (negative, rest) := takeSign cs
    let digits ← decimalRun? rest
    let n ← Text.digitsFrom? 10 0 digits
    fitting? (withSign negative n)

def fraction? (cs : List Char) : Option (List Char × List Char) :=
  match cs with
  | '.' :: rest => do
    let run := rest.takeWhile fun c => isDecimal c || c = '_'
    let digits ← digitRun? isDecimal run
    some ('.' :: digits, rest.drop run.length)
  | _ => some ([], cs)

def exponent? (cs : List Char) : Option (List Char) :=
  match cs with
  | [] => some []
  | mark :: rest =>
    if mark = 'e' || mark = 'E' then do
      let (negative, rest) := takeSign rest
      let digits ← digitRun? isDecimal rest
      some ('e' :: (if negative then '-' :: digits else digits))
    else none

/-- The encoding of a decimal number with a fraction or an exponent; positive ones are finite. -/
def finite? (cs : List Char) : Option Nat := do
  let (negative, rest) := takeSign cs
  let run := rest.takeWhile fun c => isDecimal c || c = '_'
  let digits ← decimalRun? run
  let (fraction, rest) ← fraction? (rest.drop run.length)
  let exponent ← exponent? rest
  if fraction.isEmpty && exponent.isEmpty then none
  else
    let d ← Decimal.read? (digits ++ fraction ++ exponent)
    let bits := BinaryFormat.double.ofDecimal { d with negative }
    if bits = BinaryFormat.double.infinity then none else some bits

def float? (cs : List Char) : Option Nat :=
  let (negative, rest) := takeSign cs
  let sign := if negative then BinaryFormat.double.signBit else 0
  if rest = "inf".toList then some (BinaryFormat.double.infinity + sign)
  else if rest = "nan".toList then some (BinaryFormat.double.infinity + 1 + sign)
  else finite? cs

def twoDigits? (least most : Nat) (a b : Char) : Option Nat :=
  if isDecimal a && isDecimal b then
    (Text.digitsFrom? 10 0 [a, b]).filter fun n => least ≤ n && n ≤ most
  else none

def isLeapYear (year : Nat) : Bool := year % 4 = 0 && (year % 100 ≠ 0 || year % 400 = 0)

def daysIn (year month : Nat) : Nat :=
  if month = 2 then (if isLeapYear year then 29 else 28)
  else if month = 4 || month = 6 || month = 9 || month = 11 then 30
  else 31

def afterDate? (cs : List Char) : Option (List Char) :=
  match cs with
  | y1 :: y2 :: y3 :: y4 :: '-' :: m1 :: m2 :: '-' :: d1 :: d2 :: rest => do
    if [y1, y2, y3, y4].all isDecimal then
      let year ← Text.digitsFrom? 10 0 [y1, y2, y3, y4]
      let month ← twoDigits? 1 12 m1 m2
      let _ ← twoDigits? 1 (daysIn year month) d1 d2
      some rest
    else none
  | _ => none

def afterTime? (cs : List Char) : Option (List Char) :=
  match cs with
  | h1 :: h2 :: ':' :: m1 :: m2 :: ':' :: s1 :: s2 :: rest => do
    let _ ← twoDigits? 0 23 h1 h2
    let _ ← twoDigits? 0 59 m1 m2
    let _ ← twoDigits? 0 60 s1 s2
    match rest with
    | '.' :: fraction =>
      if (fraction.takeWhile isDecimal).isEmpty then none
      else some (fraction.dropWhile isDecimal)
    | _ => some rest
  | _ => none

def isOffset (cs : List Char) : Bool :=
  match cs with
  | [] | ['Z'] | ['z'] => true
  | [sign, h1, h2, ':', m1, m2] =>
    (sign = '+' || sign = '-') && (twoDigits? 0 23 h1 h2).isSome && (twoDigits? 0 59 m1 m2).isSome
  | _ => false

def isDatetime (cs : List Char) : Bool :=
  match afterDate? cs with
  | some [] => true
  | some (mark :: rest) =>
    (mark = 'T' || mark = 't' || mark = ' ') && (afterTime? rest).any isOffset
  | none => afterTime? cs = some []

def word? (cs : List Char) : Option Value :=
  if cs = "true".toList then some (.boolean true)
  else if cs = "false".toList then some (.boolean false)
  else if isDatetime cs then some .datetime
  else match float? cs with
    | some bits => some (.float bits)
    | none => (integer? cs).map .integer

end Barrage.Toml
