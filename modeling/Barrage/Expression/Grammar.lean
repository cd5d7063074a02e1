import Barrage.Expression.Term
import Barrage.Expression.Token

/-!
From words to terms. Products bind tighter than sums and signs tighter than both; operators of one
rank group to the left. A plus sign is dropped, and a minus sign before a literal becomes part of
it.

The reader takes one word at a time. For every open parenthesis it keeps a level: the sum and the
product that wait for their right operand, and the signs before the operand to come.
-/

set_option autoImplicit false

namespace Barrage.Expr

inductive Sign where
  | plus
  | minus
  deriving DecidableEq, Repr

def Sign.apply : Sign → Term → Term
  | plus, t => t
  | minus, .number d => .number (-d)
  | minus, t => .neg t

/-- What is pending within one pair of parentheses. -/
structure Level where
  sum? : Option (Term × Operator) := none
  product? : Option (Term × Operator) := none
  /-- The last sign first. -/
  signs : List Sign := []
  deriving DecidableEq, Repr

namespace Level

def signed (l : Level) (t : Term) : Term := l.signs.foldl (fun t s => s.apply t) t

def product (l : Level) (t : Term) : Term :=
  match l.product? with
  | some (left, op) => .binary op left t
  | none => t

def sum (l : Level) (t : Term) : Term :=
  match l.sum? with
  | some (left, op) => .binary op left (l.product t)
  | none => l.product t

end Level

structure Reader where
  /-- The levels of the parentheses around the current one, the innermost first. -/
  outer : List Level := []
  level : Level := {}
  /-- The operand just read, or nothing if one has to follow. -/
  operand? : Option Term := none
  deriving DecidableEq, Repr

/-- Why reading stops: a problem with a word, or too many open parentheses and signs. -/
inductive Stop where
  | problem (p : Problem)
  | tooDeep
  deriving DecidableEq, Repr

def maxDepth : Nat := 64

namespace Reader

def depth (r : Reader) : Nat :=
  r.outer.foldr (fun l n => l.signs.length + 1 + n) r.level.signs.length

def operand (r : Reader) (t : Term) : Reader :=
  { r with level := { r.level with signs := [] }, operand? := some (r.level.signed t) }

def sign (r : Reader) (s : Sign) : Except Stop Reader :=
  if r.depth < maxDepth then
    .ok { r with level := { r.level with signs := s :: r.level.signs } }
  else .error .tooDeep

def enter (r : Reader) : Except Stop Reader :=
  if r.depth < maxDepth then .ok { outer := r.level :: r.outer, level := {}, operand? := none }
  else .error .tooDeep

def beforeOperand (r : Reader) : Token → Except Stop Reader
  | .number d => .ok (r.operand (.number d))
  | .param n => .ok (r.operand (.param n))
  | .rand => .ok (r.operand .rand)
  | .rank => .ok (r.operand .rank)
  | .opening => r.enter
  | .plus => r.sign .plus
  | .minus => r.sign .minus
  | .star | .slash | .percent | .closing => .error (.problem .missingOperand)

def misplaced (r : Reader) : Stop :=
  .problem (if r.outer.isEmpty then .trailingInput else .missingClose)

def multiply (r : Reader) (t : Term) (op : Operator) : Reader :=
  { r with level := { r.level with product? := some (r.level.product t, op) }, operand? := none }

def add (r : Reader) (t : Term) (op : Operator) : Reader :=
  { r with level := { sum? := some (r.level.sum t, op) }, operand? := none }

def afterOperand (r : Reader) (t : Term) : Token → Except Stop Reader
  | .plus => .ok (r.add t .add)
  | .minus => .ok (r.add t .sub)
  | .star => .ok (r.multiply t .mul)
  | .slash => .ok (r.multiply t .div)
  | .percent => .ok (r.multiply t .rem)
  | .closing =>
    match r.outer with
    | [] => .error r.misplaced
    | l :: outer => .ok (Reader.operand { outer, level := l } (r.level.sum t))
  | .number _ | .param _ | .rand | .rank | .opening => .error r.misplaced

def step (r : Reader) (token : Token) : Except Stop Reader :=
  match r.operand? with
  | none => r.beforeOperand token
  | some t => r.afterOperand t token

def result (r : Reader) : Except Stop Term :=
  match r.operand? with
  | none => .error (.problem .unexpectedEnd)
  | some t => if r.outer.isEmpty then .ok (r.level.sum t) else .error (.problem .missingClose)

def run (r : Reader) (stop : Nat) : List Placed → Except (Stop × Nat) Term
  | [] => match r.result with
    | .ok t => .ok t
    | .error e => .error (e, stop)
  | w :: rest => match r.step w.token with
    | .ok r => r.run stop rest
    | .error e => .error (e, w.offset)

end Reader

def readTerm (stop : Nat) (words : List Placed) : Except (Stop × Nat) Term :=
  ({} : Reader).run stop words

end Barrage.Expr
