import Barrage.Number.Scalar

/-!
Arithmetic terms and their values. A term reads positional parameters, the difficulty and random
numbers; reading a random number moves the state on. Lenient evaluation takes a parameter without
a value for zero, strict evaluation stops at the first one.
-/

set_option autoImplicit false

namespace Barrage

inductive Operator where
  | add
  | sub
  | mul
  | div
  | rem
  deriving DecidableEq, Repr

inductive Term where
  | number (value : Decimal)
  /-- A positional parameter, counted from one. -/
  | param (index : Nat)
  | rand
  | rank
  | neg (operand : Term)
  | binary (op : Operator) (left right : Term)
  deriving DecidableEq, Repr

/-- What a term reads: parameters, and the difficulty and random numbers of a state. -/
structure Reading (F σ : Type) where
  param? : Nat → Option F
  rank : σ → F
  random : σ → F × σ
  /-- Called when a parameter without a value is taken for zero. -/
  unbound : Nat → σ → σ

def Operator.apply {F : Type} [Scalar F] : Operator → F → F → F
  | add, a, b => a + b
  | sub, a, b => a - b
  | mul, a, b => a * b
  | div, a, b => a / b
  | rem, a, b => a % b

namespace Term

def isConstant : Term → Bool
  | number _ => true
  | param _ | rand | rank => false
  | neg t => t.isConstant
  | binary _ a b => a.isConstant && b.isConstant

def maxParam : Term → Nat
  | param n => n
  | number _ | rand | rank => 0
  | neg t => t.maxParam
  | binary _ a b => max a.maxParam b.maxParam

variable {F σ : Type} [Scalar F]

/-- The value, with zero for parameters without one. Operands are taken from left to right. -/
def evaluate (r : Reading F σ) : Term → σ → F × σ
  | number d, s => (Scalar.ofDecimal d, s)
  | param n, s =>
    match r.param? n with
    | some x => (x, s)
    | none => (Scalar.zero, r.unbound n s)
  | rand, s => r.random s
  | rank, s => (r.rank s, s)
  | neg t, s => let (x, s) := t.evaluate r s; (-x, s)
  | binary op a b, s =>
    let (x, s) := a.evaluate r s
    let (y, s) := b.evaluate r s
    (op.apply x y, s)

def evaluateStrict (r : Reading F σ) : Term → σ → Except Nat F × σ
  | number d, s => (.ok (Scalar.ofDecimal d), s)
  | param n, s =>
    match r.param? n with
    | some x => (.ok x, s)
    | none => (.error n, s)
  | rand, s => let (x, s) := r.random s; (.ok x, s)
  | rank, s => (.ok (r.rank s), s)
  | neg t, s =>
    match t.evaluateStrict r s with
    | (.ok x, s) => (.ok (-x), s)
    | (.error n, s) => (.error n, s)
  | binary op a b, s =>
    match a.evaluateStrict r s with
    | (.error n, s) => (.error n, s)
    | (.ok x, s) =>
      match b.evaluateStrict r s with
      | (.error n, s) => (.error n, s)
      | (.ok y, s) => (.ok (op.apply x y), s)

end Term

end Barrage
