import Barrage.Expression.Grammar
import Mathlib.Data.List.Basic

/-!
The grammar of expressions. A sum is products between signs, a product is signed operands between
multiplying operators, and an operand is a number, a variable or a sum in parentheses. A derivation
tells which words it derives, how many parentheses and signs are open at most, and which term it
stands for; the words determine the derivation.
-/

set_option autoImplicit false

namespace Barrage.Expr

namespace Sign

def token : Sign → Token
  | plus => .plus
  | minus => .minus

def operator : Sign → Operator
  | plus => .add
  | minus => .sub

/-- A signed term in which no minus sign becomes part of a literal. -/
def plain : Sign → Term → Term
  | plus, t => t
  | minus, t => .neg t

end Sign

inductive Times where
  | star
  | slash
  | percent
  deriving DecidableEq, Repr

namespace Times

def token : Times → Token
  | star => .star
  | slash => .slash
  | percent => .percent

def operator : Times → Operator
  | star => .mul
  | slash => .div
  | percent => .rem

end Times

mutual

/-- `expr ::= term (('+' | '-') term)*` -/
inductive Sum where
  | of (first : Product) (rest : Summands)

inductive Summands where
  | none
  | more (sign : Sign) (next : Product) (rest : Summands)

/-- `term ::= unary (('*' | '/' | '%') unary)*` -/
inductive Product where
  | of (first : Unary) (rest : Factors)

inductive Factors where
  | none
  | more (times : Times) (next : Unary) (rest : Factors)

/-- `unary ::= ('+' | '-') unary | primary` -/
inductive Unary where
  | signed (sign : Sign) (operand : Unary)
  | primary (p : Primary)

/-- `primary ::= NUMBER | '$' INDEX | '$rand' | '$rank' | '(' expr ')'` -/
inductive Primary where
  | number (value : Decimal)
  | param (index : Nat)
  | rand
  | rank
  | group (s : Sum)

end

/-! ## Words -/

mutual

def Sum.words : Sum → List Token
  | .of first rest => first.words ++ rest.words

def Summands.words : Summands → List Token
  | .none => []
  | .more sign next rest => sign.token :: (next.words ++ rest.words)

def Product.words : Product → List Token
  | .of first rest => first.words ++ rest.words

def Factors.words : Factors → List Token
  | .none => []
  | .more times next rest => times.token :: (next.words ++ rest.words)

def Unary.words : Unary → List Token
  | .signed sign operand => sign.token :: operand.words
  | .primary p => p.words

def Primary.words : Primary → List Token
  | .number value => [.number value]
  | .param index => [.param index]
  | .rand => [.rand]
  | .rank => [.rank]
  | .group s => .opening :: (s.words ++ [.closing])

end

/-! ## Depth -/

mutual

def Sum.depth : Sum → Nat
  | .of first rest => max first.depth rest.depth

def Summands.depth : Summands → Nat
  | .none => 0
  | .more _ next rest => max next.depth rest.depth

def Product.depth : Product → Nat
  | .of first rest => max first.depth rest.depth

def Factors.depth : Factors → Nat
  | .none => 0
  | .more _ next rest => max next.depth rest.depth

def Unary.depth : Unary → Nat
  | .signed _ operand => operand.depth + 1
  | .primary p => p.depth

def Primary.depth : Primary → Nat
  | .group s => s.depth + 1
  | _ => 0

end

/-! ## Terms -/

section Terms

variable (sign : Sign → Term → Term)

mutual

/-- The term of a derivation, in which operators of one rank group to the left, with a way to put a
sign before a term. -/
def Sum.build : Sum → Term
  | .of first rest => rest.buildFrom first.build

def Summands.buildFrom (left : Term) : Summands → Term
  | .none => left
  | .more s next rest => rest.buildFrom (.binary s.operator left next.build)

def Product.build : Product → Term
  | .of first rest => rest.buildFrom first.build

def Factors.buildFrom (left : Term) : Factors → Term
  | .none => left
  | .more times next rest => rest.buildFrom (.binary times.operator left next.build)

def Unary.build : Unary → Term
  | .signed s operand => sign s operand.build
  | .primary p => p.build

def Primary.build : Primary → Term
  | .number value => .number value
  | .param index => .param index
  | .rand => .rand
  | .rank => .rank
  | .group s => s.build

end

end Terms

namespace Sum

/-- The term that a sum is read as: a plus sign is dropped, and a minus sign before a literal
becomes part of it. -/
def term (s : Sum) : Term := s.build Sign.apply

def unfolded (s : Sum) : Term := s.build Sign.plain

end Sum

/-! ## Words determine their derivation -/

namespace Token

def isSign : Token → Bool
  | plus | minus => true
  | _ => false

def isTimes : Token → Bool
  | star | slash | percent => true
  | _ => false

end Token

/-- The first of some words, if there is one, is not of a kind. -/
def NotAhead (p : Token → Bool) (ws : List Token) : Prop := ∀ t ∈ ws.head?, p t = false

variable {ws ws' : List Token}

theorem NotAhead.nil (p : Token → Bool) : NotAhead p [] := fun _ member => nomatch member

theorem NotAhead.cons {p : Token → Bool} {t : Token} (other : p t = false) :
    NotAhead p (t :: ws) := by
  rintro _ ⟨⟩
  exact other

theorem NotAhead.absurd {p : Token → Bool} {t : Token} (notAhead : NotAhead p ws)
    (same : ws = t :: ws') (isOne : p t) : False := by
  have other := notAhead t (by rw [same]; rfl)
  rw [isOne] at other
  cases other

namespace Sign

theorem isSign_token (s : Sign) : s.token.isSign := by cases s <;> rfl

theorem isTimes_token (s : Sign) : s.token.isTimes = false := by cases s <;> rfl

theorem token_injective {s s' : Sign} (same : s.token = s'.token) : s = s' := by
  cases s <;> cases s' <;> first | rfl | cases same

end Sign

namespace Times

theorem isTimes_token (t : Times) : t.token.isTimes := by cases t <;> rfl

theorem token_injective {t t' : Times} (same : t.token = t'.token) : t = t' := by
  cases t <;> cases t' <;> first | rfl | cases same

end Times

theorem Primary.words_head (p : Primary) (ws : List Token) :
    NotAhead Token.isSign (p.words ++ ws) := by
  cases p <;> exact .cons rfl

theorem Summands.notAhead (rest : Summands) (ends : NotAhead Token.isTimes ws) :
    NotAhead Token.isTimes (rest.words ++ ws) := by
  cases rest with
  | none => exact ends
  | more s next rest => exact .cons s.isTimes_token

mutual

theorem Sum.unique : ∀ (s s' : Sum) {ws ws' : List Token}, NotAhead Token.isSign ws →
    NotAhead Token.isTimes ws → NotAhead Token.isSign ws' → NotAhead Token.isTimes ws' →
    s.words ++ ws = s'.words ++ ws' → s = s' ∧ ws = ws'
  | .of first rest, .of first' rest', _, _, noSign, noTimes, noSign', noTimes', same => by
    rw [Sum.words, Sum.words, List.append_assoc, List.append_assoc] at same
    obtain ⟨rfl, sameRest⟩ :=
      first.unique first' (rest.notAhead noTimes) (rest'.notAhead noTimes') same
    obtain ⟨rfl, behind⟩ := rest.unique rest' noSign noTimes noSign' noTimes' sameRest
    exact ⟨rfl, behind⟩

theorem Summands.unique : ∀ (s s' : Summands) {ws ws' : List Token}, NotAhead Token.isSign ws →
    NotAhead Token.isTimes ws → NotAhead Token.isSign ws' → NotAhead Token.isTimes ws' →
    s.words ++ ws = s'.words ++ ws' → s = s' ∧ ws = ws'
  | .none, .none, _, _, _, _, _, _, same => ⟨rfl, same⟩
  | .none, .more s _ _, _, _, noSign, _, _, _, same =>
    (noSign.absurd (t := s.token) same s.isSign_token).elim
  | .more s _ _, .none, _, _, _, _, noSign', _, same =>
    (noSign'.absurd (t := s.token) same.symm s.isSign_token).elim
  | .more s next rest, .more s' next' rest', _, _, noSign, noTimes, noSign', noTimes', same => by
    rw [Summands.words, Summands.words, List.cons_append, List.cons_append, List.append_assoc,
      List.append_assoc] at same
    obtain ⟨sign, sameNext⟩ := List.cons.inj same
    obtain rfl := Sign.token_injective sign
    obtain ⟨rfl, sameRest⟩ :=
      next.unique next' (rest.notAhead noTimes) (rest'.notAhead noTimes') sameNext
    obtain ⟨rfl, behind⟩ := rest.unique rest' noSign noTimes noSign' noTimes' sameRest
    exact ⟨rfl, behind⟩

theorem Product.unique : ∀ (p p' : Product) {ws ws' : List Token}, NotAhead Token.isTimes ws →
    NotAhead Token.isTimes ws' → p.words ++ ws = p'.words ++ ws' → p = p' ∧ ws = ws'
  | .of first rest, .of first' rest', _, _, noTimes, noTimes', same => by
    rw [Product.words, Product.words, List.append_assoc, List.append_assoc] at same
    obtain ⟨rfl, sameRest⟩ := first.unique first' same
    obtain ⟨rfl, behind⟩ := rest.unique rest' noTimes noTimes' sameRest
    exact ⟨rfl, behind⟩

theorem Factors.unique : ∀ (f f' : Factors) {ws ws' : List Token}, NotAhead Token.isTimes ws →
    NotAhead Token.isTimes ws' → f.words ++ ws = f'.words ++ ws' → f = f' ∧ ws = ws'
  | .none, .none, _, _, _, _, same => ⟨rfl, same⟩
  | .none, .more t _ _, _, _, noTimes, _, same =>
    (noTimes.absurd (t := t.token) same t.isTimes_token).elim
  | .more t _ _, .none, _, _, _, noTimes', same =>
    (noTimes'.absurd (t := t.token) same.symm t.isTimes_token).elim
  | .more t next rest, .more t' next' rest', _, _, noTimes, noTimes', same => by
    rw [Factors.words, Factors.words, List.cons_append, List.cons_append, List.append_assoc,
      List.append_assoc] at same
    obtain ⟨times, sameNext⟩ := List.cons.inj same
    obtain rfl := Times.token_injective times
    obtain ⟨rfl, sameRest⟩ := next.unique next' sameNext
    obtain ⟨rfl, behind⟩ := rest.unique rest' noTimes noTimes' sameRest
    exact ⟨rfl, behind⟩

theorem Unary.unique : ∀ (u u' : Unary) {ws ws' : List Token},
    u.words ++ ws = u'.words ++ ws' → u = u' ∧ ws = ws'
  | .primary p, .primary p', _, _, same => by
    obtain ⟨rfl, behind⟩ := p.unique p' same
    exact ⟨rfl, behind⟩
  | .primary p, .signed s u, ws, _, same =>
    ((p.words_head ws).absurd (t := s.token) same s.isSign_token).elim
  | .signed s u, .primary p, _, ws', same =>
    ((p.words_head ws').absurd (t := s.token) same.symm s.isSign_token).elim
  | .signed s u, .signed s' u', _, _, same => by
    obtain ⟨sign, sameOperand⟩ := List.cons.inj same
    obtain rfl := Sign.token_injective sign
    obtain ⟨rfl, behind⟩ := u.unique u' sameOperand
    exact ⟨rfl, behind⟩

theorem Primary.unique : ∀ (p p' : Primary) {ws ws' : List Token},
    p.words ++ ws = p'.words ++ ws' → p = p' ∧ ws = ws'
  | .group s, p', ws, ws', same => by
    cases p' with
    | group s' =>
      rw [Primary.words, Primary.words, List.cons_append, List.cons_append, List.append_assoc,
        List.append_assoc] at same
      obtain ⟨rfl, behind⟩ := s.unique s' (.cons rfl) (.cons rfl) (.cons rfl) (.cons rfl)
        (List.cons.inj same).2
      exact ⟨rfl, (List.cons.inj behind).2⟩
    | _ => cases same
  | .number _, p', _, _, same | .param _, p', _, _, same | .rand, p', _, _, same
  | .rank, p', _, _, same => by
    cases p' <;> cases same
    exact ⟨rfl, rfl⟩

end

/-- No other derivation has the same words. -/
theorem Sum.words_injective {s s' : Sum} (same : s.words = s'.words) : s = s' := by
  refine (s.unique s' (.nil _) (.nil _) (.nil _) (.nil _) ?_).1
  rw [List.append_nil, List.append_nil, same]

end Barrage.Expr
