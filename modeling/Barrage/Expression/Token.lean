import Barrage.Number.Decimal

/-!
The words of an expression: numbers, parameters, built-in variables, operators and parentheses.
Blanks separate words and are dropped. Every word is as long as it can be.
-/

set_option autoImplicit false

namespace Barrage.Expr

inductive Token where
  | number (value : Decimal)
  | param (index : Nat)
  | rand
  | rank
  | plus
  | minus
  | star
  | slash
  | percent
  | opening
  | closing
  deriving DecidableEq, Repr

structure Placed where
  token : Token
  offset : Nat
  deriving DecidableEq, Repr

inductive Problem where
  | invalidNumber (text : String)
  | namelessVariable
  | parameterOutOfRange (index : Nat)
  | unknownVariable (name : String)
  | unexpectedCharacter (c : Char)
  | trailingInput
  | missingClose
  | unexpectedEnd
  | missingOperand
  deriving DecidableEq, Repr

def maxParameter : Nat := 64

def Problem.message : Problem → String
  | invalidNumber text => s!"invalid number '{text}'"
  | namelessVariable => "'$' without a name"
  | parameterOutOfRange index => s!"parameter ${index} out of range 1..={maxParameter}"
  | unknownVariable name => s!"unknown variable '${name}'"
  | unexpectedCharacter c => s!"unexpected character '{c}'"
  | trailingInput => "unexpected trailing input"
  | missingClose => "expected ')'"
  | unexpectedEnd => "unexpected end of expression"
  | missingOperand => "expected a number, parameter or '('"

def isBlank (c : Char) : Bool := c = ' ' || c = '\t' || c = '\n' || c = '\r'

def symbol? : Char → Option Token
  | '+' => some .plus
  | '-' => some .minus
  | '*' => some .star
  | '/' => some .slash
  | '%' => some .percent
  | '(' => some .opening
  | ')' => some .closing
  | _ => none

/-- The digits of an exponent with its mark and sign, if there is a digit. -/
def exponentPart (cs : List Char) : List Char :=
  match cs with
  | mark :: rest =>
    if mark = 'e' ∨ mark = 'E' then
      let sign := match rest with
        | s :: _ => if s = '+' ∨ s = '-' then [s] else []
        | [] => []
      let digits := (rest.drop sign.length).takeWhile Char.isDigit
      if digits.isEmpty then [] else mark :: sign ++ digits
    else []
  | [] => []

def fractionPart (cs : List Char) : List Char :=
  match cs with
  | '.' :: rest => '.' :: rest.takeWhile Char.isDigit
  | _ => []

def numberPart (cs : List Char) : List Char :=
  let whole := cs.takeWhile Char.isDigit
  let fraction := fractionPart (cs.drop whole.length)
  whole ++ fraction ++ exponentPart (cs.drop (whole.length + fraction.length))

def variableNamed (name : List Char) : Except Problem Token :=
  if name = ['r', 'a', 'n', 'd'] then .ok .rand
  else if name = ['r', 'a', 'n', 'k'] then .ok .rank
  else if name.isEmpty then .error .namelessVariable
  else match Text.readNat? 10 UInt64.size name with
    | none => .error (.unknownVariable (String.ofList name))
    | some index =>
      if 1 ≤ index ∧ index ≤ maxParameter then .ok (.param index)
      else .error (.parameterOutOfRange index)

def readToken (c : Char) (rest : List Char) : Except Problem (Token × List Char) :=
  match symbol? c with
  | some t => .ok (t, [c])
  | none =>
    if c.isDigit ∨ c = '.' then
      let part := numberPart (c :: rest)
      match Decimal.readUnsigned? part with
      | some d => .ok (.number d, part)
      | none => .error (.invalidNumber (String.ofList part))
    else if c = '$' then
      let name := rest.takeWhile Char.isAlphanum
      (variableNamed name).map fun t => (t, c :: name)
    else .error (.unexpectedCharacter c)

theorem numberPart_ne_nil {c : Char} {rest : List Char} (h : c.isDigit ∨ c = '.') :
    numberPart (c :: rest) ≠ [] := by
  by_cases hd : c.isDigit
  · simp [numberPart, hd]
  · obtain rfl := h.resolve_left hd
    simp [numberPart, fractionPart]

theorem readToken_length_pos {c : Char} {rest taken : List Char} {t : Token}
    (h : readToken c rest = .ok (t, taken)) : 0 < taken.length := by
  unfold readToken at h
  split at h
  · simp only [Except.ok.injEq, Prod.mk.injEq] at h
    obtain ⟨-, rfl⟩ := h
    simp
  · split at h
    · next hn =>
      dsimp only at h
      split at h
      · simp only [Except.ok.injEq, Prod.mk.injEq] at h
        obtain ⟨-, rfl⟩ := h
        exact List.length_pos_iff.2 (numberPart_ne_nil hn)
      · simp at h
    · split at h
      · dsimp only at h
        cases hv : variableNamed (rest.takeWhile Char.isAlphanum) with
        | error e => simp [hv, Except.map] at h
        | ok v =>
          simp only [hv, Except.map, Except.ok.injEq, Prod.mk.injEq] at h
          obtain ⟨-, rfl⟩ := h
          simp
      · simp at h

/-- The words of a text that begins at a byte, after those found before, the last one first. An
error comes with the byte that it is at. -/
def readTokens (offset : Nat) (found : List Placed) (cs : List Char) :
    Except (Problem × Nat) (List Placed) :=
  match cs with
  | [] => .ok found.reverse
  | c :: rest =>
    if isBlank c then readTokens (offset + c.utf8Size) found rest
    else
      match _h : readToken c rest with
      | .error problem => .error (problem, offset)
      | .ok (token, taken) =>
        readTokens (offset + Text.byteLength taken) (⟨token, offset⟩ :: found)
          ((c :: rest).drop taken.length)
termination_by cs.length
decreasing_by
  · simp
  · have := readToken_length_pos _h
    simp
    omega

def tokenize (cs : List Char) : Except (Problem × Nat) (List Placed) := readTokens 0 [] cs

end Barrage.Expr
