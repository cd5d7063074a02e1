import Barrage.Proofs.Expression.Words
import Barrage.Proofs.Markup.References

/-!
How numbers are written in expressions. What stands at the front of a text and has the shape of a
number goes on as long as it can; it is a number if it has a digit before its exponent. Numbers are
read as what their digits write.
-/

set_option autoImplicit false

namespace Barrage.Expr

open Markup (Numeral)

/-! ## Shapes -/

structure Power where
  mark : List Char
  digits : List Char
  value : Nat
  isMark : mark ∈ exponentMarks
  numeral : Numeral 10 digits value

namespace Power

def text (p : Power) : List Char := p.mark ++ p.digits

def exponent (p : Power) : Int := if '-' ∈ p.mark then -(p.value : Int) else p.value

end Power

/-- The shape of a number: digits, a point and more digits, and an exponent. All of them may be
missing, and there may be no digit beside the point. -/
structure Shape where
  whole : List Char
  fraction? : Option (List Char)
  power? : Option Power
  isWhole : ∀ c ∈ whole, c.isDigit
  isFraction : ∀ digits ∈ fraction?, ∀ c ∈ digits, c.isDigit

namespace Shape

def fraction (s : Shape) : List Char := s.fraction?.elim [] ('.' :: ·)

def power (s : Shape) : List Char := s.power?.elim [] Power.text

def text (s : Shape) : List Char := s.whole ++ (s.fraction ++ s.power)

def mantissa (s : Shape) : List Char := s.whole ++ s.fraction?.getD []

/-- The number of this shape whose digits before the exponent write a natural number. -/
def value (s : Shape) (digits : Nat) : Decimal :=
  { digits, exponent := s.power?.elim 0 Power.exponent - (s.fraction?.getD []).length }

end Shape

/-- Of the texts of a kind that stand at the front of a text, none is longer than a part. -/
def IsLongest (kind : List Char → Prop) (part behind : List Char) : Prop :=
  ∀ other, kind other → other <+: part ++ behind → other.length ≤ part.length

/-! ## Digits -/

theorem isDigit_iff {c : Char} : c.isDigit ↔ '0' ≤ c ∧ c ≤ '9' := by
  rw [Char.isDigit, Bool.and_eq_true, decide_eq_true_eq, decide_eq_true_eq]
  exact Iff.rfl

theorem isDigit_of_value {c : Char} {value : Nat} (digit : Markup.IsDigit 10 c value) :
    c.isDigit := by
  have read := digit.digitValue?
  have small := digit.1
  unfold Text.digitValue? at read
  split at read
  · next bounds => exact isDigit_iff.2 bounds
  · split at read
    · cases read
      omega
    · split at read
      · cases read
        omega
      · cases read

theorem isDigit_of_numeral {digits : List Char} {n : Nat} (numeral : Numeral 10 digits n) :
    ∀ c ∈ digits, c.isDigit := by
  induction numeral with
  | digit last => simpa using isDigit_of_value last
  | snoc _ last ih =>
    intro c inside
    rcases List.mem_append.1 inside with inside | final
    · exact ih c inside
    · rw [List.mem_singleton.1 final]
      exact isDigit_of_value last

theorem digitValue?_of_isDigit {c : Char} (digit : c.isDigit) :
    ∃ value < 10, Text.digitValue? c = some value := by
  have bounds := isDigit_iff.1 digit
  refine ⟨c.toNat - '0'.toNat, ?_, if_pos bounds⟩
  have high : c.toNat ≤ 57 := bounds.2
  change c.toNat - 48 < 10
  omega

theorem numeral_of_isDigit {digits : List Char} (all : ∀ c ∈ digits, c.isDigit)
    (nonempty : digits ≠ []) : ∃ n, Numeral 10 digits n := by
  have reads : ∀ value, ∃ n, Text.digitsFrom? 10 value digits = some n := by
    clear nonempty
    induction digits with
    | nil => exact fun value => ⟨value, rfl⟩
    | cons c digits ih =>
      intro value
      obtain ⟨d, small, first⟩ := digitValue?_of_isDigit (all c List.mem_cons_self)
      obtain ⟨n, rest⟩ := ih (fun c inside => all c (List.mem_cons_of_mem _ inside))
        (value * 10 + d)
      refine ⟨n, ?_⟩
      rw [Text.digitsFrom?, first]
      simpa [small] using rest
  obtain ⟨n, read⟩ := reads 0
  exact ⟨n, .of_digitsFrom? nonempty read⟩

/-! ## Longest beginnings -/

/-- Something that takes the longest beginning of a kind off a text. -/
structure IsGreedy (kind : List Char → Prop) (take : List Char → List Char) : Prop where
  begins : ∀ cs, take cs <+: cs
  ofKind : ∀ cs, kind (take cs)
  covers : ∀ {part cs}, kind part → part <+: cs → part <+: take cs

theorem IsGreedy.isLongest_iff {kind : List Char → Prop} {take : List Char → List Char}
    {part behind : List Char} (greedy : IsGreedy kind take) (ofKind : kind part) :
    IsLongest kind part behind ↔ take (part ++ behind) = part := by
  constructor
  · intro longest
    have covered := greedy.covers ofKind (List.prefix_append part behind)
    exact (covered.eq_of_length_le (longest _ (greedy.ofKind _) (greedy.begins _))).symm
  · intro same other otherKind begins
    have covered := greedy.covers otherKind begins
    rw [same] at covered
    exact covered.length_le

theorem isGreedy_takeWhile (p : Char → Bool) :
    IsGreedy (fun cs => ∀ c ∈ cs, p c) (List.takeWhile p) where
  begins _ := List.takeWhile_prefix p
  ofKind _ _ inside := List.mem_takeWhile_imp inside
  covers := by
    rintro part _ all ⟨rest, rfl⟩
    rw [List.takeWhile_append_of_pos all]
    exact List.prefix_append _ _

/-! ## Numbers -/

section Numbers

variable {digits rest : List Char}

def Clear (p : Char → Bool) (rest : List Char) : Prop := ∀ c ∈ rest.head?, p c = false

theorem takeWhile_append_of_clear {p : Char → Bool} (all : ∀ c ∈ digits, p c)
    (clear : Clear p rest) : (digits ++ rest).takeWhile p = digits := by
  rw [List.takeWhile_append_of_pos all, List.append_right_eq_self]
  cases rest with
  | nil => rfl
  | cons c rest => exact List.takeWhile_cons_of_neg (by simp [clear c rfl])

theorem dropWhile_append_of_clear {p : Char → Bool} (all : ∀ c ∈ digits, p c)
    (clear : Clear p rest) : (digits ++ rest).dropWhile p = rest := by
  rw [List.dropWhile_append_of_pos all]
  cases rest with
  | nil => rfl
  | cons c rest => exact List.dropWhile_cons_of_neg (by simp [clear c rfl])

theorem numberPart_append (all : ∀ c ∈ digits, c.isDigit) (clear : Clear Char.isDigit rest) :
    numberPart (digits ++ rest) =
      digits ++ (fractionPart rest ++ exponentPart (rest.drop (fractionPart rest).length)) := by
  simp only [numberPart, takeWhile_append_of_clear all clear, List.drop_left, ← List.drop_drop,
    List.append_assoc]

namespace Power

variable (p : Power)

theorem text_uncons : ∃ c rest, p.text = c :: rest ∧ (c = 'e' ∨ c = 'E') := by
  have marks : ∀ mark ∈ exponentMarks, mark.head? = some 'e' ∨ mark.head? = some 'E' := by decide
  rcases marks p.mark p.isMark with head | head
  all_goals
    obtain ⟨rest, same⟩ := List.head?_eq_some_iff.1 head
    exact ⟨_, rest ++ p.digits, by rw [text, same, List.cons_append], by simp⟩

theorem exponentPart_text (behind : List Char) :
    exponentPart (p.text ++ behind) = p.mark ++ (p.digits ++ behind).takeWhile Char.isDigit := by
  obtain ⟨d, value, rest, same, first⟩ := p.numeral.uncons
  rw [text, List.append_assoc, same, List.cons_append,
    exponentPart_of_mark p.isMark (isDigit_of_value first)]

theorem readExponent?_text : Decimal.readExponent? p.text = some p.exponent := by
  obtain ⟨mark, digits, value, isMark, numeral⟩ := p
  have read : Decimal.readExponent?.digitsOf? digits = some value := by
    obtain ⟨d, _, rest, same, -⟩ := numeral.uncons
    rw [Decimal.readExponent?.digitsOf?, if_neg (by simp [same]), numeral.digitsFrom?_eq]
  have unsigned : ∀ e : Char, e = 'e' ∨ e = 'E' →
      Decimal.readExponent? (e :: digits) = some (value : Int) := by
    intro e isE
    obtain ⟨d, _, rest, rfl, first⟩ := numeral.uncons
    have minus : d ≠ '-' := first.ne (by decide)
    have plus : d ≠ '+' := first.ne (by decide)
    simp [Decimal.readExponent?, isE, read, minus, plus]
  simp only [exponentMarks, List.mem_cons, List.not_mem_nil, or_false] at isMark
  rcases isMark with rfl | rfl | rfl | rfl | rfl | rfl
  · exact unsigned 'e' (.inl rfl)
  · exact unsigned 'E' (.inr rfl)
  all_goals simp [text, exponent, Decimal.readExponent?, read]

theorem clear_text (q : Char → Bool) (behind : List Char) (small : q 'e' = false)
    (capital : q 'E' = false) : Clear q (p.text ++ behind) := by
  obtain ⟨c, rest, same, rfl | rfl⟩ := p.text_uncons
  all_goals
    rw [same]
    rintro _ ⟨⟩
    assumption

end Power

namespace Shape

variable (s : Shape)

theorem fractionPart_append (noDigit : Clear Char.isDigit rest) (noPoint : Clear (· = '.') rest) :
    fractionPart (s.fraction ++ rest) = s.fraction := by
  obtain ⟨whole, fraction?, power?, isWhole, isFraction⟩ := s
  cases fraction? with
  | some digits =>
    exact congrArg ('.' :: ·) (takeWhile_append_of_clear (isFraction digits rfl) noDigit)
  | none =>
    cases rest with
    | nil => rfl
    | cons c rest =>
      have other : c ≠ '.' := by simpa using noPoint c rfl
      change fractionPart (c :: rest) = []
      unfold fractionPart
      split
      · next same => exact absurd (List.cons.inj same).1 other
      · rfl

theorem fraction_prefix (behind : List Char) :
    s.fraction <+: fractionPart (s.fraction ++ behind) := by
  obtain ⟨whole, fraction?, power?, isWhole, isFraction⟩ := s
  cases fraction? with
  | some digits =>
    refine List.cons_prefix_cons.2 ⟨rfl, ?_⟩
    exact (isGreedy_takeWhile _).covers (isFraction digits rfl) (List.prefix_append _ _)
  | none => exact List.nil_prefix

theorem clear_fraction (clear : Clear Char.isDigit rest) :
    Clear Char.isDigit (s.fraction ++ rest) := by
  obtain ⟨whole, fraction?, power?, isWhole, isFraction⟩ := s
  cases fraction? with
  | some digits =>
    rintro _ ⟨⟩
    rfl
  | none => exact clear

theorem clear_power (q : Char → Bool) (small : q 'e' = false) (capital : q 'E' = false) :
    Clear q s.power := by
  unfold power
  cases s.power? with
  | some p => simpa using p.clear_text q [] small capital
  | none => exact fun _ member => nomatch member

theorem readExponent?_power :
    Decimal.readExponent? s.power = some (s.power?.elim 0 Power.exponent) := by
  unfold power
  cases s.power? with
  | some p => exact p.readExponent?_text
  | none => rfl

/-- What has the shape of a number at the front of a text is part of the longest such beginning. -/
theorem text_prefix (behind : List Char) : s.text <+: numberPart (s.text ++ behind) := by
  have longer : ∀ digits : List Char, (∀ c ∈ digits, c.isDigit) →
      digits <+: (digits ++ behind).takeWhile Char.isDigit := fun digits all =>
    (isGreedy_takeWhile _).covers all (List.prefix_append _ _)
  obtain ⟨whole, fraction?, power?, isWhole, isFraction⟩ := s
  let s : Shape := ⟨whole, fraction?, power?, isWhole, isFraction⟩
  cases power? with
  | some p =>
    have same : s.text ++ behind = whole ++ (s.fraction ++ (p.text ++ behind)) := by
      simp only [text, power, s, Option.elim_some, List.append_assoc]
    change s.text <+: numberPart (s.text ++ behind)
    rw [same, numberPart_append isWhole (s.clear_fraction (p.clear_text _ _ rfl rfl)),
      s.fractionPart_append (p.clear_text _ _ rfl rfl) (p.clear_text _ _ rfl rfl), List.drop_left,
      p.exponentPart_text]
    have ends := longer p.digits (isDigit_of_numeral p.numeral)
    simpa only [text, power, s, Option.elim_some, Power.text, List.prefix_append_right_inj]
      using ends
  | none =>
    have same : s.text = whole ++ s.fraction := by
      simp only [text, power, s, Option.elim_none, List.append_nil]
    change s.text <+: numberPart (s.text ++ behind)
    rw [same, List.append_assoc]
    cases fraction? with
    | some digits =>
      have point : Clear Char.isDigit (s.fraction ++ behind) := by
        rintro _ ⟨⟩
        rfl
      rw [numberPart_append isWhole point, List.prefix_append_right_inj]
      exact (s.fraction_prefix behind).trans (List.prefix_append _ _)
    | none =>
      have bare : s.fraction = [] := rfl
      rw [bare, List.append_nil, List.nil_append, numberPart, List.append_assoc]
      exact (longer whole isWhole).trans (List.prefix_append _ _)

end Shape

theorem exists_power (cs : List Char) :
    ∃ power? : Option Power, power?.elim [] Power.text = exponentPart cs := by
  rcases exponentPart_cases cs with absent | ⟨mark, isMark, d, rest, digit, rfl⟩
  · exact ⟨none, absent.symm⟩
  · have all : ∀ c ∈ (d :: rest).takeWhile Char.isDigit, c.isDigit :=
      fun c inside => List.mem_takeWhile_imp inside
    obtain ⟨n, numeral⟩ := numeral_of_isDigit all (by simp [digit])
    exact ⟨some ⟨mark, _, n, isMark, numeral⟩, (exponentPart_of_mark isMark digit).symm⟩

theorem exists_fraction (cs : List Char) : ∃ fraction? : Option (List Char),
    (∀ digits ∈ fraction?, ∀ c ∈ digits, c.isDigit) ∧
      fraction?.elim [] ('.' :: ·) = fractionPart cs := by
  unfold fractionPart
  split
  · next rest =>
    refine ⟨some (rest.takeWhile Char.isDigit), ?_, rfl⟩
    rintro _ ⟨⟩ c inside
    exact List.mem_takeWhile_imp inside
  · exact ⟨none, fun _ member => (nomatch member), rfl⟩

theorem exists_shape (cs : List Char) : ∃ s : Shape, s.text = numberPart cs := by
  let whole := cs.takeWhile Char.isDigit
  obtain ⟨fraction?, isFraction, fraction⟩ := exists_fraction (cs.drop whole.length)
  obtain ⟨power?, power⟩ := exists_power
    (cs.drop (whole.length + (fractionPart (cs.drop whole.length)).length))
  refine ⟨⟨whole, fraction?, power?, fun c inside => List.mem_takeWhile_imp inside,
    isFraction⟩, ?_⟩
  rw [Shape.text, Shape.fraction, Shape.power, fraction, power, numberPart, List.append_assoc]

theorem isGreedy_numberPart : IsGreedy (fun cs => ∃ s : Shape, s.text = cs) numberPart where
  begins := isFront_number.begins
  ofKind := exists_shape
  covers := by
    rintro _ _ ⟨s, rfl⟩ ⟨behind, rfl⟩
    exact s.text_prefix behind

theorem readUnsigned?_append {whole : List Char} {fraction? : Option (List Char)} {e : Int}
    (isWhole : ∀ c ∈ whole, c.isDigit)
    (isFraction : ∀ digits ∈ fraction?, ∀ c ∈ digits, c.isDigit)
    (noDigit : Clear Char.isDigit rest) (noPoint : Clear (· = '.') rest)
    (exponent : Decimal.readExponent? rest = some e) :
    Decimal.readUnsigned? (whole ++ (fraction?.elim [] ('.' :: ·) ++ rest)) =
      if (whole ++ fraction?.getD []).isEmpty then none
      else (Text.digitsFrom? 10 0 (whole ++ fraction?.getD [])).map fun digits =>
        { digits, exponent := e - (fraction?.getD []).length } := by
  have unwrap : ∀ (found : Option Nat) (f : Nat → Int → Decimal),
      (do let digits ← found; let exponent ← some e; some (f digits exponent)) =
        found.map (f · e) := by
    intro found f
    cases found <;> rfl
  cases fraction? with
  | some digits =>
    have digit := isFraction digits rfl
    have point : Clear Char.isDigit ('.' :: (digits ++ rest)) := by
      rintro _ ⟨⟩
      rfl
    simp only [Decimal.readUnsigned?, Option.elim_some, Option.getD_some, List.cons_append,
      takeWhile_append_of_clear isWhole point, dropWhile_append_of_clear isWhole point,
      takeWhile_append_of_clear digit noDigit, dropWhile_append_of_clear digit noDigit, exponent]
    rw [unwrap _ fun n x => { digits := n, exponent := x - digits.length }]
    simp only [List.isEmpty_iff, Bool.and_eq_true, List.append_eq_nil_iff]
  | none =>
    have bare : ∀ c behind, rest = c :: behind → c ≠ '.' := by
      rintro c behind rfl
      simpa using noPoint c rfl
    simp only [Decimal.readUnsigned?, Option.elim_none, Option.getD_none, List.nil_append,
      takeWhile_append_of_clear isWhole noDigit, dropWhile_append_of_clear isWhole noDigit]
    split
    · next r => exact absurd rfl (bare '.' r rfl)
    · simp only [exponent]
      rw [unwrap _ fun n x => { digits := n, exponent := x - ([] : List Char).length }]
      simp

theorem readUnsigned?_text (s : Shape) : Decimal.readUnsigned? s.text =
    if s.mantissa.isEmpty then none else (Text.digitsFrom? 10 0 s.mantissa).map s.value :=
  readUnsigned?_append s.isWhole s.isFraction (s.clear_power _ rfl rfl) (s.clear_power _ rfl rfl)
    s.readExponent?_power

end Numbers

end Barrage.Expr
