import Barrage.Proofs.Expression.Numbers

/-!
How the words of an expression are written. A text of words is blanks, operators, parentheses,
numbers and variables one behind the other, where numbers and the names of variables are as long as
they can be. The words of a text can be read exactly if it is such a text, and they are those that
are written, each at its place.
-/

set_option autoImplicit false

namespace Barrage.Expr

open Markup (Numeral)

/-! ## Lexemes -/

inductive Variable where
  | rand
  | rank
  | param (digits : List Char) (index : Nat) (numeral : Numeral 10 digits index)
      (nameable : 1 ≤ index ∧ index ≤ maxParameter)

namespace Variable

def name : Variable → List Char
  | rand => "rand".toList
  | rank => "rank".toList
  | param digits .. => digits

def token : Variable → Token
  | rand => .rand
  | rank => .rank
  | param _ index .. => .param index

end Variable

def symbols : List (Char × Token) :=
  [('+', .plus), ('-', .minus), ('*', .star), ('/', .slash), ('%', .percent), ('(', .opening),
    (')', .closing)]

inductive Lexeme where
  | blank (c : Char) (white : c ∈ [' ', '\t', '\r', '\n'])
  | symbol (c : Char) (token : Token) (known : (c, token) ∈ symbols)
  | number (shape : Shape) (digits : Nat) (numeral : Numeral 10 shape.mantissa digits)
  | named (v : Variable)

namespace Lexeme

def text : Lexeme → List Char
  | blank c _ => [c]
  | symbol c .. => [c]
  | number shape .. => shape.text
  | named v => '$' :: v.name

def token? : Lexeme → Option Token
  | blank .. => none
  | symbol _ token _ => some token
  | number shape digits _ => some (.number (shape.value digits))
  | named v => some v.token

end Lexeme

/-- A number or a name in front of a text is as long as it can be. -/
def Lexeme.Complete (behind : List Char) : Lexeme → Prop
  | number shape .. => IsLongest (fun cs => ∃ s : Shape, s.text = cs) shape.text behind
  | named v => IsLongest (fun cs => ∀ c ∈ cs, c.isAlphanum) v.name behind
  | _ => True

/-- A text is blanks and words one behind the other, all as long as they can be. -/
inductive Spells : List Lexeme → List Char → Prop where
  | nil : Spells [] []
  | cons {l : Lexeme} {ls : List Lexeme} {behind : List Char} (complete : l.Complete behind)
      (further : Spells ls behind) : Spells (l :: ls) (l.text ++ behind)

def placed (start : Nat) : List Lexeme → List Placed
  | [] => []
  | l :: ls =>
    (l.token?.map fun t => ⟨t, start⟩).toList ++ placed (start + Text.byteLength l.text) ls

/-! ## Variables -/

theorem isAlphanum_name (v : Variable) : ∀ c ∈ v.name, c.isAlphanum := by
  cases v with
  | rand => exact List.all_eq_true.1 (by decide)
  | rank => exact List.all_eq_true.1 (by decide)
  | param digits index numeral =>
    intro c inside
    simp [Char.isAlphanum, isDigit_of_numeral numeral c inside]

theorem variableNamed_name (v : Variable) : variableNamed v.name = .ok v.token := by
  cases v with
  | rand => rfl
  | rank => rfl
  | param digits index numeral nameable =>
    obtain ⟨d, _, rest, same, first⟩ := numeral.uncons
    have digit := isDigit_of_value first
    have noWord : ∀ name : List Char, name.head? = some 'r' → digits ≠ name := by
      rintro _ head rfl
      rw [same] at head
      cases head
      cases digit
    have small : index < UInt64.size := Nat.lt_of_le_of_lt nameable.2 (by decide)
    change variableNamed digits = .ok (.param index)
    rw [variableNamed, if_neg (noWord _ rfl), if_neg (noWord _ rfl), if_neg (by simp [same]),
      numeral.readNat?_eq small]
    exact if_pos nameable

theorem exists_variable {name : List Char} {t : Token} (letters : ∀ c ∈ name, c.isAlphanum)
    (named : variableNamed name = .ok t) : ∃ v : Variable, v.name = name ∧ v.token = t := by
  unfold variableNamed at named
  split at named
  · next same =>
    cases named
    exact ⟨.rand, same.symm, rfl⟩
  split at named
  · next same =>
    cases named
    exact ⟨.rank, same.symm, rfl⟩
  split at named
  · cases named
  split at named
  · cases named
  · next index read =>
    split at named
    · next nameable =>
      cases named
      rcases Markup.numeral_of_readNat? read with numeral | ⟨digits, rfl, -⟩
      · exact ⟨.param name index numeral nameable, rfl, rfl⟩
      -- a plus sign is no part of a name
      · exact absurd (letters '+' List.mem_cons_self) (by decide)
    · cases named

/-! ## Single words -/

theorem symbol?_eq_some_iff {c : Char} {t : Token} : symbol? c = some t ↔ (c, t) ∈ symbols := by
  constructor
  · intro marked
    unfold symbol? at marked
    split at marked <;> cases marked <;> decide
  · intro known
    simp only [symbols, List.mem_cons, Prod.mk.injEq, List.not_mem_nil, or_false] at known
    rcases known with ⟨rfl, rfl⟩ | ⟨rfl, rfl⟩ | ⟨rfl, rfl⟩ | ⟨rfl, rfl⟩ | ⟨rfl, rfl⟩ | ⟨rfl, rfl⟩ |
      ⟨rfl, rfl⟩ <;> rfl

theorem isBlank_iff {c : Char} : isBlank c ↔ c ∈ [' ', '\t', '\r', '\n'] := by
  simp only [isBlank, Bool.or_eq_true, decide_eq_true_eq, List.mem_cons, List.not_mem_nil,
    or_false]
  tauto

theorem number_uncons {s : Shape} {n : Nat} (numeral : Numeral 10 s.mantissa n) :
    ∃ c rest, s.text = c :: rest ∧ (c.isDigit ∨ c = '.') := by
  obtain ⟨whole, fraction?, power?, isWhole, isFraction⟩ := s
  cases whole with
  | cons c whole => exact ⟨c, _, rfl, .inl (isWhole c List.mem_cons_self)⟩
  | nil =>
    cases fraction? with
    | some digits => exact ⟨'.', _, rfl, .inr rfl⟩
    | none =>
      obtain ⟨_, _, _, empty, -⟩ := numeral.uncons
      cases empty

theorem isBlank_of_begins {c : Char} (begins : (c.isDigit ∨ c = '.') ∨ c = '$') :
    isBlank c = false := by
  rcases begins with (digit | rfl) | rfl
  · exact isBlank_of_isDigit digit
  · rfl
  · rfl

theorem symbol?_of_begins {c : Char} (begins : (c.isDigit ∨ c = '.') ∨ c = '$') :
    symbol? c = none := by
  have other : ∀ entry ∈ symbols, entry.1.isDigit = false ∧ entry.1 ≠ '.' ∧ entry.1 ≠ '$' := by
    decide
  rw [Option.eq_none_iff_forall_ne_some]
  intro t marked
  obtain ⟨noDigit, noPoint, noName⟩ := other _ (symbol?_eq_some_iff.1 marked)
  rcases begins with (digit | point) | name
  · rw [noDigit] at digit
    cases digit
  · exact noPoint point
  · exact noName name

theorem Lexeme.readToken {l : Lexeme} {t : Token} {behind : List Char} (word : l.token? = some t)
    (complete : l.Complete behind) :
    ∃ c rest, l.text ++ behind = c :: rest ∧ isBlank c = false ∧
      Expr.readToken c rest = .ok (t, l.text) := by
  cases l with
  | blank => cases word
  | symbol c token known =>
    cases word
    have plain : ∀ entry ∈ symbols, isBlank entry.1 = false := by decide
    refine ⟨c, behind, rfl, plain _ known, ?_⟩
    rw [Expr.readToken, symbol?_eq_some_iff.2 known]
    rfl
  | number s digits numeral =>
    cases word
    have part := (isGreedy_numberPart.isLongest_iff ⟨s, rfl⟩).1 complete
    have read := readUnsigned?_text s
    obtain ⟨c, rest, same, begins⟩ := number_uncons numeral
    obtain ⟨d, _, _, mantissa, -⟩ := numeral.uncons
    rw [if_neg (by simp [mantissa]), numeral.digitsFrom?_eq, Option.map_some] at read
    refine ⟨c, rest ++ behind, by rw [text, same, List.cons_append],
      isBlank_of_begins (.inl begins), ?_⟩
    rw [same, List.cons_append, ← same] at part
    rw [Expr.readToken, symbol?_of_begins (.inl begins)]
    simp only [if_pos begins, part, read, text]
  | named v =>
    cases word
    have part := ((isGreedy_takeWhile _).isLongest_iff (isAlphanum_name v)).1 complete
    refine ⟨'$', v.name ++ behind, rfl, rfl, ?_⟩
    rw [Expr.readToken, symbol?_of_begins (.inr rfl)]
    simp [part, variableNamed_name, Except.map, text]

theorem Lexeme.exists_of_readToken {c : Char} {rest taken : List Char} {t : Token}
    (read : Expr.readToken c rest = .ok (t, taken)) :
    ∃ (l : Lexeme) (behind : List Char), l.token? = some t ∧ l.text = taken ∧
      c :: rest = l.text ++ behind ∧ l.Complete behind := by
  unfold Expr.readToken at read
  split at read
  · next marked =>
    cases read
    exact ⟨.symbol c t (symbol?_eq_some_iff.1 marked), rest, rfl, rfl, rfl, trivial⟩
  split at read
  · dsimp only at read
    split at read
    · next d number =>
      cases read
      obtain ⟨s, same⟩ := exists_shape (c :: rest)
      obtain ⟨behind, whole⟩ := isFront_number.begins (c :: rest)
      rw [← same] at number whole ⊢
      rw [readUnsigned?_text] at number
      split at number
      · cases number
      · next nonempty =>
        obtain ⟨n, digits, rfl⟩ := Option.map_eq_some_iff.1 number
        have numeral := Numeral.of_digitsFrom? (by simpa using nonempty) digits
        refine ⟨.number s n numeral, behind, rfl, rfl, whole.symm, ?_⟩
        refine (isGreedy_numberPart.isLongest_iff ⟨s, rfl⟩).2 ?_
        rw [whole, same]
    · cases read
  split at read
  · next isName =>
    subst isName
    dsimp only at read
    cases named : variableNamed (rest.takeWhile Char.isAlphanum) with
    | error problem =>
      rw [named] at read
      cases read
    | ok t =>
      rw [named] at read
      cases read
      obtain ⟨v, name, rfl⟩ := exists_variable (fun c inside => List.mem_takeWhile_imp inside) named
      obtain ⟨behind, whole⟩ := List.takeWhile_prefix Char.isAlphanum (l := rest)
      rw [← name] at whole ⊢
      refine ⟨.named v, behind, rfl, rfl, by rw [text, List.cons_append, whole], ?_⟩
      refine ((isGreedy_takeWhile _).isLongest_iff (isAlphanum_name v)).2 ?_
      rw [whole, name]
  · cases read

/-! ## Texts -/

theorem readTokens_of_spells {ls : List Lexeme} {cs : List Char} (spells : Spells ls cs)
    (start : Nat) (found : List Placed) :
    readTokens start found cs = .ok (found.reverse ++ placed start ls) := by
  induction spells generalizing start found with
  | nil =>
    rw [readTokens, placed, List.append_nil]
  | @cons l ls behind complete _ ih =>
    cases word : l.token? with
    | none =>
      cases l with
      | blank c white =>
        change readTokens start found (c :: behind) = _
        rw [readTokens_blank (isBlank_iff.2 white), ih, placed]
        simp [Lexeme.token?, Lexeme.text]
      | symbol | number | named => cases word
    | some t =>
      obtain ⟨c, rest, whole, plain, read⟩ := l.readToken word complete
      rw [whole, readTokens_token plain read, ← whole, List.drop_left, ih, placed, word]
      simp

theorem exists_spells_of_readTokens {start : Nat} {found words : List Placed} {cs : List Char}
    (read : readTokens start found cs = .ok words) :
    ∃ ls, Spells ls cs ∧ words = found.reverse ++ placed start ls := by
  induction start, found, cs using readTokens.induct with
  | case1 start found =>
    rw [readTokens] at read
    cases read
    exact ⟨[], .nil, (List.append_nil _).symm⟩
  | case2 start found c rest white ih =>
    rw [readTokens_blank white] at read
    obtain ⟨ls, spells, rfl⟩ := ih read
    refine ⟨.blank c (isBlank_iff.1 white) :: ls, .cons trivial spells, ?_⟩
    simp [placed, Lexeme.token?, Lexeme.text]
  | case3 start found c rest solid problem failed =>
    rw [readTokens_error (by simpa using solid) failed] at read
    cases read
  | case4 start found c rest solid t taken first ih =>
    rw [readTokens_token (by simpa using solid) first] at read
    obtain ⟨ls, spells, rfl⟩ := ih read
    obtain ⟨l, behind, word, rfl, whole, complete⟩ := Lexeme.exists_of_readToken first
    rw [whole, List.drop_left] at spells
    rw [whole]
    exact ⟨l :: ls, .cons complete spells, by simp [placed, word]⟩

/-- The words of a text are read exactly if it is blanks and words, all as long as they can be. -/
theorem tokenize_eq_ok_iff {cs : List Char} {words : List Placed} :
    tokenize cs = .ok words ↔ ∃ ls, Spells ls cs ∧ placed 0 ls = words := by
  constructor
  · intro read
    obtain ⟨ls, spells, rfl⟩ := exists_spells_of_readTokens read
    exact ⟨ls, spells, rfl⟩
  · rintro ⟨ls, spells, rfl⟩
    exact readTokens_of_spells spells 0 []

/-! ## Places -/

theorem Lexeme.byteLength_pos (l : Lexeme) : 0 < Text.byteLength l.text := by
  have nonempty : ∃ c rest, l.text = c :: rest := by
    cases l with
    | blank c | symbol c => exact ⟨c, [], rfl⟩
    | number s digits numeral =>
      obtain ⟨c, rest, same, -⟩ := number_uncons numeral
      exact ⟨c, rest, same⟩
    | named v => exact ⟨'$', v.name, rfl⟩
  obtain ⟨c, rest, same⟩ := nonempty
  have first := c.utf8Size_pos
  rw [same, Text.byteLength_cons]
  omega

namespace Spells

variable {ls : List Lexeme} {cs : List Char}

theorem exists_split (spells : Spells ls cs) (start : Nat) :
    ∀ w ∈ placed start ls, ∃ before rest, cs = before ++ rest ∧
      w.offset = start + Text.byteLength before := by
  induction spells generalizing start with
  | nil => exact fun w member => nomatch member
  | @cons l ls behind _ _ ih =>
    intro w member
    rcases List.mem_append.1 member with here | later
    · obtain ⟨t, -, rfl⟩ := Option.map_eq_some_iff.1 (Option.mem_toList.1 here)
      exact ⟨[], _, rfl, rfl⟩
    · obtain ⟨before, rest, rfl, place⟩ := ih _ w later
      refine ⟨l.text ++ before, rest, (List.append_assoc ..).symm, ?_⟩
      rw [place, Text.byteLength_append, Nat.add_assoc]

theorem increasing (spells : Spells ls cs) (start : Nat) :
    ((placed start ls).map Placed.offset ++ [start + Text.byteLength cs]).Pairwise (· < ·) := by
  induction spells generalizing start with
  | nil => exact List.pairwise_singleton _ _
  | @cons l ls behind _ further ih =>
    have positive := l.byteLength_pos
    have later := ih (start + Text.byteLength l.text)
    rw [Nat.add_assoc, ← Text.byteLength_append] at later
    cases word : l.token? with
    | none => simpa [placed, word] using later
    | some t =>
      rw [placed, word, Option.map_some, Option.toList_some]
      refine List.pairwise_cons.2 ⟨fun offset member => ?_, later⟩
      change start < offset
      rcases List.mem_append.1 member with inside | final
      · obtain ⟨w, among, rfl⟩ := List.mem_map.1 inside
        obtain ⟨before, rest, -, place⟩ := further.exists_split _ w among
        omega
      · rw [List.mem_singleton.1 final, Text.byteLength_append]
        omega

end Spells

end Barrage.Expr
