import Barrage.Proofs.Expression.Words

/-!
What an expression says, apart from how it is written. White space at the ends of a text belongs to
no expression, and blanks between the words of one change neither its term nor what is wrong with
it, as long as the text is not too long.
-/

set_option autoImplicit false

namespace Barrage

namespace Text

variable {front back cs : List Char}

theorem trim_append_left (blank : ∀ c ∈ front, isBlank c) : trim (front ++ cs) = trim cs := by
  rw [trim, List.dropWhile_append_of_pos blank, trim]

theorem trim_append_right (blank : ∀ c ∈ back, isBlank c) : trim (cs ++ back) = trim cs := by
  have blank' : ∀ c ∈ back.reverse, isBlank c := fun c member => blank c (List.mem_reverse.1 member)
  rw [trim, trim, List.dropWhile_append]
  split
  · next empty =>
    rw [List.dropWhile_eq_nil_iff.2 blank, List.isEmpty_iff.1 empty]
  · rw [List.reverse_append, List.dropWhile_append_of_pos blank']

theorem not_isBlank_of_trim {c : Char} {rest : List Char} (trimmed : trim cs = c :: rest) :
    isBlank c = false := by
  -- the first character is the last one behind the blanks, read backwards
  have last : ((cs.dropWhile isBlank).reverse.dropWhile isBlank).getLast? = some c := by
    rw [← List.head?_reverse]
    exact congrArg List.head? trimmed
  obtain ⟨front, whole⟩ := List.dropWhile_suffix (l := (cs.dropWhile isBlank).reverse) isBlank
  have first : (cs.dropWhile isBlank).head? = some c := by
    rw [← List.getLast?_reverse, ← whole, List.getLast?_append, last]
    rfl
  have edge := List.head?_dropWhile_not isBlank cs
  rwa [first] at edge

end Text

namespace Expr

theorem isBlank_of_blank {c : Char} (white : isBlank c) : Text.isBlank c := by
  simp only [isBlank, Bool.or_eq_true, decide_eq_true_eq] at white
  rcases white with ((rfl | rfl) | rfl) | rfl <;> decide

theorem Spaced.of_nil {ds : List Char} (spaced : Spaced [] ds) : ∀ c ∈ ds, Text.isBlank c := by
  generalize empty : ([] : List Char) = cs at spaced
  induction spaced with
  | nil => exact fun c member => (nomatch member)
  | blank | word => cases empty
  | gap white _ ih =>
    intro c member
    rcases List.mem_cons.1 member with rfl | member
    · exact isBlank_of_blank white
    · exact ih empty c member

theorem Spaced.eq_nil {cs : List Char} (spaced : Spaced cs []) : cs = [] := by
  generalize empty : ([] : List Char) = ds at spaced
  cases spaced with
  | nil => rfl
  | blank | gap => cases empty
  | word => exact absurd (List.append_eq_nil_iff.1 empty.symm).1 (wordFrom_ne_nil _ _)

end Expr

def ExpressionError.unplaced : ExpressionError → ExpressionError
  | malformed _ problem _ => malformed "" problem 0
  | tooLong _ => tooLong 0
  | tooDeep _ => tooDeep ""
  | unbound index => unbound index

namespace Expression

/-- What a text says as an expression: its term, or what is wrong with it. -/
def meaning (text : String) : Except ExpressionError (Option Term) :=
  ((parse text).map (·.term?)).mapError ExpressionError.unplaced

def ofTrimmed (cs : List Char) : Except ExpressionError Expression :=
  if cs.isEmpty then .ok {}
  else match Expr.tokenize cs with
    | .error (problem, offset) => .error (.malformed (String.ofList cs) problem offset)
    | .ok words => match Expr.readTerm (Text.byteLength cs) words with
      | .ok t => .ok { source := String.ofList cs, term? := some t }
      | .error (.problem p, offset) => .error (.malformed (String.ofList cs) p offset)
      | .error (.tooDeep, _) => .error (.tooDeep (String.ofList cs))

theorem parse_of_short {text : String} (short : text.utf8ByteSize ≤ maxLength) :
    parse text = ofTrimmed (Text.trim text.toList) := by
  rw [parse, if_neg (Nat.not_lt.2 short)]
  rfl

theorem parse_of_long {text : String} (long : maxLength < text.utf8ByteSize) :
    parse text = .error (.tooLong text.utf8ByteSize) := by
  rw [parse, if_pos long]

def sourceOf : Except ExpressionError Expression → Option String
  | .ok e => some e.source
  | .error (.malformed source ..) | .error (.tooDeep source) => some source
  | .error _ => none

theorem sourceOf_ofTrimmed (cs : List Char) :
    sourceOf (ofTrimmed cs) = some (String.ofList cs) := by
  unfold ofTrimmed
  split
  · next empty =>
    rw [List.isEmpty_iff.1 empty]
    rfl
  · split
    · rfl
    · split <;> rfl

theorem ofTrimmed_injective : Function.Injective ofTrimmed := by
  intro cs ds same
  have source := congrArg sourceOf same
  rw [sourceOf_ofTrimmed, sourceOf_ofTrimmed] at source
  exact String.ofList_injective (Option.some.inj source)

theorem ofTrimmed_ne_tooLong {cs : List Char} {length : Nat} :
    ofTrimmed cs ≠ .error (.tooLong length) := by
  intro same
  have source := sourceOf_ofTrimmed cs
  rw [same] at source
  cases source

/-- Two texts are the same expression exactly if they are the same apart from white space at their
ends, or if both are too long by the same. -/
theorem parse_eq_iff {a b : String} :
    parse a = parse b ↔
      (a.utf8ByteSize ≤ maxLength ∧ b.utf8ByteSize ≤ maxLength ∧
        Text.trim a.toList = Text.trim b.toList) ∨
      (maxLength < a.utf8ByteSize ∧ a.utf8ByteSize = b.utf8ByteSize) := by
  rcases Nat.lt_or_ge maxLength a.utf8ByteSize with longA | shortA <;>
    rcases Nat.lt_or_ge maxLength b.utf8ByteSize with longB | shortB
  · rw [parse_of_long longA, parse_of_long longB]
    simp [Nat.not_le.2 longA, longA]
  · rw [parse_of_long longA, parse_of_short shortB]
    refine iff_of_false ofTrimmed_ne_tooLong.symm ?_
    omega
  · rw [parse_of_short shortA, parse_of_long longB]
    refine iff_of_false ofTrimmed_ne_tooLong ?_
    omega
  · rw [parse_of_short shortA, parse_of_short shortB, ofTrimmed_injective.eq_iff]
    simp [shortA, shortB, Nat.not_lt.2 shortA]

/-- What a text without white space at its ends says does not depend on the blanks between its
words. -/
theorem ofTrimmed_spaced {cs ds : List Char} (spaced : Expr.Spaced cs ds)
    (edge : ∀ c ∈ ds.head?, Text.isBlank c = false) :
    ((ofTrimmed cs).map (·.term?)).mapError ExpressionError.unplaced =
      ((ofTrimmed ds).map (·.term?)).mapError ExpressionError.unplaced := by
  have empty : cs = [] ↔ ds = [] := by
    constructor
    · rintro rfl
      cases ds with
      | nil => rfl
      | cons c rest =>
        have white := spaced.of_nil c List.mem_cons_self
        rw [edge c rfl] at white
        cases white
    · rintro rfl
      exact spaced.eq_nil
  by_cases bare : cs = []
  · rw [bare, empty.1 bare]
  have nonempty : ds ≠ [] := fun bareToo => bare (empty.2 bareToo)
  have words := Expr.readTokens_spaced spaced 0 0 [] [] rfl
  rw [ofTrimmed, ofTrimmed, if_neg (by simpa using bare), if_neg (by simpa using nonempty)]
  unfold Expr.tokenize
  cases read : Expr.readTokens 0 [] cs <;> cases read' : Expr.readTokens 0 [] ds <;>
    rw [read, read'] at words
  case error.error e e' =>
    have problem : e.1 = e'.1 := Except.error.inj words
    simp [problem, Except.map, Except.mapError, ExpressionError.unplaced]
  case ok.ok found found' =>
    have tokens : found.map Expr.Placed.token = found'.map Expr.Placed.token :=
      Except.ok.inj words
    have terms := Expr.run_unplaced tokens {} (Text.byteLength cs) (Text.byteLength ds)
    dsimp only [Expr.readTerm]
    generalize ({} : Expr.Reader).run (Text.byteLength cs) found = result at terms ⊢
    generalize ({} : Expr.Reader).run (Text.byteLength ds) found' = result' at terms ⊢
    rcases result with ⟨stopped, offset⟩ | t <;> rcases result' with ⟨stopped', offset'⟩ | t'
    case error.error =>
      obtain rfl : stopped = stopped' := Except.error.inj terms
      cases stopped <;> rfl
    case ok.ok =>
      obtain rfl : t = t' := Except.ok.inj terms
      rfl
    all_goals cases terms
  all_goals cases words

/-- Texts that are not too long say the same if one is the other with blanks put between its words;
white space at the ends does not count. -/
theorem meaning_spaced {a b : String} (shortA : a.utf8ByteSize ≤ maxLength)
    (shortB : b.utf8ByteSize ≤ maxLength)
    (spaced : Expr.Spaced (Text.trim a.toList) (Text.trim b.toList)) : meaning a = meaning b := by
  rw [meaning, meaning, parse_of_short shortA, parse_of_short shortB]
  refine ofTrimmed_spaced spaced fun c first => ?_
  obtain ⟨rest, trimmed⟩ := List.head?_eq_some_iff.1 first
  exact Text.not_isBlank_of_trim trimmed

end Expression

end Barrage
