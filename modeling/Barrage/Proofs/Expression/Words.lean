import Barrage.Expression.Basic
import Mathlib.Data.List.TakeWhile
import Mathlib.Data.List.Infix

/-!
The words of an expression do not depend on the blanks between them. A word is found by looking at
the text up to the next blank only, so more blanks behind it change nothing, and a term does not
depend on where its words stand.
-/

set_option autoImplicit false

namespace Barrage.Expr

/-! ## Fronts -/

/-- Every beginning of one text that has no blank is a beginning of another one. -/
def Within (inner outer : List Char) : Prop :=
  ∀ part : List Char, (∀ c ∈ part, isBlank c = false) → part <+: inner → part <+: outer

/-- Something that takes a beginning without blanks off a text, and looks at no blank and at nothing
behind one. -/
structure IsFront (take : List Char → List Char) : Prop where
  begins : ∀ cs, take cs <+: cs
  solid : ∀ cs, ∀ c ∈ take cs, isBlank c = false
  same : ∀ {cs ds}, Within ds cs → take cs <+: ds → take ds = take cs

namespace Within

variable {inner outer : List Char}

theorem of_begins (begins : inner <+: outer) : Within inner outer :=
  fun _ _ part => part.trans begins

theorem append_left (front : List Char) (within : Within inner outer) :
    Within (front ++ inner) (front ++ outer) := by
  intro part solid begins
  rcases List.prefix_or_prefix_of_prefix begins (List.prefix_append front inner) with
    inside | ⟨rest, rfl⟩
  · exact inside.trans (List.prefix_append front outer)
  · rw [List.prefix_append_right_inj] at begins ⊢
    exact within rest (fun c member => solid c (List.mem_append_right _ member)) begins

theorem of_append {front : List Char} (solid : ∀ c ∈ front, isBlank c = false)
    (within : Within (front ++ inner) (front ++ outer)) : Within inner outer := by
  intro part solid' begins
  rw [← List.prefix_append_right_inj front] at begins ⊢
  refine within _ (fun c member => ?_) begins
  exact (List.mem_append.1 member).elim (solid c) (solid' c)

theorem cons (c : Char) (within : Within inner outer) : Within (c :: inner) (c :: outer) :=
  within.append_left [c]

theorem blank {c : Char} (white : isBlank c) (rest : List Char) : Within (c :: rest) outer := by
  intro part solid begins
  cases part with
  | nil => exact List.nil_prefix
  | cons d part =>
    rw [(List.cons_prefix_cons.1 begins).1] at solid
    rw [solid c List.mem_cons_self] at white
    cases white

theorem uncons {c : Char} {rest : List Char} (within : Within (c :: rest) outer)
    (plain : isBlank c = false) : ∃ others, outer = c :: others ∧ Within rest others := by
  have solid : ∀ d ∈ [c], isBlank d = false := by simpa using plain
  obtain ⟨others, rfl⟩ := within [c] solid (List.prefix_append [c] rest)
  exact ⟨others, rfl, of_append solid within⟩

end Within

namespace IsFront

theorem takeWhile {p : Char → Bool} (solid : ∀ c, p c → isBlank c = false) :
    IsFront (List.takeWhile p) where
  begins cs := List.takeWhile_prefix p
  solid cs c member := solid c (List.mem_takeWhile_imp member)
  same := by
    intro cs ds within front
    have whole : ∀ {part text : List Char}, (∀ c ∈ part, p c) → part <+: text →
        part <+: text.takeWhile p := by
      rintro part _ all ⟨rest, rfl⟩
      rw [List.takeWhile_append_of_pos all]
      exact List.prefix_append _ _
    have all : ∀ {text : List Char}, ∀ c ∈ text.takeWhile p, p c :=
      fun c member => List.mem_takeWhile_imp member
    refine List.IsPrefix.eq_of_length_le (whole all (within _ ?_ (List.takeWhile_prefix p))) ?_
    · exact fun c member => solid c (all c member)
    · exact (whole all front).length_le

theorem behind {take : List Char → List Char} (isFront : IsFront take) (cs : List Char) :
    take cs ++ cs.drop (take cs).length = cs := by
  obtain ⟨rest, whole⟩ := isFront.begins cs
  have same : cs.drop (take cs).length = rest :=
    (congrArg (List.drop (take cs).length) whole.symm).trans List.drop_left
  rw [same, whole]

theorem seq {first next : List Char → List Char} (isFirst : IsFront first)
    (isNext : IsFront next) :
    IsFront fun cs => first cs ++ next (cs.drop (first cs).length) where
  begins cs := by
    have begins := (List.prefix_append_right_inj (first cs)).2
      (isNext.begins (cs.drop (first cs).length))
    rwa [isFirst.behind] at begins
  solid cs c member :=
    (List.mem_append.1 member).elim (isFirst.solid cs c) (isNext.solid _ c)
  same := by
    intro cs ds within front
    have former : first ds = first cs := isFirst.same within ((List.prefix_append _ _).trans front)
    have whole := isFirst.behind ds
    rw [former] at whole
    have inner : Within (ds.drop (first cs).length) (cs.drop (first cs).length) := by
      apply Within.of_append (isFirst.solid cs)
      rwa [whole, isFirst.behind]
    have later : next (cs.drop (first cs).length) <+: ds.drop (first cs).length := by
      rw [← List.prefix_append_right_inj (first cs), whole]
      exact front
    rw [former, isNext.same inner later]

end IsFront

/-! ## Words -/

theorem isBlank_of_isAlphanum {c : Char} (letter : c.isAlphanum) : isBlank c = false := by
  cases white : isBlank c with
  | false => rfl
  | true =>
    simp only [isBlank, Bool.or_eq_true, decide_eq_true_eq] at white
    rcases white with ((rfl | rfl) | rfl) | rfl <;> exact absurd letter (by decide)

theorem isBlank_of_isDigit {c : Char} (digit : c.isDigit) : isBlank c = false :=
  isBlank_of_isAlphanum (by simp [Char.isAlphanum, digit])

theorem isFront_digits : IsFront (List.takeWhile Char.isDigit) :=
  .takeWhile fun _ => isBlank_of_isDigit

theorem isFront_fraction : IsFront fractionPart where
  begins cs := by
    unfold fractionPart
    split
    · exact List.cons_prefix_cons.2 ⟨rfl, List.takeWhile_prefix _⟩
    · exact List.nil_prefix
  solid cs c member := by
    unfold fractionPart at member
    split at member
    · rcases List.mem_cons.1 member with rfl | member
      · rfl
      · exact isFront_digits.solid _ c member
    · cases member
  same := by
    intro cs ds within front
    unfold fractionPart at front
    split at front
    · next rest =>
      obtain ⟨others, rfl⟩ : ∃ others, ds = '.' :: others := by
        obtain ⟨others, rfl⟩ := front
        exact ⟨_, rfl⟩
      have inner : Within others rest :=
        @Within.of_append _ _ ['.'] (fun c member => List.mem_singleton.1 member ▸ rfl) within
      have digits := isFront_digits.same inner (List.cons_prefix_cons.1 front).2
      simp only [fractionPart, digits]
    · next other =>
      have empty : fractionPart cs = [] := by
        unfold fractionPart
        split
        · exact absurd rfl (other _)
        · rfl
      rw [empty]
      unfold fractionPart
      split
      -- a point in the one text would be one in the other
      · next rest =>
        obtain ⟨others, rfl, -⟩ := within.uncons (by decide)
        exact absurd rfl (other others)
      · rfl

def exponentMarks : List (List Char) :=
  [['e'], ['E'], ['e', '+'], ['E', '+'], ['e', '-'], ['E', '-']]

theorem exponentPart_of_mark {mark rest : List Char} {d : Char} (isMark : mark ∈ exponentMarks)
    (digit : d.isDigit) :
    exponentPart (mark ++ d :: rest) = mark ++ (d :: rest).takeWhile Char.isDigit := by
  have unsigned : ¬(d = '+' ∨ d = '-') := by
    rintro (rfl | rfl) <;> exact absurd digit (by decide)
  simp only [exponentMarks, List.mem_cons, List.not_mem_nil, or_false] at isMark
  rcases isMark with rfl | rfl | rfl | rfl | rfl | rfl <;>
    simp [exponentPart, digit, unsigned]

theorem solid_exponentMarks : ∀ mark ∈ exponentMarks, ∀ c ∈ mark, isBlank c = false := by
  have all : exponentMarks.all (fun mark => mark.all fun c => !isBlank c) = true := rfl
  intro mark isMark c member
  have solid := List.all_eq_true.1 (List.all_eq_true.1 all mark isMark) c member
  simpa using solid

theorem exponentPart_cases (cs : List Char) :
    exponentPart cs = [] ∨
      ∃ mark ∈ exponentMarks, ∃ d rest, d.isDigit ∧ cs = mark ++ d :: rest := by
  cases cs with
  | nil => exact .inl rfl
  | cons e rest =>
    by_cases isE : e = 'e' ∨ e = 'E'
    · have plain : [e] ∈ exponentMarks := by rcases isE with rfl | rfl <;> decide
      cases rest with
      | nil => exact .inl (by simp [exponentPart])
      | cons s rest =>
        by_cases signed : s = '+' ∨ s = '-'
        · have isMark : [e, s] ∈ exponentMarks := by
            rcases isE with rfl | rfl <;> rcases signed with rfl | rfl <;> decide
          cases rest with
          | nil => exact .inl (by simp [exponentPart, signed])
          | cons d rest =>
            by_cases digit : d.isDigit
            · exact .inr ⟨[e, s], isMark, d, rest, digit, rfl⟩
            · exact .inl (by simp [exponentPart, signed, digit])
        · by_cases digit : s.isDigit
          · exact .inr ⟨[e], plain, s, rest, digit, rfl⟩
          · exact .inl (by simp [exponentPart, signed, digit])
    · exact .inl (by simp [exponentPart, isE])

theorem isFront_exponent : IsFront exponentPart where
  begins cs := by
    rcases exponentPart_cases cs with noExponent | ⟨mark, isMark, d, rest, digit, rfl⟩
    · rw [noExponent]
      exact List.nil_prefix
    · rw [exponentPart_of_mark isMark digit]
      exact (List.prefix_append_right_inj mark).2 (List.takeWhile_prefix _)
  solid cs c member := by
    rcases exponentPart_cases cs with noExponent | ⟨mark, isMark, d, rest, digit, rfl⟩
    · rw [noExponent] at member
      cases member
    · rw [exponentPart_of_mark isMark digit] at member
      exact (List.mem_append.1 member).elim (solid_exponentMarks mark isMark c)
        (isFront_digits.solid _ c)
  same := by
    intro cs ds within front
    rcases exponentPart_cases cs with noExponent | ⟨mark, isMark, d, rest, digit, rfl⟩
    · rcases exponentPart_cases ds with noneToo | ⟨mark, isMark, d, rest, digit, rfl⟩
      · rw [noExponent, noneToo]
      -- the mark and the digit would be there in the other text too
      · have solid : ∀ c ∈ mark ++ [d], isBlank c = false := by
          intro c member
          rcases List.mem_append.1 member with inMark | last
          · exact solid_exponentMarks mark isMark c inMark
          · exact List.mem_singleton.1 last ▸ isBlank_of_isDigit digit
        obtain ⟨others, rfl⟩ := within _ solid ⟨rest, by simp⟩
        rw [List.append_assoc, List.singleton_append, exponentPart_of_mark isMark digit]
          at noExponent
        simp [digit] at noExponent
    · rw [exponentPart_of_mark isMark digit] at front ⊢
      have first : (d :: rest).takeWhile Char.isDigit = d :: rest.takeWhile Char.isDigit :=
        List.takeWhile_cons_of_pos digit
      obtain ⟨behind, rfl⟩ := front
      rw [List.append_assoc] at within ⊢
      have inner := Within.of_append (solid_exponentMarks mark isMark) within
      have digits := isFront_digits.same inner (List.prefix_append _ _)
      rw [first] at digits ⊢
      rw [List.cons_append] at digits ⊢
      rw [exponentPart_of_mark isMark digit, digits]

theorem isFront_number : IsFront numberPart := by
  have whole := isFront_digits.seq (isFront_fraction.seq isFront_exponent)
  have same : numberPart = fun cs => cs.takeWhile Char.isDigit ++
      (fractionPart (cs.drop (cs.takeWhile Char.isDigit).length) ++
        exponentPart ((cs.drop (cs.takeWhile Char.isDigit).length).drop
          (fractionPart (cs.drop (cs.takeWhile Char.isDigit).length)).length)) := by
    funext cs
    rw [numberPart, List.drop_drop, List.append_assoc]
  rw [same]
  exact whole

def wordFrom (c : Char) (rest : List Char) : List Char :=
  if (symbol? c).isSome then [c]
  else if c.isDigit ∨ c = '.' then numberPart (c :: rest)
  else if c = '$' then c :: rest.takeWhile Char.isAlphanum
  else [c]

theorem wordFrom_begins (c : Char) (rest : List Char) : wordFrom c rest <+: c :: rest := by
  unfold wordFrom
  split
  · exact List.prefix_append [c] rest
  split
  · exact isFront_number.begins _
  split
  · exact List.cons_prefix_cons.2 ⟨rfl, List.takeWhile_prefix _⟩
  · exact List.prefix_append [c] rest

theorem wordFrom_ne_nil (c : Char) (rest : List Char) : wordFrom c rest ≠ [] := by
  unfold wordFrom
  split
  · simp
  split
  · next number => exact numberPart_ne_nil number
  split <;> simp

theorem wordFrom_uncons (c : Char) (rest : List Char) : ∃ tail, wordFrom c rest = c :: tail := by
  obtain ⟨behind, whole⟩ := wordFrom_begins c rest
  cases part : wordFrom c rest with
  | nil => exact absurd part (wordFrom_ne_nil c rest)
  | cons d tail =>
    rw [part] at whole
    exact ⟨tail, congrArg (· :: tail) (List.cons.inj whole).1⟩

theorem wordFrom_same {c : Char} {rest others : List Char} (within : Within others rest)
    (front : wordFrom c rest <+: c :: others) : wordFrom c others = wordFrom c rest := by
  unfold wordFrom at front ⊢
  split
  · rfl
  next unmarked =>
  rw [if_neg unmarked] at front
  split
  · next number =>
    rw [if_pos number] at front
    exact isFront_number.same (within.cons c) front
  next other =>
  rw [if_neg other] at front
  split
  · next isName =>
    rw [if_pos isName, List.cons_prefix_cons] at front
    have letters : IsFront (List.takeWhile Char.isAlphanum) :=
      .takeWhile fun _ => isBlank_of_isAlphanum
    rw [letters.same within front.2]
  · rfl

/-! ## Reading words -/

theorem readToken_taken {c : Char} {rest taken : List Char} {t : Token}
    (read : readToken c rest = .ok (t, taken)) : taken = wordFrom c rest := by
  unfold readToken at read
  unfold wordFrom
  split at read
  · next marked =>
    cases read
    rw [if_pos (by rw [marked]; rfl)]
  · next unmarked =>
    rw [if_neg (by rw [unmarked]; simp)]
    split at read
    · next number =>
      dsimp only at read
      split at read
      · cases read
        rw [if_pos number]
      · cases read
    · next other =>
      rw [if_neg other]
      split at read
      · next isName =>
        rw [if_pos isName]
        dsimp only at read
        cases named : variableNamed (rest.takeWhile Char.isAlphanum) with
        | error problem =>
          rw [named] at read
          cases read
        | ok v =>
          rw [named] at read
          cases read
          rfl
      · cases read

theorem readToken_congr {c : Char} {rest others : List Char}
    (same : wordFrom c rest = wordFrom c others) : readToken c rest = readToken c others := by
  unfold wordFrom at same
  unfold readToken
  split
  · rfl
  next unmarked =>
  have unmarked' : ¬ (symbol? c).isSome := by rw [unmarked]; simp
  rw [if_neg unmarked', if_neg unmarked'] at same
  split
  · next number =>
    rw [if_pos number, if_pos number] at same
    rw [same]
  next other =>
  rw [if_neg other, if_neg other] at same
  split
  · next isName =>
    rw [if_pos isName, if_pos isName, List.cons.injEq] at same
    dsimp only
    rw [same.2]
  · rfl

section ReadTokens

variable {c : Char} {rest taken : List Char} {start : Nat} {found : List Placed}

theorem readTokens_blank (white : isBlank c) :
    readTokens start found (c :: rest) = readTokens (start + c.utf8Size) found rest := by
  rw [readTokens, if_pos white]

theorem readTokens_error {problem : Problem} (plain : isBlank c = false)
    (failed : readToken c rest = .error problem) :
    readTokens start found (c :: rest) = .error (problem, start) := by
  rw [readTokens, if_neg (by simp [plain])]
  split
  · next other => rw [failed] at other; cases other; rfl
  · next other => rw [failed] at other; cases other

theorem readTokens_token {t : Token} (plain : isBlank c = false)
    (read : readToken c rest = .ok (t, taken)) :
    readTokens start found (c :: rest) =
      readTokens (start + Text.byteLength taken) (⟨t, start⟩ :: found)
        ((c :: rest).drop taken.length) := by
  rw [readTokens, if_neg (by simp [plain])]
  split
  · next other => rw [read] at other; cases other
  · next other => rw [read] at other; cases other; rfl

end ReadTokens

/-! ## Blanks between words -/

inductive Spaced : List Char → List Char → Prop where
  | nil : Spaced [] []
  | blank {c : Char} {cs ds : List Char} (white : isBlank c) (behind : Spaced cs ds) :
      Spaced (c :: cs) (c :: ds)
  | word {c : Char} {rest cs ds : List Char} (plain : isBlank c = false)
      (whole : c :: rest = wordFrom c rest ++ cs) (behind : Spaced cs ds) :
      Spaced (c :: rest) (wordFrom c rest ++ ds)
  | gap {c : Char} {cs ds : List Char} (white : isBlank c) (behind : Spaced cs ds) :
      Spaced cs (c :: ds)

theorem Spaced.within {cs ds : List Char} (spaced : Spaced cs ds) : Within ds cs := by
  induction spaced with
  | nil => exact .of_begins List.nil_prefix
  | blank white _ _ => exact .blank white _
  | word _ whole _ ih =>
    rw [whole]
    exact ih.append_left _
  | gap white _ _ => exact .blank white _

def unplaced (read : Except (Problem × Nat) (List Placed)) : Except Problem (List Token) :=
  (read.mapError Prod.fst).map (List.map Placed.token)

theorem readTokens_spaced {cs ds : List Char} (spaced : Spaced cs ds) (start start' : Nat)
    (found found' : List Placed) (same : found.map Placed.token = found'.map Placed.token) :
    unplaced (readTokens start found cs) = unplaced (readTokens start' found' ds) := by
  induction spaced generalizing start start' found found' with
  | nil =>
    rw [readTokens, readTokens]
    simp [unplaced, Except.map, Except.mapError, same]
  | blank white _ ih =>
    rw [readTokens_blank white, readTokens_blank white]
    exact ih _ _ _ _ same
  | gap white _ ih =>
    rw [readTokens_blank white]
    exact ih _ _ _ _ same
  | @word c rest cs ds plain whole behind ih =>
    -- the word is the same in front of what is behind it in either text
    obtain ⟨tail, part⟩ := wordFrom_uncons c rest
    have shape : wordFrom c rest ++ ds = c :: (tail ++ ds) := by rw [part, List.cons_append]
    have kept : wordFrom c (tail ++ ds) = wordFrom c rest := by
      have within : Within (wordFrom c rest ++ ds) (c :: rest) := by
        rw [whole]
        exact behind.within.append_left _
      rw [shape] at within
      refine wordFrom_same (@Within.of_append _ _ [c] (by simpa using plain) within) ?_
      rw [← shape]
      exact List.prefix_append _ _
    have readSame : readToken c (tail ++ ds) = readToken c rest := readToken_congr kept
    rw [shape]
    cases read : readToken c rest with
    | error problem =>
      rw [readTokens_error plain read, readTokens_error plain (readSame.trans read)]
      rfl
    | ok result =>
      obtain ⟨t, taken⟩ := result
      rw [readTokens_token plain read, readTokens_token plain (readSame.trans read), ← shape,
        readToken_taken read, whole, List.drop_left, List.drop_left]
      exact ih _ _ _ _ (by simp [same])

/-- What a term is or why there is none does not depend on where its words stand. -/
theorem run_unplaced {words words' : List Placed}
    (same : words.map Placed.token = words'.map Placed.token) (r : Reader) (stop stop' : Nat) :
    (r.run stop words).mapError Prod.fst = (r.run stop' words').mapError Prod.fst := by
  induction words generalizing words' r with
  | nil =>
    obtain rfl : words' = [] := by simpa using same.symm
    rw [Reader.run, Reader.run]
    cases r.result <;> rfl
  | cons w words ih =>
    cases words' with
    | nil => cases same
    | cons w' words' =>
      obtain ⟨token, behind⟩ := List.cons.inj same
      rw [Reader.run, Reader.run, ← token]
      cases r.step w.token with
      | ok r => exact ih behind r
      | error e => rfl

end Barrage.Expr
