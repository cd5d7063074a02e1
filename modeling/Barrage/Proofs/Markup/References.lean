import Barrage.Proofs.Markup.Escaping
import Barrage.Proofs.Task.Order
import Mathlib.Data.List.Induction

/-!
Which texts are decoded. Every ampersand has to begin a reference, and where the first one stands
that begins none, decoding stops. Apart from the references of the format, those with a plus sign
before their digits are taken: numbers may have one wherever they are read.
-/

set_option autoImplicit false

namespace Barrage.Markup

/-! ## Texts with references -/

/-- A reference to a number with a plus sign. -/
inductive Signed : List Char → Char → Prop where
  | decimal {digits : List Char} {c : Char} (numeral : Numeral 10 digits c.toNat)
      (short : Text.byteLength ('#' :: '+' :: digits) ≤ longestBody) :
      Signed ('#' :: '+' :: digits) c
  | hexadecimal {digits : List Char} {c : Char} (numeral : Numeral 16 digits c.toNat)
      (short : Text.byteLength ('#' :: 'x' :: '+' :: digits) ≤ longestBody) :
      Signed ('#' :: 'x' :: '+' :: digits) c

def Taken (body : List Char) (c : Char) : Prop := Spells body c ∨ Signed body c

/-- An ampersand before a text begins a reference. It is closed by the first semicolon. -/
def Begins (names : List Char → Char → Prop) (behind : List Char) : Prop :=
  ∃ body c rest, behind = body ++ ';' :: rest ∧ ';' ∉ body ∧ names body c

def AllBegin (names : List Char → Char → Prop) (cs : List Char) : Prop :=
  ∀ before after, cs = before ++ '&' :: after → Begins names after

/-- The first ampersand of a text that begins no reference stands between two parts of it. -/
structure FirstBare (names : List Char → Char → Prop) (cs before after : List Char) : Prop where
  split : cs = before ++ '&' :: after
  bare : ¬ Begins names after
  good : ∀ front back, before = front ++ '&' :: back → Begins names (back ++ '&' :: after)

/-- Decoding a text from a position takes certain references and no others. -/
structure Judges (names : List Char → Char → Prop) (p : Position) (cs : List Char) : Prop where
  accepts_iff : (∃ content, decode p cs = .ok content) ↔ AllBegin names cs
  rejects : ∀ before after, FirstBare names cs before after →
    ∃ name, decode p cs = .error ⟨name, p.advanceAll before⟩

section Bare

variable {names other : List Char → Char → Prop} {cs chunk before after more : List Char}

theorem allBegin_or_firstBare (names : List Char → Char → Prop) (cs : List Char) :
    AllBegin names cs ∨ ∃ before after, FirstBare names cs before after := by
  induction cs with
  | nil => exact .inl fun before after split => by simp at split
  | cons c cs ih =>
    by_cases bare : c = '&' ∧ ¬ Begins names cs
    · obtain ⟨rfl, bare⟩ := bare
      exact .inr ⟨[], cs, rfl, bare, fun front back split => by simp at split⟩
    · have first : c = '&' → Begins names cs := fun same => by_contra fun none => bare ⟨same, none⟩
      rcases ih with all | ⟨before, after, split, none, good⟩
      · refine .inl fun front back same => ?_
        cases front with
        | nil =>
          obtain ⟨rfl, rfl⟩ := List.cons.inj same
          exact first rfl
        | cons _ front => exact all front back (List.cons.inj same).2
      · refine .inr ⟨c :: before, after, by rw [split]; rfl, none, fun front back same => ?_⟩
        cases front with
        | nil =>
          obtain ⟨rfl, rfl⟩ := List.cons.inj same
          exact split ▸ first rfl
        | cons _ front => exact good front back (List.cons.inj same).2

theorem Begins.mono (wider : ∀ {body c}, names body c → other body c)
    (begins : Begins names cs) : Begins other cs := by
  obtain ⟨body, c, rest, same, closed, named⟩ := begins
  exact ⟨body, c, rest, same, closed, wider named⟩

theorem FirstBare.behind (passed : ∀ front back, chunk = front ++ '&' :: back →
      Begins names (back ++ more)) (first : FirstBare names (chunk ++ more) before after) :
    ∃ rest, before = chunk ++ rest ∧ FirstBare names more rest after := by
  rcases append_eq_split.1 first.split with ⟨rest, split, rfl⟩ | ⟨rest, rfl, split⟩
  · exact absurd (passed before rest split) first.bare
  · refine ⟨rest, rfl, split, first.bare, ?_⟩
    rintro front back rfl
    exact first.good (chunk ++ front) back (by simp)

theorem AllBegin.behind (all : AllBegin names (chunk ++ more)) : AllBegin names more := by
  rintro before after rfl
  exact all (chunk ++ before) after (by simp)

end Bare

/-! ## Numbers -/

theorem digitValue?_code : ∀ code < 103, ∀ value ∈ Text.digitValue? (Char.ofNat code),
    lowerDigits[value]? = some (Char.ofNat code) ∨
      upperDigits[value]? = some (Char.ofNat code) := by
  decide

theorem IsDigit.of_digitValue? {base : Nat} {c : Char} {value : Nat}
    (digit : Text.digitValue? c = some value) (small : value < base) : IsDigit base c value := by
  have last : c.toNat < 103 := by
    have decimal : c ≤ '9' → c.toNat ≤ 57 := id
    have lower : c ≤ 'f' → c.toNat ≤ 102 := id
    have upper : c ≤ 'F' → c.toNat ≤ 70 := id
    unfold Text.digitValue? at digit
    split at digit
    · have := decimal (by simp_all)
      omega
    · split at digit
      · have := lower (by simp_all)
        omega
      · split at digit
        · have := upper (by simp_all)
          omega
        · cases digit
  have found := digitValue?_code c.toNat last value (by rwa [Char.ofNat_toNat])
  rw [Char.ofNat_toNat] at found
  exact ⟨small, found⟩

theorem Numeral.of_digitsFrom? {base n : Nat} {digits : List Char} (nonempty : digits ≠ [])
    (read : Text.digitsFrom? base 0 digits = some n) : Numeral base digits n := by
  induction digits using List.reverseRecOn generalizing n with
  | nil => exact absurd rfl nonempty
  | append_singleton front c ih =>
    rw [digitsFrom?_append] at read
    obtain ⟨m, before, last⟩ := Option.bind_eq_some_iff.1 read
    obtain ⟨value, small, digit, rfl⟩ :
        ∃ value, value < base ∧ Text.digitValue? c = some value ∧ m * base + value = n := by
      unfold Text.digitsFrom? at last
      split at last
      · next value digit =>
        split at last
        · next small => exact ⟨value, small, digit, Option.some.inj last⟩
        · cases last
      · cases last
    have final := IsDigit.of_digitValue? digit small
    by_cases alone : front = []
    · subst alone
      obtain rfl := Option.some.inj before
      simpa using Numeral.digit final
    · exact .snoc (ih alone before) final

theorem numeral_of_readNat? {base limit n : Nat} {cs : List Char}
    (read : Text.readNat? base limit cs = some n) :
    Numeral base cs n ∨ ∃ digits, cs = '+' :: digits ∧ Numeral base digits n := by
  have digits : ∀ digits, (if digits.isEmpty then none else
      (Text.digitsFrom? base 0 digits).filter (· < limit)) = some n → Numeral base digits n := by
    intro digits read
    split at read
    · cases read
    · next nonempty =>
      exact .of_digitsFrom? (by simpa using nonempty) (Option.filter_eq_some_iff.1 read).1
  unfold Text.readNat? at read
  split at read
  · next rest => exact .inr ⟨rest, rfl, digits rest read⟩
  · exact .inl (digits cs read)

theorem Numeral.readNat?_signed {base limit n : Nat} {digits : List Char}
    (numeral : Numeral base digits n) (small : n < limit) :
    Text.readNat? base limit ('+' :: digits) = some n := by
  obtain ⟨c, value, rest, rfl, -⟩ := numeral.uncons
  have read := numeral.digitsFrom?_eq
  simp only [Text.readNat?]
  rw [read]
  simp [small]

theorem Numeral.signed_character? {base : Nat} {digits : List Char} {c : Char}
    (numeral : Numeral base digits c.toNat) :
    (Text.readNat? base UInt32.size ('+' :: digits)).bind CharRef.ofCode? = some c := by
  rw [numeral.readNat?_signed (toNat_lt_size c), Option.bind_some, ofCode?_toNat]

theorem numeral_of_character? {base : Nat} {cs : List Char} {c : Char}
    (read : (Text.readNat? base UInt32.size cs).bind CharRef.ofCode? = some c) :
    Numeral base cs c.toNat ∨ ∃ digits, cs = '+' :: digits ∧ Numeral base digits c.toNat := by
  obtain ⟨n, number, code⟩ := Option.bind_eq_some_iff.1 read
  obtain rfl : c.toNat = n := by
    unfold CharRef.ofCode? at code
    split at code
    · next valid =>
      rw [← Option.some.inj code, Char.ofNat, dif_pos valid]
      rfl
    · cases code
  exact numeral_of_readNat? number

/-! ## References -/

section References

variable {body rest : List Char} {c : Char}

theorem Signed.denoted? (signed : Signed body c) : CharRef.denoted? body = some c := by
  cases signed with
  | decimal numeral =>
    rw [CharRef.denoted?, lookup_predefined_mark]
    · exact numeral.signed_character?
    · rintro more ⟨⟩
  | hexadecimal numeral =>
    rw [CharRef.denoted?, lookup_predefined_mark]
    exact numeral.signed_character?

theorem Signed.byteLength_le (signed : Signed body c) : Text.byteLength body ≤ longestBody := by
  cases signed with
  | decimal _ short => exact short
  | hexadecimal _ short => exact short

theorem spells_of_predefined : ∀ entry ∈ CharRef.predefined, Spells entry.1.toList entry.2 := by
  intro entry member
  simp only [CharRef.predefined, List.mem_cons, List.not_mem_nil, or_false] at member
  rcases member with rfl | rfl | rfl | rfl | rfl
  · exact .lt
  · exact .gt
  · exact .amp
  · exact .quot
  · exact .apos

theorem spells_of_lookup (found : CharRef.predefined.lookup (String.ofList body) = some c) :
    Spells body c := by
  obtain ⟨before, after, split, -⟩ := List.lookup_eq_some_iff.1 found
  have spells := spells_of_predefined (String.ofList body, c) (by rw [split]; simp)
  rwa [String.toList_ofList] at spells

theorem taken_of_denoted? (denoted : CharRef.denoted? body = some c)
    (short : Text.byteLength body ≤ longestBody) : Taken body c := by
  unfold CharRef.denoted? at denoted
  split at denoted
  · next found => exact .inl (spells_of_lookup (denoted ▸ found))
  · split at denoted
    · rcases numeral_of_character? denoted with numeral | ⟨digits, rfl, numeral⟩
      · exact .inl (.hexadecimal numeral short)
      · exact .inr (.hexadecimal numeral short)
    · rcases numeral_of_character? denoted with numeral | ⟨digits, rfl, numeral⟩
      · exact .inl (.decimal numeral short)
      · exact .inr (.decimal numeral short)
    · cases denoted

theorem split_of_takeWhile_lt {α : Type} {p : α → Bool} {xs : List α}
    (shorter : (xs.takeWhile p).length < xs.length) :
    ∃ x rest, xs = xs.takeWhile p ++ x :: rest ∧ p x = false := by
  induction xs with
  | nil => simp at shorter
  | cons x xs ih =>
    cases found : p x with
    | false => exact ⟨x, xs, by simp [found], found⟩
    | true =>
      obtain ⟨y, rest, split, stops⟩ := ih (by simpa [found] using shorter)
      exact ⟨y, rest, by simpa [found] using split, stops⟩

theorem body?_split (reached : CharRef.body? rest = some body) :
    ∃ more, rest = body ++ ';' :: more ∧ ';' ∉ body ∧ Text.byteLength body ≤ longestBody := by
  unfold CharRef.body? at reached
  dsimp only at reached
  split at reached
  · next inside =>
    obtain rfl := Option.some.inj reached
    obtain ⟨shorter, bytes⟩ := inside
    obtain ⟨d, more, split, stops⟩ := split_of_takeWhile_lt shorter
    obtain rfl : d = ';' := by simpa using stops
    refine ⟨more ++ rest.drop CharRef.reach, ?_, ?_, ?_⟩
    · rw [← List.cons_append, ← List.append_assoc, ← split, List.take_append_drop]
    · intro member
      simpa using List.mem_takeWhile_imp member
    · have whole : CharRef.reach = longestBody + 1 := rfl
      omega
  · cases reached

/-- What stands behind an ampersand is read as a reference if it begins one that is taken. -/
theorem begins_iff : Begins Taken rest ↔
    ∃ body c, CharRef.body? rest = some body ∧ CharRef.denoted? body = some c := by
  constructor
  · rintro ⟨body, c, more, rfl, closed, spelled | signed⟩
    · exact ⟨body, c, body?_append closed spelled.byteLength_le more, spelled.denoted?⟩
    · exact ⟨body, c, body?_append closed signed.byteLength_le more, signed.denoted?⟩
  · rintro ⟨body, c, reached, denoted⟩
    obtain ⟨more, split, closed, short⟩ := body?_split reached
    exact ⟨body, c, more, split, closed, taken_of_denoted? denoted short⟩

theorem Taken.notMem (taken : Taken body c) : '&' ∉ body := by
  rcases taken with spelled | signed
  · cases spelled with
    | lt | gt | amp | quot | apos => decide
    | decimal numeral => simpa using numeral.notMem (by decide)
    | hexadecimal numeral => simpa using numeral.notMem (by decide)
  · cases signed with
    | decimal numeral => simpa using numeral.notMem (by decide)
    | hexadecimal numeral => simpa using numeral.notMem (by decide)

/-- In a reference only the first character is an ampersand, so it is passed as a whole. -/
theorem reference_passed (reached : CharRef.body? rest = some body)
    (denoted : CharRef.denoted? body = some c) :
    '&' :: rest = '&' :: (body ++ [';']) ++ rest.drop (body.length + 1) ∧
      ∀ front back, '&' :: (body ++ [';']) = front ++ '&' :: back →
        Begins Taken (back ++ rest.drop (body.length + 1)) := by
  obtain ⟨more, split, closed, short⟩ := body?_split reached
  have taken := taken_of_denoted? denoted short
  have behind : rest.drop (body.length + 1) = more := by
    rw [split, List.drop_append, List.drop_of_length_le (Nat.le_succ _)]
    simp
  rw [behind]
  constructor
  · simp [split]
  · intro front back same
    cases front with
    | nil =>
      obtain rfl := (List.cons.inj same).2
      exact ⟨body, c, more, by simp, closed, taken⟩
    | cons _ front =>
      have inside : '&' ∈ body ++ [';'] := by
        rw [(List.cons.inj same).2]
        simp
      exact absurd inside (by simpa using taken.notMem)

end References

/-! ## Decoding -/

section Decoding

variable {cs before after : List Char}

theorem decodeFrom_of_allBegin (all : AllBegin Taken cs) (p : Position) (decoded : List Char) :
    ∃ content, CharRef.decodeFrom p decoded cs = .ok content := by
  fun_induction CharRef.decodeFrom p decoded cs with
  | case1 => exact ⟨_, rfl⟩
  | case2 p decoded rest unreached =>
    obtain ⟨body, c, reached, -⟩ := begins_iff.1 (all [] rest rfl)
    rw [unreached] at reached
    cases reached
  | case3 p decoded rest body reached undenoted =>
    obtain ⟨body', c, reached', denoted⟩ := begins_iff.1 (all [] rest rfl)
    obtain rfl := Option.some.inj (reached.symm.trans reached')
    rw [undenoted] at denoted
    cases denoted
  | case4 p decoded rest body reached d denoted ih =>
    rw [(reference_passed reached denoted).1] at all
    exact ih all.behind
  | case5 p decoded c rest other ih =>
    have all : AllBegin Taken ([c] ++ rest) := all
    exact ih all.behind

/-- A text that does not begin with a reference is bare from its first character on. -/
theorem FirstBare.at_front {names : List Char → Char → Prop} {rest : List Char}
    (first : FirstBare names ('&' :: rest) before after) (bare : ¬ Begins names rest) :
    before = [] := by
  cases before with
  | nil => rfl
  | cons c before =>
    obtain ⟨rfl, same⟩ := List.cons.inj first.split
    exact absurd (same ▸ first.good [] before rfl) bare

theorem decodeFrom_of_firstBare (first : FirstBare Taken cs before after) (p : Position)
    (decoded : List Char) :
    ∃ name, CharRef.decodeFrom p decoded cs = .error ⟨name, p.advanceAll before⟩ := by
  fun_induction CharRef.decodeFrom p decoded cs generalizing before with
  | case1 => exact absurd first.split (by simp)
  | case2 p decoded rest unreached =>
    have bare : ¬ Begins Taken rest := by
      rw [begins_iff]
      rintro ⟨body, c, reached, -⟩
      rw [unreached] at reached
      cases reached
    exact ⟨_, by rw [first.at_front bare, Position.advanceAll_nil]⟩
  | case3 p decoded rest body reached undenoted =>
    have bare : ¬ Begins Taken rest := by
      rw [begins_iff]
      rintro ⟨body', c, reached', denoted⟩
      obtain rfl := Option.some.inj (reached.symm.trans reached')
      rw [undenoted] at denoted
      cases denoted
    exact ⟨_, by rw [first.at_front bare, Position.advanceAll_nil]⟩
  | case4 p decoded rest body reached d denoted ih =>
    obtain ⟨split, passed⟩ := reference_passed reached denoted
    rw [split] at first
    obtain ⟨rest', rfl, further⟩ := first.behind passed
    obtain ⟨name, stops⟩ := ih further
    refine ⟨name, ?_⟩
    rw [stops]
    simp [Position.advanceAll_append]
  | case5 p decoded c rest other ih =>
    have first : FirstBare Taken ([c] ++ rest) before after := first
    have passed : ∀ front back, [c] = front ++ '&' :: back → Begins Taken (back ++ rest) := by
      intro front back same
      have inside : '&' ∈ [c] := by simp [same]
      exact absurd (List.mem_singleton.1 inside).symm other
    obtain ⟨rest', rfl, further⟩ := first.behind passed
    exact ih further

theorem Judges.of_rejects {names : List Char → Char → Prop} {p : Position}
    (decodes : AllBegin names cs → ∃ content, decode p cs = .ok content)
    (rejects : ∀ before after, FirstBare names cs before after →
      ∃ name, decode p cs = .error ⟨name, p.advanceAll before⟩) : Judges names p cs := by
  refine ⟨⟨?_, decodes⟩, rejects⟩
  rintro ⟨content, read⟩
  rcases allBegin_or_firstBare names cs with all | ⟨before, after, first⟩
  · exact all
  · obtain ⟨name, stops⟩ := rejects before after first
    rw [stops] at read
    cases read

theorem judges_taken (p : Position) (cs : List Char) : Judges Taken p cs :=
  .of_rejects (fun all => decodeFrom_of_allBegin all p []) fun _ _ first =>
    decodeFrom_of_firstBare first p []

end Decoding

theorem prefix_unique {front front' back back' : List Char}
    (same : front ++ back = front' ++ back')
    (bytes : Text.byteLength front = Text.byteLength front') : front = front' ∧ back = back' := by
  have empty : ∀ {rest}, Text.byteLength rest = 0 → rest = [] := by
    intro rest none
    exact List.length_eq_zero_iff.1 (Nat.le_zero.1 (none ▸ length_le_byteLength rest))
  rcases List.append_eq_append_iff.1 same with ⟨rest, rfl, rfl⟩ | ⟨rest, rfl, rfl⟩
  · obtain rfl := empty (by simpa [Text.byteLength_append] using bytes)
    simp
  · obtain rfl := empty (by simpa [Text.byteLength_append] using bytes)
    simp

/-- A text is decoded if every ampersand begins a reference that is taken, and else it is refused
where the first one stands that does not. So the references of the format alone decide exactly
unless the first ampersand that begins none of these begins one with a plus sign. -/
theorem decode_judges_taken (p : Position) (cs : List Char) :
    Judges Taken p cs ∧
      (Judges Spells p cs ↔ ∀ before after, FirstBare Spells cs before after →
        ¬ Begins Signed after) := by
  have taken := judges_taken p cs
  have wider : ∀ {text}, Begins Spells text → Begins Taken text := fun begins =>
    begins.mono .inl
  refine ⟨taken, ?_, ?_⟩
  · intro judges before after first signed
    obtain ⟨name, stops⟩ := judges.rejects before after first
    rcases allBegin_or_firstBare Taken cs with all | ⟨before', after', firstTaken⟩
    · obtain ⟨content, read⟩ := taken.accepts_iff.2 all
      rw [stops] at read
      cases read
    · obtain ⟨name', stops'⟩ := taken.rejects before' after' firstTaken
      rw [stops] at stops'
      have place : p.advanceAll before = p.advanceAll before' := by
        injection stops' with bad
        injection bad
      have bytes := congrArg Position.offset place
      rw [Position.advanceAll_offset, Position.advanceAll_offset, Nat.add_left_cancel_iff] at bytes
      obtain ⟨-, rest⟩ := prefix_unique (first.split.symm.trans firstTaken.split) bytes
      obtain rfl := (List.cons.inj rest).2
      exact firstTaken.bare (signed.mono .inr)
  · intro plain
    refine .of_rejects (fun all => taken.accepts_iff.2 fun before after split =>
      wider (all before after split)) fun before after first => ?_
    refine taken.rejects before after ⟨first.split, ?_, fun front back same =>
      wider (first.good front back same)⟩
    rintro ⟨body, c, rest, same, closed, spelled | signed⟩
    · exact first.bare ⟨body, c, rest, same, closed, spelled⟩
    · exact plain before after first ⟨body, c, rest, same, closed, signed⟩

/-- A plus sign is taken, though `+65` is no numeral. -/
example : decode .start "&#+65;".toList = .ok ['A'] := by
  cbv

end Barrage.Markup
