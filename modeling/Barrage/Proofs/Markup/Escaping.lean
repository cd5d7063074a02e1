import Barrage.Markup.CharRef
import Mathlib.Data.List.TakeWhile

/-!
Decoding undoes escaping. A text is written in segments: characters that stand for themselves and
references, each of which spells one character. Decoding the written text gives what the segments
mean, wherever the text begins and however the segments follow each other.
-/

set_option autoImplicit false

namespace Barrage.Markup

/-! ## Spellings -/

def lowerDigits : List Char := "0123456789abcdef".toList

def upperDigits : List Char := "0123456789ABCDEF".toList

def IsDigit (base : Nat) (c : Char) (value : Nat) : Prop :=
  value < base ∧ (lowerDigits[value]? = some c ∨ upperDigits[value]? = some c)

/-- One or more digits of a base, the most significant first, write a number. Zeros may lead. -/
inductive Numeral (base : Nat) : List Char → Nat → Prop where
  | digit {c : Char} {value : Nat} (last : IsDigit base c value) : Numeral base [c] value
  | snoc {digits : List Char} {n : Nat} {c : Char} {value : Nat}
      (front : Numeral base digits n) (last : IsDigit base c value) :
      Numeral base (digits ++ [c]) (n * base + value)

/-- The most bytes between the ampersand and the semicolon of a reference. -/
def longestBody : Nat := 11

/-- What stands between the ampersand and the semicolon of a reference to a character. -/
inductive Spells : List Char → Char → Prop where
  | lt : Spells "lt".toList '<'
  | gt : Spells "gt".toList '>'
  | amp : Spells "amp".toList '&'
  | quot : Spells "quot".toList '"'
  | apos : Spells "apos".toList '\''
  | decimal {digits : List Char} {c : Char} (numeral : Numeral 10 digits c.toNat)
      (short : Text.byteLength ('#' :: digits) ≤ longestBody) : Spells ('#' :: digits) c
  | hexadecimal {digits : List Char} {c : Char} (numeral : Numeral 16 digits c.toNat)
      (short : Text.byteLength ('#' :: 'x' :: digits) ≤ longestBody) :
      Spells ('#' :: 'x' :: digits) c

/-- A part of a text: characters that stand for themselves, or one that is spelled out. -/
inductive Segment where
  | literal (text : List Char) (plain : '&' ∉ text)
  | reference (body : List Char) (c : Char) (spells : Spells body c)

namespace Segment

def written : Segment → List Char
  | literal text _ => text
  | reference body _ _ => '&' :: (body ++ [';'])

def meant : Segment → List Char
  | literal text _ => text
  | reference _ c _ => [c]

end Segment

/-- A way to write each character as a segment that means it. -/
structure Escaping where
  segment : Char → Segment
  meant : ∀ c, (segment c).meant = [c]

namespace Escaping

def write (e : Escaping) (text : List Char) : List Char :=
  text.flatMap fun c => (e.segment c).written

def ampersands : Escaping where
  segment c := if plain : c = '&' then .reference _ '&' .amp else
    .literal [c] (by simpa using Ne.symm plain)
  meant c := by
    split
    · next same => rw [same]; rfl
    · rfl

end Escaping

/-! ## Digits -/

theorem IsDigit.digitValue? {base : Nat} {c : Char} {value : Nat} (digit : IsDigit base c value) :
    Text.digitValue? c = some value := by
  obtain ⟨-, lower | upper⟩ := digit
  · obtain ⟨bound, rfl⟩ := List.getElem?_eq_some_iff.1 lower
    revert value
    decide
  · obtain ⟨bound, rfl⟩ := List.getElem?_eq_some_iff.1 upper
    revert value
    decide

theorem IsDigit.ne {base : Nat} {c mark : Char} {value : Nat} (digit : IsDigit base c value)
    (other : Text.digitValue? mark = none) : c ≠ mark := by
  rintro rfl
  rw [digit.digitValue?] at other
  cases other

namespace Numeral

variable {base n : Nat} {digits : List Char}

theorem digitsFrom?_append (value : Nat) (front back : List Char) :
    Text.digitsFrom? base value (front ++ back) =
      (Text.digitsFrom? base value front).bind (Text.digitsFrom? base · back) := by
  induction front generalizing value with
  | nil => rfl
  | cons c front ih =>
    simp only [List.cons_append, Text.digitsFrom?]
    split
    · split
      · exact ih _
      · rfl
    · rfl

theorem digitsFrom?_digit {c : Char} {value : Nat} (digit : IsDigit base c value) (before : Nat) :
    Text.digitsFrom? base before [c] = some (before * base + value) := by
  rw [Text.digitsFrom?, digit.digitValue?]
  exact if_pos digit.1

theorem digitsFrom?_eq (numeral : Numeral base digits n) :
    Text.digitsFrom? base 0 digits = some n := by
  induction numeral with
  | digit last => simpa using digitsFrom?_digit last 0
  | snoc _ last ih =>
    rw [digitsFrom?_append, ih, Option.bind_some]
    exact digitsFrom?_digit last _

theorem uncons (numeral : Numeral base digits n) :
    ∃ c value rest, digits = c :: rest ∧ IsDigit base c value := by
  induction numeral with
  | @digit c value last => exact ⟨c, value, [], rfl, last⟩
  | snoc _ _ ih =>
    obtain ⟨c, value, rest, rfl, first⟩ := ih
    exact ⟨c, value, _, rfl, first⟩

theorem notMem {mark : Char} (numeral : Numeral base digits n)
    (other : Text.digitValue? mark = none) : mark ∉ digits := by
  induction numeral with
  | digit last => simpa using (last.ne other).symm
  | snoc _ last ih => simpa [ih] using (last.ne other).symm

theorem readNat?_eq {limit : Nat} (numeral : Numeral base digits n) (small : n < limit) :
    Text.readNat? base limit digits = some n := by
  obtain ⟨c, value, rest, rfl, first⟩ := numeral.uncons
  unfold Text.readNat?
  split
  -- the first digit is no plus sign
  · next signed => exact absurd (List.cons.inj signed).1 (first.ne (by decide))
  · dsimp only
    rw [numeral.digitsFrom?_eq]
    simp [small]

end Numeral

/-! ## References -/

theorem ofCode?_toNat (c : Char) : CharRef.ofCode? c.toNat = some c := by
  have valid : c.toNat.isValidChar := c.valid
  rw [CharRef.ofCode?, if_pos valid, Char.ofNat_toNat]

theorem toNat_lt_size (c : Char) : c.toNat < UInt32.size := c.val.toNat_lt_size

theorem Numeral.character? {base : Nat} {digits : List Char} {c : Char}
    (numeral : Numeral base digits c.toNat) :
    (Text.readNat? base UInt32.size digits).bind CharRef.ofCode? = some c := by
  rw [numeral.readNat?_eq (toNat_lt_size c), Option.bind_some, ofCode?_toNat]

theorem lookup_predefined_mark (rest : List Char) :
    CharRef.predefined.lookup (String.ofList ('#' :: rest)) = none := by
  rw [List.lookup_eq_none_iff]
  intro entry member
  -- no predefined name begins with the mark of a numeral
  have first : entry.1.toList.head? ≠ some '#' := by
    revert entry
    decide
  simp only [bne_iff_ne, ne_eq]
  rintro same
  rw [← same, String.toList_ofList] at first
  exact first rfl

namespace Spells

variable {body : List Char} {c : Char}

theorem denoted? (spells : Spells body c) : CharRef.denoted? body = some c := by
  cases spells with
  | lt | gt | amp | quot | apos => decide
  | @hexadecimal digits c numeral =>
    rw [CharRef.denoted?, lookup_predefined_mark]
    exact numeral.character?
  | @decimal digits c numeral =>
    obtain ⟨d, value, rest, rfl, first⟩ := numeral.uncons
    -- a decimal numeral does not begin with the mark of a hexadecimal one
    have unmarked : ∀ more, d :: rest = 'x' :: more → False :=
      fun more same => first.ne (by decide) (List.cons.inj same).1
    rw [CharRef.denoted?, lookup_predefined_mark]
    · exact numeral.character?
    · exact unmarked

theorem notMem_semicolon (spells : Spells body c) : ';' ∉ body := by
  cases spells with
  | lt | gt | amp | quot | apos => decide
  | decimal numeral => simpa using numeral.notMem (by decide)
  | hexadecimal numeral => simpa using numeral.notMem (by decide)

theorem byteLength_le (spells : Spells body c) : Text.byteLength body ≤ longestBody := by
  cases spells with
  | lt | gt | amp | quot | apos => decide
  | decimal _ short => exact short
  | hexadecimal _ short => exact short

end Spells

theorem length_le_byteLength (cs : List Char) : cs.length ≤ Text.byteLength cs := by
  induction cs with
  | nil => simp
  | cons c cs ih =>
    have := c.utf8Size_pos
    rw [List.length_cons, Text.byteLength_cons]
    omega

/-- The body of a reference ends at its semicolon, whatever follows. -/
theorem body?_append {body : List Char} (closed : ';' ∉ body)
    (bytes : Text.byteLength body ≤ 11) (rest : List Char) :
    CharRef.body? (body ++ ';' :: rest) = some body := by
  have length : body.length ≤ 11 := Nat.le_trans (length_le_byteLength body) bytes
  -- the semicolon is among the characters that are looked at
  obtain ⟨near, looked⟩ : ∃ near,
      (body ++ ';' :: rest).take CharRef.reach = body ++ ';' :: near := by
    refine ⟨rest.take (11 - body.length), ?_⟩
    rw [List.take_append, List.take_of_length_le (by rw [CharRef.reach]; omega)]
    have room : CharRef.reach - body.length = (11 - body.length) + 1 := by
      rw [CharRef.reach]
      omega
    rw [room, List.take_succ_cons]
  have inside : ∀ d ∈ body, decide (d ≠ ';') = true := by
    intro d member
    exact decide_eq_true fun same => closed (same ▸ member)
  have before : (body ++ ';' :: near).takeWhile (fun d => decide (d ≠ ';')) = body := by
    rw [List.takeWhile_append_of_pos inside, List.takeWhile_cons_of_neg (by simp),
      List.append_nil]
  unfold CharRef.body?
  rw [looked]
  dsimp only
  rw [before, if_pos ⟨by simp, by rw [CharRef.reach]; omega⟩]

theorem Spells.body?_eq {body : List Char} {c : Char} (spells : Spells body c)
    (rest : List Char) : CharRef.body? (body ++ ';' :: rest) = some body :=
  body?_append spells.notMem_semicolon spells.byteLength_le rest

/-! ## Decoding -/

theorem decodeFrom_literal {text : List Char} (plain : '&' ∉ text) (p : Position)
    (decoded rest : List Char) :
    CharRef.decodeFrom p decoded (text ++ rest) =
      CharRef.decodeFrom (p.advanceAll text) (text.reverse ++ decoded) rest := by
  induction text generalizing p decoded with
  | nil => rfl
  | cons c text ih =>
    have other : c ≠ '&' := fun same => plain (same ▸ List.mem_cons_self)
    rw [List.cons_append, CharRef.decodeFrom, if_neg other,
      ih (fun inside => plain (List.mem_cons_of_mem _ inside)), List.reverse_cons,
      List.append_assoc]
    rfl

/-- A reference is replaced by the character that it spells, and decoding goes on behind it. -/
theorem decodeFrom_reference {body : List Char} {c : Char} (spells : Spells body c) (p : Position)
    (decoded rest : List Char) :
    CharRef.decodeFrom p decoded ('&' :: (body ++ ';' :: rest)) =
      CharRef.decodeFrom (p.advanceAll ('&' :: (body ++ [';']))) (c :: decoded) rest := by
  rw [CharRef.decodeFrom, if_pos rfl, spells.body?_eq]
  dsimp only
  rw [spells.denoted?]
  dsimp only
  have behind : (body ++ ';' :: rest).drop (body.length + 1) = rest := by
    rw [List.drop_append, List.drop_of_length_le (Nat.le_succ _)]
    simp
  rw [behind, Position.advanceAll_cons, Position.advanceAll_append, Position.advanceAll_cons,
    Position.advanceAll_nil]

theorem decodeFrom_segment (s : Segment) (p : Position) (decoded rest : List Char) :
    CharRef.decodeFrom p decoded (s.written ++ rest) =
      CharRef.decodeFrom (p.advanceAll s.written) (s.meant.reverse ++ decoded) rest := by
  cases s with
  | literal text plain => exact decodeFrom_literal plain p decoded rest
  | reference body c spells =>
    have read := decodeFrom_reference spells p decoded rest
    simpa [Segment.written, Segment.meant] using read

theorem decodeFrom_segments (segments : List Segment) (p : Position) (decoded : List Char) :
    CharRef.decodeFrom p decoded (segments.flatMap Segment.written) =
      .ok (decoded.reverse ++ segments.flatMap Segment.meant) := by
  induction segments generalizing p decoded with
  | nil => rw [List.flatMap_nil, CharRef.decodeFrom, List.flatMap_nil, List.append_nil]
  | cons s segments ih =>
    rw [List.flatMap_cons, decodeFrom_segment, ih]
    simp

/-- Segments mean what they are decoded to, from every position on. So decoding undoes every way of
escaping, and an ampersand that was spelled out does not begin a reference with what follows. -/
theorem decode_undoes_escaping (p : Position) :
    (∀ segments : List Segment,
      decode p (segments.flatMap Segment.written) = .ok (segments.flatMap Segment.meant)) ∧
    (∀ (e : Escaping) (text : List Char), decode p (e.write text) = .ok text) ∧
    ∀ segments : List Segment,
      decode p ("&amp;".toList ++ segments.flatMap Segment.written) =
        .ok ('&' :: segments.flatMap Segment.meant) := by
  have undone : ∀ segments : List Segment,
      decode p (segments.flatMap Segment.written) = .ok (segments.flatMap Segment.meant) :=
    fun segments => decodeFrom_segments segments p []
  refine ⟨undone, fun e text => ?_, fun segments => ?_⟩
  · have read := undone (text.map e.segment)
    rw [List.flatMap_map, List.flatMap_map] at read
    simpa [Escaping.write, e.meant] using read
  · exact undone (.reference _ '&' .amp :: segments)

/-- A text that looks like a reference is not decoded a second time. -/
example : decode .start (Escaping.ampersands.write "&lt;".toList) = .ok "&lt;".toList := by
  cbv

end Barrage.Markup
