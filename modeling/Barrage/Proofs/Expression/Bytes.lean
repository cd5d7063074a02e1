import Barrage.Proofs.Expression.Lexemes
import Barrage.Proofs.Markup.Coherence
import Mathlib.Data.String.Basic

/-!
The words of an expression read byte by byte. The reader looks at single bytes, goes on by one byte
or by a word, and cuts numbers and names out of the text between two bytes, which fails within a
character. It finds the words that are read character by character: all bytes that it stops at
begin a character, since what it passes takes one byte each.
-/

set_option autoImplicit false

namespace Barrage.Expr

structure Spot where
  token? : Option Token
  offset : Nat
  deriving DecidableEq, Repr

/-- Why reading bytes stops: something is wrong with a word, or the text was to be cut within a
character. -/
inductive Fault where
  | wrong (problem : Problem) (offset : Nat)
  | splitCharacter
  deriving DecidableEq, Repr

namespace Bytes

/-! ## Looking at bytes -/

def ascii? (b : UInt8) : Option Char := if b < 128 then some (Char.ofNat b.toNat) else none

section Reader

variable (source : String)

def sees (p : Char → Bool) (i : Nat) : Bool := (source.toByteArray[i]?.bind ascii?).any p

theorem lt_size_of_sees {source : String} {p : Char → Bool} {i : Nat} (seen : sees source p i) :
    i < source.utf8ByteSize := by
  by_contra outside
  have past : source.toByteArray[i]? = none := getElem?_neg source.toByteArray i outside
  rw [sees, past] at seen
  cases seen

def skip (p : Char → Bool) (i : Nat) : Nat :=
  if sees source p i then skip p (i + 1) else i
termination_by source.utf8ByteSize - i
decreasing_by
  next seen =>
  have := lt_size_of_sees seen
  omega

theorem le_skip (p : Char → Bool) (i : Nat) : i ≤ skip source p i := by
  fun_induction skip source p i with
  | case1 i seen ih => omega
  | case2 => exact Nat.le_refl _

def cut (start stop : Nat) : Except Fault (List Char) :=
  if start ≤ stop ∧ String.Pos.Raw.isValid source ⟨start⟩ ∧
      String.Pos.Raw.isValid source ⟨stop⟩ then
    .ok (String.Pos.Raw.extract source ⟨start⟩ ⟨stop⟩).toList
  else .error .splitCharacter

/-! ## Words -/

/-- The byte behind a point and the digits after it, if there is a point. -/
def fractionEnd (i : Nat) : Nat :=
  if sees source (· = '.') i then skip source Char.isDigit (i + 1) else i

def signEnd (i : Nat) : Nat :=
  if sees source (fun c => c = '+' ∨ c = '-') i then i + 1 else i

def exponentEnd (i : Nat) : Nat :=
  if sees source (fun c => c = 'e' ∨ c = 'E') i then
    let j := signEnd source (i + 1)
    if sees source Char.isDigit j then skip source Char.isDigit j else i
  else i

def numberEnd (start : Nat) : Nat :=
  exponentEnd source (fractionEnd source (skip source Char.isDigit start))

def readNumber (start stop : Nat) : Except Fault Token := do
  let text ← cut source start stop
  match Decimal.readUnsigned? text with
  | some d => .ok (.number d)
  | none => .error (.wrong (.invalidNumber (String.ofList text)) start)

def readVariable (start stop : Nat) : Except Fault Token := do
  let name ← cut source (start + 1) stop
  (variableNamed name).mapError (.wrong · start)

def refuse (start : Nat) : Except Fault (Token × Nat) := do
  let rest ← cut source start source.utf8ByteSize
  .error (.wrong (.unexpectedCharacter (rest.headD '?')) start)

def readWord (start : Nat) : Except Fault (Token × Nat) :=
  match (source.toByteArray[start]?.bind ascii?).bind symbol? with
  | some t => .ok (t, start + 1)
  | none =>
    if sees source (fun c => c.isDigit ∨ c = '.') start then
      let stop := numberEnd source start
      (readNumber source start stop).map (·, stop)
    else if sees source (· = '$') start then
      let stop := skip source Char.isAlphanum (start + 1)
      (readVariable source start stop).map (·, stop)
    else refuse source start

theorem le_fractionEnd (i : Nat) : i ≤ fractionEnd source i := by
  unfold fractionEnd
  split
  · exact Nat.le_of_succ_le (le_skip source Char.isDigit (i + 1))
  · exact Nat.le_refl i

theorem le_signEnd (i : Nat) : i ≤ signEnd source i := by
  unfold signEnd
  split <;> omega

theorem le_exponentEnd (i : Nat) : i ≤ exponentEnd source i := by
  unfold exponentEnd
  dsimp only
  split
  · split
    · exact Nat.le_trans (Nat.le_of_succ_le (le_signEnd source (i + 1)))
        (le_skip source Char.isDigit _)
    · exact Nat.le_refl i
  · exact Nat.le_refl i

variable {source : String} {start stop : Nat}

theorem lt_numberEnd (seen : sees source (fun c => c.isDigit ∨ c = '.') start) :
    start < numberEnd source start := by
  refine Nat.lt_of_lt_of_le ?_ (le_exponentEnd source _)
  by_cases digit : sees source Char.isDigit start
  · refine Nat.lt_of_lt_of_le ?_ (le_fractionEnd source _)
    rw [skip, if_pos digit]
    exact le_skip source Char.isDigit (start + 1)
  · have point : sees source (· = '.') start := by
      unfold sees at seen digit ⊢
      cases found : source.toByteArray[start]?.bind ascii? with
      | none => rw [found] at seen; cases seen
      | some c => simp_all
    rw [skip, if_neg digit, fractionEnd, if_pos point]
    exact le_skip source Char.isDigit (start + 1)

theorem lt_of_readWord {t : Token} (read : readWord source start = .ok (t, stop)) :
    start < stop := by
  have same : ∀ (x : Except Fault Token) (n : Nat), x.map (·, n) = .ok (t, stop) → n = stop := by
    intro x n found
    cases x with
    | error fault => cases found
    | ok t => cases found; rfl
  unfold readWord at read
  split at read
  · cases read
    exact Nat.lt_succ_self start
  split at read
  · next seen => exact same _ _ read ▸ lt_numberEnd seen
  split at read
  · exact same _ _ read ▸ le_skip source Char.isAlphanum (start + 1)
  · unfold refuse at read
    cases rest : cut source start source.utf8ByteSize with
    | error fault => rw [rest] at read; cases read
    | ok cs => rw [rest] at read; cases read

variable (source) in
def scanFrom (i : Nat) : Except Fault (List Spot) :=
  if i < source.utf8ByteSize then
    if sees source isBlank i then scanFrom (i + 1)
    else match _h : readWord source i with
      | .error fault => .error fault
      | .ok (t, stop) => (scanFrom stop).map (⟨some t, i⟩ :: ·)
  else .ok [⟨none, source.utf8ByteSize⟩]
termination_by source.utf8ByteSize - i
decreasing_by
  · omega
  · have := lt_of_readWord _h
    omega

variable (source) in
def scan : Except Fault (List Spot) := scanFrom source 0

end Reader

/-! ## Bytes of characters -/

theorem ascii?_of_small {c : Char} (small : c.toNat < 128) :
    ascii? (UInt8.ofNat c.toNat) = some c := by
  have value : (UInt8.ofNat c.toNat).toNat = c.toNat := by
    rw [UInt8.toNat_ofNat']
    omega
  rw [ascii?, if_pos (UInt8.lt_iff_toNat_lt.2 (by rw [value]; exact small)), value,
    Char.ofNat_toNat]

theorem ascii?_of_large {n : Nat} (large : 128 ≤ n) (byte : n < 256) :
    ascii? (UInt8.ofNat n) = none := by
  have value : (UInt8.ofNat n).toNat = n := by
    rw [UInt8.toNat_ofNat']
    omega
  exact if_neg fun below => absurd (UInt8.lt_iff_toNat_lt.1 below) (by
    rw [value]
    exact Nat.not_lt.2 large)

theorem ascii?_first (c : Char) : (String.utf8EncodeChar c)[0]?.bind ascii? =
    if c.toNat < 128 then some c else none := by
  have code : c.val.toNat = c.toNat := rfl
  unfold String.utf8EncodeChar
  simp only [code]
  split
  · next small =>
    have ascii : c.toNat < 128 := Nat.lt_succ_of_le small
    rw [if_pos ascii]
    exact ascii?_of_small ascii
  · next large =>
    have long : ¬c.toNat < 128 := fun ascii => large (Nat.le_of_lt_succ ascii)
    rw [if_neg long]
    split
    · exact ascii?_of_large (by omega) (by omega)
    · split <;> exact ascii?_of_large (by omega) (by omega)

theorem length_encode (cs : List Char) :
    (cs.flatMap String.utf8EncodeChar).length = Text.byteLength cs := by
  induction cs with
  | nil => rfl
  | cons c cs ih => simp [ih]

theorem getElem?_toByteArray (l : List UInt8) (i : Nat) : l.toByteArray[i]? = l[i]? := by
  by_cases inside : i < l.length
  · rw [getElem?_pos l.toByteArray i (by simpa using inside), List.getElem?_eq_getElem inside,
      List.getElem_toByteArray]
  · rw [getElem?_neg l.toByteArray i (by simpa using inside), List.getElem?_eq_none (by omega)]

variable {source : String} {before part behind rest : List Char}

/-- At the byte behind a front of a text there is the first byte of the next character. -/
theorem ascii?_eq (split : source.toList = before ++ rest) :
    source.toByteArray[Text.byteLength before]?.bind ascii? =
      rest.head?.filter (·.toNat < 128) := by
  rw [← String.utf8Encode_toList, split, List.utf8Encode, getElem?_toByteArray,
    List.flatMap_append, List.getElem?_append_right (by rw [length_encode]), length_encode,
    Nat.sub_self]
  cases rest with
  | nil => rfl
  | cons c rest =>
    have positive : 0 < (String.utf8EncodeChar c).length := by
      rw [String.length_utf8EncodeChar]
      exact c.utf8Size_pos
    rw [List.flatMap_cons, List.getElem?_append_left positive, ascii?_first, List.head?_cons,
      Option.filter_some]
    simp

def IsAscii (p : Char → Bool) : Prop := ∀ c, p c → c.toNat < 128

theorem isAscii_isAlphanum : IsAscii Char.isAlphanum := by
  intro c letter
  have below : ∀ high : Char, high.toNat < 128 → c ≤ high → c.toNat < 128 :=
    fun high small within => Nat.lt_of_le_of_lt (UInt32.le_iff_toNat_le.1 within) small
  rcases Bool.or_eq_true_iff.1 letter with alpha | digit
  · rcases Bool.or_eq_true_iff.1 alpha with upper | lower
    · exact below 'Z' (by decide) (of_decide_eq_true upper).2
    · exact below 'z' (by decide) (of_decide_eq_true (Bool.and_eq_true_iff.1 lower).2)
  · exact below '9' (by decide) (isDigit_iff.1 digit).2

theorem isAscii_isDigit : IsAscii Char.isDigit := fun c digit =>
  isAscii_isAlphanum c (by simp [Char.isAlphanum, digit])

theorem isAscii_of_list {p : Char → Bool} (chars : List Char) (listed : ∀ c, p c → c ∈ chars)
    (ascii : chars.all (·.toNat < 128)) : IsAscii p :=
  fun c ofKind => of_decide_eq_true (List.all_eq_true.1 ascii c (listed c ofKind))

theorem sees_eq {p : Char → Bool} (ascii : IsAscii p) (split : source.toList = before ++ rest) :
    sees source p (Text.byteLength before) = rest.head?.any p := by
  rw [sees, ascii?_eq split]
  cases rest with
  | nil => rfl
  | cons c rest =>
    rw [List.head?_cons, Option.filter_some, Option.any_some]
    split
    · rfl
    · next long =>
      cases ofKind : p c with
      | true => exact absurd (ascii c ofKind) (by simpa using long)
      | false => rfl

theorem utf8Size_of_ascii {c : Char} (ascii : c.toNat < 128) : c.utf8Size = 1 :=
  Char.utf8Size_eq_one_iff.2 (UInt32.le_iff_toNat_le.2 (Nat.le_of_lt_succ ascii))

theorem byteLength_snoc {c : Char} (ascii : c.toNat < 128) :
    Text.byteLength (before ++ [c]) = Text.byteLength before + 1 := by
  simp [utf8Size_of_ascii ascii]

theorem skip_eq {p : Char → Bool} (ascii : IsAscii p) (split : source.toList = before ++ rest) :
    skip source p (Text.byteLength before) = Text.byteLength (before ++ rest.takeWhile p) := by
  induction rest generalizing before with
  | nil =>
    rw [skip, sees_eq ascii split]
    simp
  | cons c rest ih =>
    rw [skip, sees_eq ascii split, List.head?_cons, Option.any_some]
    cases ofKind : p c with
    | false => simp [ofKind]
    | true =>
      rw [if_pos rfl, ← byteLength_snoc (ascii c ofKind), ih (by simpa using split),
        List.takeWhile_cons_of_pos ofKind, List.append_assoc, List.singleton_append]

theorem byteLength_eq_utf8Len (cs : List Char) : Text.byteLength cs = String.utf8Len cs := by
  rw [← Text.byteLength_toList (String.ofList cs) |>.trans (String.utf8ByteSize_ofList cs),
    String.toList_ofList]

theorem isValid_of_split (split : source.toList = before ++ rest) :
    String.Pos.Raw.IsValid source ⟨Text.byteLength before⟩ := by
  refine String.Pos.Raw.isValid_iff_exists_append.2
    ⟨String.ofList before, String.ofList rest, ?_, ?_⟩
  · rw [← String.ofList_append, ← split, String.ofList_toList]
  · rw [String.rawEndPos_ofList, byteLength_eq_utf8Len]

theorem cut_eq (split : source.toList = before ++ (part ++ behind)) :
    cut source (Text.byteLength before) (Text.byteLength (before ++ part)) = .ok part := by
  have start := isValid_of_split split
  rw [← List.append_assoc] at split
  have stop := isValid_of_split split
  rw [cut, if_pos ⟨by simp, String.Pos.Raw.isValid_eq_true_iff.2 start,
    String.Pos.Raw.isValid_eq_true_iff.2 stop⟩]
  have whole : source = String.ofList (before ++ part ++ behind) := by
    rw [← split, String.ofList_toList]
  rw [whole, byteLength_eq_utf8Len, byteLength_eq_utf8Len, String.utf8Len_append,
    String.extract_of_valid, String.toList_ofList]

/-! ## Numbers -/

theorem fractionEnd_eq (split : source.toList = before ++ rest) :
    fractionEnd source (Text.byteLength before) =
      Text.byteLength (before ++ fractionPart rest) := by
  have ascii : IsAscii (· = '.') := isAscii_of_list ['.'] (by simp) (by decide)
  rw [fractionEnd, sees_eq ascii split]
  cases rest with
  | nil => simp [fractionPart]
  | cons c rest =>
    by_cases point : c = '.'
    · subst point
      rw [if_pos (by simp), ← byteLength_snoc (c := '.') (by decide),
        skip_eq isAscii_isDigit (by simpa using split), fractionPart]
      simp
    · rw [if_neg (by simpa using point)]
      have bare : fractionPart (c :: rest) = [] := by
        unfold fractionPart
        split
        · next same => exact absurd (List.cons.inj same).1 point
        · rfl
      rw [bare, List.append_nil]

theorem signEnd_eq (split : source.toList = before ++ rest) :
    ∃ sign behind, rest = sign ++ behind ∧
      signEnd source (Text.byteLength before) = Text.byteLength (before ++ sign) ∧
      ∀ e : Char, e = 'e' ∨ e = 'E' → exponentPart (e :: rest) =
        if (behind.takeWhile Char.isDigit).isEmpty then []
        else e :: sign ++ behind.takeWhile Char.isDigit := by
  have ascii : IsAscii fun c => c = '+' ∨ c = '-' :=
    isAscii_of_list ['+', '-'] (by simp) (by decide)
  rw [signEnd, sees_eq ascii split]
  cases rest with
  | nil => exact ⟨[], [], rfl, by simp, fun e isE => by simp [exponentPart]⟩
  | cons s rest =>
    by_cases signed : s = '+' ∨ s = '-'
    · rw [if_pos (by simpa using signed), ← byteLength_snoc (ascii s (by simpa using signed))]
      exact ⟨[s], rest, rfl, rfl, fun e isE => by simp [exponentPart, isE, signed]⟩
    · rw [if_neg (by simpa using signed)]
      exact ⟨[], s :: rest, rfl, by simp, fun e isE => by simp [exponentPart, isE, signed]⟩

theorem exponentEnd_eq (split : source.toList = before ++ rest) :
    exponentEnd source (Text.byteLength before) =
      Text.byteLength (before ++ exponentPart rest) := by
  have ascii : IsAscii fun c => c = 'e' ∨ c = 'E' :=
    isAscii_of_list ['e', 'E'] (by simp) (by decide)
  rw [exponentEnd, sees_eq ascii split]
  cases rest with
  | nil => simp [exponentPart]
  | cons e rest =>
    by_cases isE : e = 'e' ∨ e = 'E'
    · have front : source.toList = before ++ [e] ++ rest := by simpa using split
      obtain ⟨sign, behind, rfl, signed, part⟩ := signEnd_eq front
      rw [← List.append_assoc] at front
      rw [if_pos (by simpa using isE), ← byteLength_snoc (ascii e (by simpa using isE)), signed,
        part e isE]
      dsimp only
      rw [sees_eq isAscii_isDigit front, skip_eq isAscii_isDigit front]
      cases behind with
      | nil => simp
      | cons d behind => cases digit : d.isDigit <;> simp [digit]
    · rw [if_neg (by simpa using isE)]
      simp [exponentPart, isE]

theorem numberEnd_eq (split : source.toList = before ++ rest) :
    numberEnd source (Text.byteLength before) = Text.byteLength (before ++ numberPart rest) := by
  have whole : rest = rest.takeWhile Char.isDigit ++
      rest.drop (rest.takeWhile Char.isDigit).length := (isFront_digits.behind rest).symm
  have first : source.toList = before ++ rest.takeWhile Char.isDigit ++
      rest.drop (rest.takeWhile Char.isDigit).length := by rwa [List.append_assoc, ← whole]
  have point := (isFront_fraction.behind (rest.drop (rest.takeWhile Char.isDigit).length)).symm
  have atExponent := first
  rw [point, ← List.append_assoc] at atExponent
  rw [numberEnd, skip_eq isAscii_isDigit split, fractionEnd_eq first, exponentEnd_eq atExponent,
    List.drop_drop, numberPart]
  simp only [List.append_assoc]

/-! ## Bytes of words -/

theorem size_eq (split : source.toList = before ++ rest) :
    source.utf8ByteSize = Text.byteLength (before ++ rest) := by
  rw [← split, Text.byteLength_toList]

theorem isAscii_symbol {c : Char} {t : Token} (marked : symbol? c = some t) : c.toNat < 128 := by
  unfold symbol? at marked
  split at marked <;> first | decide | cases marked

theorem readNumber_eq (split : source.toList = before ++ rest) :
    readNumber source (Text.byteLength before) (numberEnd source (Text.byteLength before)) =
      match Decimal.readUnsigned? (numberPart rest) with
      | some d => .ok (.number d)
      | none => .error (.wrong (.invalidNumber (String.ofList (numberPart rest)))
        (Text.byteLength before)) := by
  have part := (isFront_number.behind rest).symm
  have whole := split
  rw [part] at whole
  rw [readNumber, numberEnd_eq split, cut_eq whole]
  rfl

theorem skip_name (split : source.toList = before ++ '$' :: rest) :
    skip source Char.isAlphanum (Text.byteLength before + 1) =
      Text.byteLength (before ++ '$' :: rest.takeWhile Char.isAlphanum) := by
  rw [← byteLength_snoc (c := '$') (by decide), skip_eq isAscii_isAlphanum (by simpa using split),
    List.append_assoc, List.singleton_append]

theorem readVariable_eq (split : source.toList = before ++ '$' :: rest) :
    readVariable source (Text.byteLength before)
        (Text.byteLength (before ++ '$' :: rest.takeWhile Char.isAlphanum)) =
      (variableNamed (rest.takeWhile Char.isAlphanum)).mapError
        (.wrong · (Text.byteLength before)) := by
  have whole : source.toList = before ++ ['$'] ++ (rest.takeWhile Char.isAlphanum ++
      rest.dropWhile Char.isAlphanum) := by
    rw [List.takeWhile_append_dropWhile]
    simpa using split
  have name := cut_eq whole
  rw [byteLength_snoc (by decide), List.append_assoc, List.singleton_append] at name
  rw [readVariable, name]
  rfl

theorem refuse_eq {c : Char} (split : source.toList = before ++ c :: rest) :
    refuse source (Text.byteLength before) =
      .error (.wrong (.unexpectedCharacter c) (Text.byteLength before)) := by
  have whole : source.toList = before ++ ((c :: rest) ++ []) := by simpa using split
  rw [refuse, size_eq split, cut_eq whole]
  rfl

theorem readWord_eq {c : Char} (split : source.toList = before ++ c :: rest) :
    readWord source (Text.byteLength before) =
      ((readToken c rest).map fun (t, taken) => (t, Text.byteLength (before ++ taken))).mapError
        (.wrong · (Text.byteLength before)) := by
  have digit : IsAscii fun c => c.isDigit ∨ c = '.' := by
    intro c begins
    rcases of_decide_eq_true begins with digit | rfl
    · exact isAscii_isDigit c digit
    · decide
  have name : IsAscii (· = '$') := isAscii_of_list ['$'] (by simp) (by decide)
  have marked : (source.toByteArray[Text.byteLength before]?.bind ascii?).bind symbol? =
      symbol? c := by
    rw [ascii?_eq split, List.head?_cons, Option.filter_some]
    split
    · rfl
    · next long =>
      cases found : symbol? c with
      | none => rfl
      | some t => exact absurd (isAscii_symbol found) (by simpa using long)
  rw [readWord, readToken, marked]
  cases found : symbol? c with
  | some t =>
    simp only [Except.map, Except.mapError, byteLength_snoc (isAscii_symbol found)]
  | none =>
    dsimp only
    rw [sees_eq digit split, sees_eq name split, List.head?_cons, Option.any_some, Option.any_some]
    by_cases number : c.isDigit ∨ c = '.'
    · rw [if_pos (decide_eq_true number), if_pos number, readNumber_eq split, numberEnd_eq split]
      cases Decimal.readUnsigned? (numberPart (c :: rest)) <;> rfl
    · rw [if_neg (by simpa using number), if_neg number]
      by_cases isName : c = '$'
      · subst isName
        rw [if_pos (by simp), if_pos rfl, skip_name split, readVariable_eq split]
        cases variableNamed (rest.takeWhile Char.isAlphanum) <;> rfl
      · rw [if_neg (by simpa using isName), if_neg isName, refuse_eq split]
        rfl

/-! ## Texts -/

def spots (stop : Nat) (words : List Placed) : List Spot :=
  words.map (fun w => ⟨some w.token, w.offset⟩) ++ [⟨none, stop⟩]

theorem readTokens_append (start : Nat) (found more : List Placed) (cs : List Char) :
    readTokens start (found ++ more) cs =
      (readTokens start found cs).map (more.reverse ++ ·) := by
  induction start, found, cs using readTokens.induct with
  | case1 start found =>
    rw [readTokens, readTokens, List.reverse_append]
    rfl
  | case2 start found c rest white ih => rw [readTokens_blank white, readTokens_blank white, ih]
  | case3 start found c rest solid problem failed =>
    have plain : isBlank c = false := by simpa using solid
    rw [readTokens_error plain failed, readTokens_error plain failed]
    rfl
  | case4 start found c rest solid t taken first ih =>
    have plain : isBlank c = false := by simpa using solid
    rw [readTokens_token plain first, readTokens_token plain first, ← ih, List.cons_append]

section Steps

variable {i stop : Nat}

theorem scanFrom_end : scanFrom source source.utf8ByteSize = .ok [⟨none, source.utf8ByteSize⟩] := by
  rw [scanFrom, if_neg (Nat.lt_irrefl _)]

theorem scanFrom_blank (inside : i < source.utf8ByteSize) (white : sees source isBlank i) :
    scanFrom source i = scanFrom source (i + 1) := by
  rw [scanFrom, if_pos inside, if_pos white]

theorem scanFrom_error {fault : Fault} (inside : i < source.utf8ByteSize)
    (plain : sees source isBlank i = false) (failed : readWord source i = .error fault) :
    scanFrom source i = .error fault := by
  rw [scanFrom, if_pos inside, if_neg (by simp [plain])]
  split
  · next other => simpa [failed] using other.symm
  · next other => simp [failed] at other

theorem scanFrom_word {t : Token} (inside : i < source.utf8ByteSize)
    (plain : sees source isBlank i = false) (read : readWord source i = .ok (t, stop)) :
    scanFrom source i = (scanFrom source stop).map (⟨some t, i⟩ :: ·) := by
  rw [scanFrom, if_pos inside, if_neg (by simp [plain])]
  split
  · next other => simp [read] at other
  · next other =>
    rw [read] at other
    cases other
    rfl

end Steps

theorem scanFrom_eq (split : source.toList = before ++ rest) :
    scanFrom source (Text.byteLength before) =
      ((readTokens (Text.byteLength before) [] rest).map (spots source.utf8ByteSize)).mapError
        fun (problem, offset) => .wrong problem offset := by
  have blank : IsAscii isBlank := isAscii_of_list [' ', '\t', '\n', '\r']
    (by simp [isBlank, or_assoc]) (by decide)
  induction length : rest.length using Nat.strongRecOn generalizing before rest with
  | ind n ih =>
  have size := size_eq split
  cases rest with
  | nil =>
    rw [List.append_nil] at size
    rw [← size, scanFrom_end, readTokens]
    rfl
  | cons c rest =>
    have inside : Text.byteLength before < source.utf8ByteSize := by
      have positive := c.utf8Size_pos
      rw [size, Text.byteLength_append, Text.byteLength_cons]
      omega
    have seen : sees source isBlank (Text.byteLength before) = isBlank c := sees_eq blank split
    have word := readWord_eq split
    cases white : isBlank c with
    | true =>
      have one := utf8Size_of_ascii (blank c white)
      rw [scanFrom_blank inside (seen.trans white), readTokens_blank white, one,
        ← byteLength_snoc (blank c white)]
      exact ih rest.length (by simp [← length]) (by simpa using split) rfl
    | false =>
      cases read : readToken c rest with
      | error problem =>
        rw [read] at word
        rw [scanFrom_error inside (seen.trans white) word, readTokens_error white read]
        rfl
      | ok result =>
        obtain ⟨t, taken⟩ := result
        rw [read] at word
        obtain ⟨behind, whole⟩ : taken <+: c :: rest :=
          readToken_taken read ▸ wordFrom_begins c rest
        have further : source.toList = before ++ taken ++ behind := by
          rw [List.append_assoc, whole, split]
        -- a word takes a character at least, so that the text behind it is shorter
        have shorter := congrArg List.length whole
        have positive := readToken_length_pos read
        rw [List.length_append, length] at shorter
        rw [scanFrom_word inside (seen.trans white) word, readTokens_token white read, ← whole,
          List.drop_left, ← Text.byteLength_append, ih behind.length (by omega) further rfl,
          ← List.nil_append [(⟨t, Text.byteLength before⟩ : Placed)], readTokens_append]
        cases readTokens (Text.byteLength (before ++ taken)) [] behind <;> rfl

/-- Reading byte by byte finds the words of a text, and never cuts a character. -/
theorem scan_eq (source : String) : scan source =
    ((tokenize source.toList).map (spots source.utf8ByteSize)).mapError
      fun (problem, offset) => .wrong problem offset :=
  scanFrom_eq (List.nil_append source.toList).symm

/-! ## Places -/

/-- Words and the end of a text in order: all begin at characters, each behind the one before. -/
structure Ordered (source : String) (found : List Spot) : Prop where
  increasing : (found.map Spot.offset).Pairwise (· < ·)
  boundary : ∀ s ∈ found, String.Pos.Raw.IsValid source ⟨s.offset⟩
  ended : found.getLast? = some ⟨none, source.utf8ByteSize⟩
  words : ∀ s ∈ found.dropLast, s.token?.isSome

theorem ordered_spots {ls : List Lexeme} (spells : Spells ls source.toList) :
    Ordered source (spots source.utf8ByteSize (placed 0 ls)) where
  increasing := by
    have later := spells.increasing 0
    rw [Nat.zero_add, Text.byteLength_toList] at later
    simpa [spots, Function.comp_def] using later
  boundary s member := by
    rcases List.mem_append.1 member with word | final
    · obtain ⟨w, among, rfl⟩ := List.mem_map.1 word
      obtain ⟨before, rest, split, place⟩ := spells.exists_split 0 w among
      change String.Pos.Raw.IsValid source ⟨w.offset⟩
      rw [place, Nat.zero_add]
      exact isValid_of_split split
    · rw [List.mem_singleton.1 final]
      have valid := isValid_of_split (List.append_nil source.toList).symm
      rwa [Text.byteLength_toList] at valid
  ended := List.getLast?_concat
  words s member := by
    rw [spots, List.dropLast_concat] at member
    obtain ⟨w, -, rfl⟩ := List.mem_map.1 member
    rfl

/-- Reading succeeds exactly for the texts that are blanks and words, all as long as they can be,
and finds what is written. The words stand in order, and no text is cut within a character. -/
theorem scans_lexemes (source : String) :
    (∀ words, tokenize source.toList = .ok words ↔
      ∃ ls, Spells ls source.toList ∧ placed 0 ls = words) ∧
    (∀ found, scan source = .ok found ↔
      ∃ words, tokenize source.toList = .ok words ∧ spots source.utf8ByteSize words = found) ∧
    (∀ problem offset, scan source = .error (.wrong problem offset) ↔
      tokenize source.toList = .error (problem, offset)) ∧
    scan source ≠ .error .splitCharacter ∧
    ∀ found, scan source = .ok found → Ordered source found := by
  have same := scan_eq source
  refine ⟨fun words => tokenize_eq_ok_iff, ?_⟩
  cases read : tokenize source.toList with
  | error failure =>
    rw [read] at same
    simp [same, Except.map, Except.mapError, Prod.ext_iff]
  | ok words =>
    rw [read] at same
    obtain ⟨ls, spells, rfl⟩ := tokenize_eq_ok_iff.1 read
    have ordered := ordered_spots spells
    refine ⟨?_, ?_, ?_, ?_⟩
    · simp [same, Except.map, Except.mapError]
    · simp [same, Except.map, Except.mapError]
    · simp [same, Except.map, Except.mapError]
    · rintro found ok
      rw [same] at ok
      cases ok
      exact ordered

theorem scans_lexemes_product : ∃ found, scan "2.5e1 *$07" = .ok found ∧
    Ordered "2.5e1 *$07" found :=
  have read : scan "2.5e1 *$07" = .ok [⟨some (.number ⟨false, 25, 0⟩), 0⟩, ⟨some .star, 6⟩,
    ⟨some (.param 7), 7⟩, ⟨none, 10⟩] := by decide +kernel
  ⟨_, read, (scans_lexemes "2.5e1 *$07").2.2.2.2 _ read⟩

example : scan "1*2.é" = .error (.wrong (.unexpectedCharacter 'é') 4) := by decide +kernel

end Bytes

end Barrage.Expr
