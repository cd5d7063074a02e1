import Barrage.Text.CharClass

/-!
Measures and cuts of text. Lengths are counted in UTF-8 bytes where a limit is a storage limit,
and in characters where a reader counts columns.
-/

set_option autoImplicit false

namespace Barrage.Text

def byteLength (cs : List Char) : Nat :=
  cs.foldl (fun n c => n + c.utf8Size) 0

theorem foldl_utf8Size (cs : List Char) (n : Nat) :
    cs.foldl (fun n c => n + c.utf8Size) n = n + byteLength cs := by
  unfold byteLength
  induction cs generalizing n with
  | nil => simp
  | cons c cs ih => rw [List.foldl_cons, List.foldl_cons, ih, ih (0 + c.utf8Size)]; omega

@[simp] theorem byteLength_nil : byteLength [] = 0 := rfl

@[simp] theorem byteLength_cons (c : Char) (cs : List Char) :
    byteLength (c :: cs) = c.utf8Size + byteLength cs := by
  rw [byteLength, List.foldl_cons, foldl_utf8Size, Nat.zero_add]

@[simp] theorem byteLength_append (as bs : List Char) :
    byteLength (as ++ bs) = byteLength as + byteLength bs := by
  induction as with
  | nil => simp
  | cons a as ih => simp [ih, Nat.add_assoc]

def isBlankText (s : String) : Bool := s.toList.all isBlank

def trim (cs : List Char) : List Char :=
  ((cs.dropWhile isBlank).reverse.dropWhile isBlank).reverse

/-- The text before the first occurrence of a delimiter, put after `seen`, and the text behind it.
-/
def breakOnFrom (delimiter seen : List Char) : List Char → Option (List Char × List Char)
  | [] => if delimiter.isEmpty then some (seen.reverse, []) else none
  | c :: cs =>
    if delimiter.isPrefixOf (c :: cs) then some (seen.reverse, (c :: cs).drop delimiter.length)
    else breakOnFrom delimiter (c :: seen) cs

/-- The text before the first occurrence of a delimiter and the text behind it. -/
def breakOn (delimiter cs : List Char) : Option (List Char × List Char) :=
  breakOnFrom delimiter [] cs

theorem breakOnFrom_append {delimiter seen cs before after : List Char}
    (h : breakOnFrom delimiter seen cs = some (before, after)) :
    before ++ delimiter ++ after = seen.reverse ++ cs := by
  induction cs generalizing seen with
  | nil =>
    simp only [breakOnFrom] at h
    split at h <;> simp_all
  | cons c cs ih =>
    simp only [breakOnFrom] at h
    split at h
    · rename_i hp
      obtain ⟨rfl, rfl⟩ := by simpa using h
      obtain ⟨t, ht⟩ := List.isPrefixOf_iff_prefix.1 hp
      simp [← ht]
    · simpa using ih h

theorem breakOn_append {delimiter cs before after : List Char}
    (h : breakOn delimiter cs = some (before, after)) : before ++ delimiter ++ after = cs := by
  simpa using breakOnFrom_append h

/-- Splits a text at every occurrence of a character; there is always one part more than cuts. -/
def splitOnChar (mark : Char) (cs : List Char) : List (List Char) :=
  cs.foldr (fun c parts => if c = mark then [] :: parts else
    match parts with
    | [] => [[c]]
    | part :: rest => (c :: part) :: rest) [[]]

def digitValue? (c : Char) : Option Nat :=
  if '0' ≤ c ∧ c ≤ '9' then some (c.toNat - '0'.toNat)
  else if 'a' ≤ c ∧ c ≤ 'f' then some (c.toNat - 'a'.toNat + 10)
  else if 'A' ≤ c ∧ c ≤ 'F' then some (c.toNat - 'A'.toNat + 10)
  else none

/-- Reads digits of a base, most significant first, on top of a value read before. -/
def digitsFrom? (base value : Nat) : List Char → Option Nat
  | [] => some value
  | c :: cs =>
    match digitValue? c with
    | some d => if d < base then digitsFrom? base (value * base + d) cs else none
    | none => none

/-- Reads a number below `limit`: one or more digits of the base, after an optional plus sign. -/
def readNat? (base limit : Nat) (cs : List Char) : Option Nat :=
  let digits := match cs with
    | '+' :: rest => rest
    | _ => cs
  if digits.isEmpty then none
  else (digitsFrom? base 0 digits).filter (· < limit)

def lowerAscii (s : String) : String := String.ofList (s.toList.map Char.toLower)

end Barrage.Text
