import Barrage.Proofs.Markup.Coherence
import Barrage.Source.Map
import Mathlib.Data.List.DropRight

/-!
Lines of a source and the snippets that show them. The line that a place is on is found by the line
feeds before the place, and its column counts what stands before it on this line. Carriage returns
at the end of the line are not shown, so the place has to stand before them.
-/

set_option autoImplicit false

namespace Barrage

/-! ## Lines -/

namespace Text

variable {mark : Char}

theorem splitOnChar_cons (mark c : Char) (cs : List Char) : splitOnChar mark (c :: cs) =
    if c = mark then [] :: splitOnChar mark cs else
      match splitOnChar mark cs with
      | [] => [[c]]
      | part :: rest => (c :: part) :: rest := rfl

theorem splitOnChar_of_notMem {line : List Char} (plain : mark ∉ line) :
    splitOnChar mark line = [line] := by
  induction line with
  | nil => rfl
  | cons c cs ih =>
    rw [List.mem_cons, not_or] at plain
    rw [splitOnChar_cons, if_neg (Ne.symm plain.1), ih plain.2]

theorem splitOnChar_ne_nil (mark : Char) (cs : List Char) : splitOnChar mark cs ≠ [] := by
  cases cs with
  | nil => nofun
  | cons c cs =>
    rw [splitOnChar_cons]
    split
    · nofun
    · split <;> nofun

theorem splitOnChar_append (mark : Char) (front back : List Char) :
    splitOnChar mark (front ++ mark :: back) = splitOnChar mark front ++ splitOnChar mark back := by
  induction front with
  | nil => rw [List.nil_append, splitOnChar_cons, if_pos rfl]; rfl
  | cons c cs ih =>
    rw [List.cons_append, splitOnChar_cons, splitOnChar_cons, ih]
    split
    · rfl
    · obtain ⟨part, rest, same⟩ := List.exists_cons_of_ne_nil (splitOnChar_ne_nil mark cs)
      rw [same]
      rfl

theorem length_splitOnChar (mark : Char) (cs : List Char) :
    (splitOnChar mark cs).length = cs.count mark + 1 := by
  induction cs with
  | nil => rfl
  | cons c cs ih =>
    rw [splitOnChar_cons, List.count_cons]
    split
    · next same => simp [same, ih]
    · next other =>
      obtain ⟨part, rest, same⟩ := List.exists_cons_of_ne_nil (splitOnChar_ne_nil mark cs)
      rw [same, List.length_cons] at ih
      simp [same, other, ih]

/-- A line of a source between what is above and what is below it, where a line feed comes first. -/
structure IsLine (source above line below : List Char) : Prop where
  whole : source = above ++ (line ++ below)
  above : above = [] ∨ above.getLast? = some '\n'
  below : below = [] ∨ below.head? = some '\n'
  plain : '\n' ∉ line

theorem IsLine.getElem?_splitOnChar {source above line below : List Char}
    (isLine : IsLine source above line below) :
    (splitOnChar '\n' source)[above.count '\n']? = some line := by
  have first : (splitOnChar '\n' (line ++ below))[0]? = some line := by
    obtain rfl | ends := isLine.below
    · rw [List.append_nil, splitOnChar_of_notMem isLine.plain]
      rfl
    · obtain ⟨rest, rfl⟩ := List.head?_eq_some_iff.1 ends
      rw [splitOnChar_append, splitOnChar_of_notMem isLine.plain]
      rfl
  rw [isLine.whole]
  obtain rfl | ends := isLine.above
  · exact first
  · obtain ⟨front, rfl⟩ := List.getLast?_eq_some_iff.1 ends
    have length := length_splitOnChar '\n' front
    rw [List.append_assoc, List.singleton_append, splitOnChar_append,
      List.getElem?_append_right (by simp [length]), length]
    simpa using first

theorem getLast?_rdropWhile {p : Char → Bool} {c : Char} {cs : List Char}
    (last : (cs.rdropWhile p).getLast? = some c) : p c = false := by
  have first := List.head?_dropWhile_not p cs.reverse
  rw [List.rdropWhile, List.getLast?_reverse] at last
  rw [last] at first
  exact first

theorem exists_isLine (before after : List Char) : ∃ above left right below,
    before = above ++ left ∧ after = right ++ below ∧
      IsLine (before ++ after) above (left ++ right) below := by
  let inside : Char → Bool := (· ≠ '\n')
  have front := @List.rdropWhile_append_rtakeWhile _ inside before
  have back := @List.takeWhile_append_dropWhile _ inside after
  refine ⟨_, _, _, _, front.symm, back.symm, ?_, ?_, ?_, ?_⟩
  · rw [List.append_assoc (before.rtakeWhile inside), back, ← List.append_assoc, front]
  · cases last : (before.rdropWhile inside).getLast? with
    | none => exact .inl (List.getLast?_eq_none_iff.1 last)
    | some c => exact .inr (congrArg some (by simpa [inside] using getLast?_rdropWhile last))
  · cases first : (after.dropWhile inside).head? with
    | none => exact .inl (List.head?_eq_none_iff.1 first)
    | some c =>
      have outside := List.head?_dropWhile_not inside after
      rw [first] at outside
      exact .inr (congrArg some (by simpa [inside] using outside))
  · intro member
    rcases List.mem_append.1 member with member | member
    · simpa [inside] using List.mem_rtakeWhile_imp member
    · simpa [inside] using List.mem_takeWhile_imp member

end Text

/-- What the position behind a beginning of a source says, if this ends on a known line. -/
theorem Position.start_advanceAll_line {above left : List Char}
    (ends : above = [] ∨ above.getLast? = some '\n') (plain : '\n' ∉ left) :
    Position.start.advanceAll (above ++ left) =
      ⟨Text.byteLength (above ++ left), (above.count '\n' + 1 : Nat),
        (left.length + 1 : Nat)⟩ := by
  have inside : ∀ c ∈ left.reverse, decide (c ≠ '\n') := by
    intro c member
    rw [decide_eq_true_eq]
    rintro rfl
    exact plain (List.mem_reverse.1 member)
  have run : (above ++ left).reverse.takeWhile (· ≠ '\n') = left.reverse := by
    rw [List.reverse_append, List.takeWhile_append_of_pos inside]
    obtain rfl | ends := ends
    · simp
    · obtain ⟨front, rfl⟩ := List.getLast?_eq_some_iff.1 ends
      simp
  rw [start_advanceAll, run, List.length_reverse, List.count_append,
    List.count_eq_zero_of_not_mem plain, Nat.add_zero, Nat.add_comm, Nat.add_comm 1 left.length]

/-! ## Snippets -/

/-- A place of a source is on a line, behind a beginning of it. The line is what stands between line
feeds, without the carriage returns at its end. -/
structure Position.OnLine (source : String) (p : Position) (before line : List Char) : Prop where
  between : ∃ above returns below, Text.IsLine source.toList above (line ++ returns) below ∧
    (∀ c ∈ returns, c = '\r') ∧ p = Position.start.advanceAll (above ++ before)
  bare : line.getLast? ≠ some '\r'
  begins : before <+: line

section Counts

variable {source : String} {p : Position} {before line : List Char}
  (on : p.OnLine source before line) (short : p.offset + 1 < UInt32.size)
include on short

/-- In a short source, a place tells the line feeds above its line and the characters before it. -/
theorem Position.OnLine.counts : ∃ above returns below,
    Text.IsLine source.toList above (line ++ returns) below ∧ (∀ c ∈ returns, c = '\r') ∧
      (p.line : Nat) = above.count '\n' + 1 ∧ (p.column : Nat) = before.length + 1 := by
  obtain ⟨above, returns, below, isLine, onlyReturns, rfl⟩ := on.between
  have plain : '\n' ∉ before := by
    obtain ⟨rest, rfl⟩ := on.begins
    exact fun member => isLine.plain (by simp [member])
  rw [start_advanceAll_line isLine.above plain] at short ⊢
  have feeds := List.count_le_length (a := '\n') (l := above)
  have bytes := Markup.length_le_byteLength (above ++ before)
  rw [List.length_append] at bytes
  have fits : above.count '\n' + 1 < UInt32.size ∧ before.length + 1 < UInt32.size := by
    dsimp only at short
    omega
  exact ⟨above, returns, below, isLine, onlyReturns, UInt32.toNat_ofNat_of_lt' fits.1,
    UInt32.toNat_ofNat_of_lt' fits.2⟩

theorem Position.OnLine.column : (p.column : Nat) = before.length + 1 := by
  obtain ⟨_, _, _, -, -, -, column⟩ := on.counts short
  exact column

end Counts

theorem SourceMap.trim_returns {line returns : List Char} (onlyReturns : ∀ c ∈ returns, c = '\r')
    (bare : line.getLast? ≠ some '\r') :
    ((line ++ returns).reverse.dropWhile (· = '\r')).reverse = line := by
  have dropped : ∀ c ∈ returns.reverse, decide (c = '\r') := fun c member =>
    decide_eq_true (onlyReturns c (List.mem_reverse.1 member))
  rw [List.reverse_append, List.dropWhile_append_of_pos dropped]
  cases same : line.reverse with
  | nil => rw [List.reverse_eq_nil_iff.1 same]; rfl
  | cons c cs =>
    have other : c ≠ '\r' := by
      rintro rfl
      rw [← List.head?_reverse, same] at bare
      exact bare rfl
    rw [List.dropWhile_cons_of_neg (by simpa using other), ← same, List.reverse_reverse]

theorem Position.OnLine.line?_eq {source : String} {p : Position} {before line : List Char}
    (on : p.OnLine source before line) (short : p.offset + 1 < UInt32.size) :
    (SourceMap.ofSource source).line? p.line = some line := by
  obtain ⟨above, returns, below, isLine, onlyReturns, number, -⟩ := on.counts short
  rw [number, SourceMap.line?, SourceMap.ofSource, if_neg (Nat.succ_ne_zero _),
    Nat.add_sub_cancel, List.getElem?_toArray, isLine.getElem?_splitOnChar, Option.map_some,
    SourceMap.trim_returns onlyReturns on.bare]

/-- Something is behind a place of a source, and either no carriage return is before it or what is
behind it is on its line and no carriage return. -/
def Position.Clear (source : List Char) (p : Position) : Prop :=
  ∃ before after, source = before ++ after ∧ after ≠ [] ∧ p = Position.start.advanceAll before ∧
    (before.getLast? ≠ some '\r' ∨ ∃ c ∈ after.head?, c ≠ '\r' ∧ c ≠ '\n')

theorem Position.Clear.offset_lt {source : String} {p : Position} (clear : p.Clear source.toList) :
    p.offset < source.utf8ByteSize := by
  obtain ⟨before, after, split, more, rfl, -⟩ := clear
  have bytes := Markup.length_le_byteLength after
  have behind := List.length_pos_iff.2 more
  rw [start_advanceAll, ← Text.byteLength_toList, split, Text.byteLength_append]
  dsimp only
  omega

theorem Position.Clear.exists_onLine {source : String} {p : Position}
    (clear : p.Clear source.toList) : ∃ before line, p.OnLine source before line := by
  obtain ⟨before, after, split, -, rfl, edge⟩ := clear
  obtain ⟨above, left, right, below, rfl, rfl, isLine⟩ := Text.exists_isLine before after
  let isReturn : Char → Bool := (· = '\r')
  have whole := @List.rdropWhile_append_rtakeWhile _ isReturn (left ++ right)
  have onlyReturns : ∀ c ∈ (left ++ right).rtakeWhile isReturn, c = '\r' := by
    intro c member
    simpa [isReturn] using List.mem_rtakeWhile_imp member
  refine ⟨left, _, ⟨above, _, below, by rwa [whole, split], onlyReturns, rfl⟩, ?_, ?_⟩
  · intro last
    simpa [isReturn] using Text.getLast?_rdropWhile last
  · obtain ⟨returns, same, rest⟩ | ⟨rest, same, -⟩ := List.append_eq_append_iff.1 whole
    · rw [rest] at onlyReturns
      rcases List.eq_nil_or_concat returns with rfl | ⟨front, last, rfl⟩
      · rw [List.append_nil] at same
        exact ⟨[], by rw [List.append_nil, ← same]⟩
      · -- returns on both sides of the place
        obtain rfl := onlyReturns last (by simp)
        exfalso
        rcases edge with edge | ⟨c, first, other, inside⟩
        · exact edge (by rw [same]; simp)
        · cases right with
          | nil =>
            rcases isLine.below with rfl | feed
            · cases first
            · exact inside (Option.some.inj (Eq.trans (Eq.symm first) feed))
          | cons d right =>
            cases first
            exact other (onlyReturns c (by simp))
    · exact ⟨rest, same.symm⟩

namespace SourceMap

/-- A message above a line of a source, with carets below the line behind a margin. -/
def snippet (message : String) (p : Position) (line : List Char) (margin carets : Nat) : String :=
  let gutter := toString p.line
  let pad := spaces gutter.length
  let underline := String.ofList (List.replicate carets '^')
  s!"error: {message}\n  --> {p.text}\n" ++ s!"{pad} |\n{gutter} | {String.ofList line}\n"
    ++ s!"{pad} | {spaces margin}{underline}\n"

/-- The snippet of a span that starts on a line has carets from the column of its start on. -/
theorem render?_eq {source : String} {span : Span} {before line : List Char}
    (on : span.start.OnLine source before line) (short : span.start.offset + 1 < UInt32.size)
    (message : String) : ∃ carets, 0 < carets ∧ (ofSource source).render? span message =
        some (snippet message span.start line before.length carets) := by
  have column := on.column short
  have within := on.begins.length_le
  have width : ∃ width, underline? span line = some width := by
    unfold underline?
    split
    · exact ⟨_, rfl⟩
    · rw [if_pos (by omega)]
      exact ⟨_, rfl⟩
  obtain ⟨width, same⟩ := width
  refine ⟨max width 1, by omega, ?_⟩
  rw [render?, on.line?_eq short]
  simp only [same, column, Nat.add_sub_cancel]
  rfl

end SourceMap

end Barrage
