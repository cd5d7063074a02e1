import Barrage.Proofs.Expression.Spacing
import Barrage.Proofs.Markup.CharacterData

/-!
Expressions whose text is a list of runs. Leaving blank runs out changes no expression if they stand
before or behind all the others and the text is not too long. A blank run between two others is part
of what is compiled, so leaving it out makes another expression.
-/

set_option autoImplicit false

namespace Barrage

namespace Text

/-! ## Blanks at the ends -/

theorem length_dropWhile_le {p : Char → Bool} {xs ys : List Char} (sublist : xs.Sublist ys) :
    (xs.dropWhile p).length ≤ (ys.dropWhile p).length := by
  induction sublist with
  | slnil => exact Nat.le_refl _
  | @cons xs ys c sublist ih =>
    by_cases drop : p c
    · rwa [List.dropWhile_cons_of_pos drop]
    · rw [List.dropWhile_cons_of_neg drop]
      exact Nat.le_succ_of_le ((List.dropWhile_sublist p).trans sublist).length_le
  | @cons_cons xs ys c sublist ih =>
    by_cases drop : p c
    · rwa [List.dropWhile_cons_of_pos drop, List.dropWhile_cons_of_pos drop]
    · rw [List.dropWhile_cons_of_neg drop, List.dropWhile_cons_of_neg drop]
      exact Nat.succ_le_succ sublist.length_le

theorem dropWhile_append_of_some {xs ys : List Char} (someSolid : ∃ c ∈ xs, ¬ isBlank c) :
    (xs ++ ys).dropWhile isBlank = xs.dropWhile isBlank ++ ys := by
  obtain ⟨c, member, solid⟩ := someSolid
  have left : xs.dropWhile isBlank ≠ [] := by
    intro allBlank
    exact solid (List.dropWhile_eq_nil_iff.1 allBlank c member)
  rw [List.dropWhile_append, if_neg (by simpa using left)]

theorem length_trim_append {xs ys : List Char} (someLeft : ∃ c ∈ xs, ¬ isBlank c)
    (someRight : ∃ c ∈ ys, ¬ isBlank c) :
    (trim (xs ++ ys)).length =
      (xs.dropWhile isBlank).length + (ys.reverse.dropWhile isBlank).length := by
  obtain ⟨c, member, solid⟩ := someRight
  have someBack : ∃ c ∈ ys.reverse, ¬ isBlank c := ⟨c, List.mem_reverse.2 member, solid⟩
  rw [trim, dropWhile_append_of_some someLeft, List.reverse_append,
    dropWhile_append_of_some someBack]
  simp

/-! ## Blank runs -/

variable {runs : List String}

theorem kept_append (front back : List String) : kept (front ++ back) = kept front ++ kept back :=
  List.filter_append _ _

theorem kept_eq_nil_iff : kept runs = [] ↔ ∀ run ∈ runs, isBlankText run := by
  simp [kept, List.filter_eq_nil_iff]

theorem isBlank_of_mem_join (blank : kept runs = []) :
    ∀ c ∈ (String.join runs).toList, isBlank c := by
  intro c member
  rw [String.toList_join, List.mem_flatMap] at member
  obtain ⟨run, inside, member⟩ := member
  exact List.all_eq_true.1 (kept_eq_nil_iff.1 blank run inside) c member

theorem exists_of_kept_ne_nil (nonempty : kept runs ≠ []) :
    ∃ c ∈ (String.join (kept runs)).toList, ¬ isBlank c := by
  obtain ⟨run, inside⟩ := List.exists_mem_of_ne_nil _ nonempty
  obtain ⟨-, solid⟩ := List.mem_filter.1 inside
  obtain ⟨c, member, solid⟩ : ∃ c ∈ run.toList, ¬ isBlank c := by
    simpa [isBlankText] using solid
  exact ⟨c, by rw [String.toList_join]; exact List.mem_flatMap.2 ⟨run, inside, member⟩, solid⟩

theorem join_kept_sublist (runs : List String) :
    (String.join (kept runs)).toList.Sublist (String.join runs).toList := by
  induction runs with
  | nil => exact .refl _
  | cons run runs ih =>
    rw [String.join_cons, String.toList_append]
    cases white : isBlankText run with
    | true =>
      rw [kept_cons_of_blank white]
      exact ih.trans (List.sublist_append_right _ _)
    | false =>
      rw [kept_cons_of_not_blank white, String.join_cons, String.toList_append]
      exact List.Sublist.append (.refl _) ih

/-- The blank runs, but for empty ones, stand before or behind all the others. -/
def BlankOutside (runs : List String) : Prop :=
  ∀ front run back, runs = front ++ run :: back → isBlankText run → run ≠ "" →
    kept front = [] ∨ kept back = []

/-- The blank runs, but for empty ones, stand behind all the others. -/
def BlankBehind (runs : List String) : Prop :=
  ∀ front run back, runs = front ++ run :: back → isBlankText run → run ≠ "" → kept back = []

theorem join_of_blankBehind (behind : BlankBehind runs) :
    ∃ blanks, (∀ c ∈ blanks, isBlank c) ∧
      (String.join runs).toList = (String.join (kept runs)).toList ++ blanks := by
  induction runs with
  | nil => exact ⟨[], by simp, rfl⟩
  | cons run runs ih =>
    have inner : BlankBehind runs := by
      rintro front blank back rfl
      exact behind (run :: front) blank back rfl
    cases white : isBlankText run with
    | false =>
      obtain ⟨blanks, blank, whole⟩ := ih inner
      refine ⟨blanks, blank, ?_⟩
      rw [kept_cons_of_not_blank white, String.join_cons, String.join_cons, String.toList_append,
        String.toList_append, whole, List.append_assoc]
    | true =>
      rw [kept_cons_of_blank white]
      by_cases empty : run = ""
      · subst empty
        simpa using ih inner
      · have rest := behind [] run runs rfl white empty
        have all : kept (run :: runs) = [] := (kept_cons_of_blank white).trans rest
        rw [rest]
        exact ⟨_, isBlank_of_mem_join all, rfl⟩

theorem trim_kept_of_blankOutside (outside : BlankOutside runs) :
    trim (String.join (kept runs)).toList = trim (String.join runs).toList := by
  induction runs with
  | nil => rfl
  | cons run runs ih =>
    cases white : isBlankText run with
    | true =>
      have inner : BlankOutside runs := by
        rintro front blank back rfl
        have either := outside (run :: front) blank back rfl
        rwa [kept_cons_of_blank white] at either
      rw [kept_cons_of_blank white, String.join_cons, String.toList_append,
        trim_append_left (List.all_eq_true.1 white), ih inner]
    | false =>
      have behind : BlankBehind runs := by
        rintro front blank back rfl whiteToo nonempty
        have either := outside (run :: front) blank back rfl whiteToo nonempty
        rw [kept_cons_of_not_blank white] at either
        exact either.resolve_left (List.cons_ne_nil _ _)
      obtain ⟨blanks, blank, whole⟩ := join_of_blankBehind behind
      rw [kept_cons_of_not_blank white, String.join_cons, String.join_cons, String.toList_append,
        String.toList_append, whole, ← List.append_assoc, trim_append_right blank]

/-- White space at the ends hides blank runs that are left out exactly if they stand outside. -/
theorem trim_kept_iff :
    trim (String.join (kept runs)).toList = trim (String.join runs).toList ↔
      BlankOutside runs := by
  refine ⟨fun same => ?_, trim_kept_of_blankOutside⟩
  rintro front run back rfl white nonempty
  by_contra between
  obtain ⟨someFront, someBack⟩ := not_or.1 between
  have keptFront := exists_of_kept_ne_nil someFront
  have keptBack := exists_of_kept_ne_nil someBack
  have wholeFront : ∃ c ∈ (String.join front).toList, ¬ isBlank c := by
    obtain ⟨c, member, solid⟩ := keptFront
    exact ⟨c, (join_kept_sublist front).subset member, solid⟩
  have wholeBack : ∃ c ∈ (String.join back).toList.reverse, ¬ isBlank c := by
    obtain ⟨c, member, solid⟩ := keptBack
    exact ⟨c, List.mem_reverse.2 ((join_kept_sublist back).subset member), solid⟩
  have wholeBehind : ∃ c ∈ run.toList ++ (String.join back).toList, ¬ isBlank c := by
    obtain ⟨c, member, solid⟩ := wholeBack
    exact ⟨c, List.mem_append_right _ (List.mem_reverse.1 member), solid⟩
  -- the run is there once more in the longer text, with nothing to trim beside it
  have lengths := congrArg List.length same
  rw [kept_append, kept_cons_of_blank white, String.join_append, String.join_append,
    String.join_cons, String.toList_append, String.toList_append, String.toList_append,
    length_trim_append keptFront keptBack, length_trim_append wholeFront wholeBehind,
    List.reverse_append, dropWhile_append_of_some wholeBack, List.length_append,
    List.length_reverse] at lengths
  have left := length_dropWhile_le (p := isBlank) (join_kept_sublist front)
  have right := length_dropWhile_le (p := isBlank) (join_kept_sublist back).reverse
  have positive : 0 < run.toList.length := by
    rw [List.length_pos_iff, Ne, String.toList_eq_nil_iff]
    exact nonempty
  omega

end Text

namespace Expression

open Text (kept isBlankText BlankOutside)

variable {runs : List String}

theorem size_join (runs : List String) :
    (String.join runs).utf8ByteSize =
      (String.join (kept runs)).utf8ByteSize +
        (String.join (runs.filter isBlankText)).utf8ByteSize := by
  induction runs with
  | nil => rfl
  | cons run runs ih =>
    rw [String.join_cons, String.utf8ByteSize_append, ih]
    cases white : isBlankText run with
    | true =>
      rw [Text.kept_cons_of_blank white, List.filter_cons_of_pos white, String.join_cons,
        String.utf8ByteSize_append]
      omega
    | false =>
      rw [Text.kept_cons_of_not_blank white, List.filter_cons_of_neg (by simp [white]),
        String.join_cons, String.utf8ByteSize_append]
      omega

theorem size_join_kept_le (runs : List String) :
    (String.join (kept runs)).utf8ByteSize ≤ (String.join runs).utf8ByteSize := by
  rw [size_join runs]
  exact Nat.le_add_right _ _

theorem size_join_kept_iff :
    (String.join (kept runs)).utf8ByteSize = (String.join runs).utf8ByteSize ↔
      ∀ run ∈ runs, isBlankText run → run = "" := by
  have empty : (String.join runs).utf8ByteSize = (String.join (kept runs)).utf8ByteSize ↔
      String.join (runs.filter isBlankText) = "" := by
    rw [size_join, Nat.add_eq_left, String.utf8ByteSize_eq_zero_iff]
  rw [eq_comm, empty, ← String.toList_eq_nil_iff, String.toList_join, List.flatMap_eq_nil_iff]
  simp only [List.mem_filter, String.toList_eq_nil_iff, and_imp]

/-- Without its blank runs a text is the same expression exactly if nothing but empty runs is left
out, or if the text is not too long and what is left out stands before or behind all the rest. -/
theorem parse_kept_iff :
    parse (String.join (kept runs)) = parse (String.join runs) ↔
      (∀ run ∈ runs, isBlankText run → run = "") ∨
        ((String.join runs).utf8ByteSize ≤ maxLength ∧ BlankOutside runs) := by
  rw [parse_eq_iff, Text.trim_kept_iff]
  constructor
  · rintro (⟨-, short, outside⟩ | ⟨-, same⟩)
    · exact .inr ⟨short, outside⟩
    · exact .inl (size_join_kept_iff.1 same)
  · rintro (empty | ⟨short, outside⟩)
    · have same := size_join_kept_iff.2 empty
      have outside : BlankOutside runs := by
        rintro front run back rfl white nonempty
        exact absurd (empty run (List.mem_append_right _ List.mem_cons_self) white) nonempty
      rcases Nat.lt_or_ge maxLength (String.join (kept runs)).utf8ByteSize with long | short
      · exact .inr ⟨long, same⟩
      · exact .inl ⟨short, same ▸ short, outside⟩
    · exact .inl ⟨(size_join_kept_le runs).trans short, short, outside⟩

end Expression

end Barrage
