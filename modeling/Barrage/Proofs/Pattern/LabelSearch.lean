import Barrage.Proofs.Pattern.EntryPoints
import Mathlib.Logic.Relation

/-!
Which of several nodes with a label a search finds. The search looks at all children of a node
before it goes below one of them, but it goes below the first child to the end before it turns to
the next. So the node found need not be the first in document order, nor the one with the fewest
nodes above it.
-/

set_option autoImplicit false

namespace Barrage

namespace Tree

/-- The second node is a child of the first, or below a child of it. -/
def Below (t : Tree) : NodeId → NodeId → Prop := Relation.TransGen fun i c => c ∈ t.children i

/-- The path down from a start to the node above the one that is picked. -/
structure Picks (t : Tree) (wanted : NodeId → Bool) (start : NodeId) (path : List NodeId)
    (r : NodeId) : Prop where
  starts : path.head? = some start
  ends : ∃ p before after, path.getLast? = some p ∧ t.children p = before ++ r :: after ∧
    wanted r ∧ ∀ b ∈ before, ¬ wanted b
  descends : ∀ front p c back, path = front ++ p :: c :: back →
    (∀ d ∈ t.children p, ¬ wanted d) ∧ ∃ before after, t.children p = before ++ c :: after ∧
      ∀ b ∈ before, ∀ d, t.Below b d → ¬ wanted d

variable {t : Tree} {wanted : NodeId → Bool} {start p c r : NodeId} {path back : List NodeId}

namespace Picks

theorem single (before after : List NodeId) (here : t.children p = before ++ r :: after)
    (isWanted : wanted r) (first : ∀ b ∈ before, ¬ wanted b) : t.Picks wanted p [p] r where
  starts := rfl
  ends := ⟨p, before, after, rfl, here, isWanted, first⟩
  descends front q c back split := by
    have short := congrArg List.length split
    simp only [List.length_append, List.length_cons, List.length_nil] at short
    omega

theorem cons (noChild : ∀ d ∈ t.children p, ¬ wanted d) (before after : List NodeId)
    (here : t.children p = before ++ c :: after)
    (first : ∀ b ∈ before, ∀ d, t.Below b d → ¬ wanted d)
    (rest : t.Picks wanted c (c :: back) r) : t.Picks wanted p (p :: c :: back) r where
  starts := rfl
  ends := by simpa using rest.ends
  descends front q d deeper split := by
    cases front with
    | nil =>
      obtain ⟨rfl, rfl, rfl⟩ : p = q ∧ c = d ∧ back = deeper := by simpa using split
      exact ⟨noChild, before, after, here, first⟩
    | cons e front =>
      exact rest.descends front q d deeper (List.cons.inj split).2

theorem tail (picks : t.Picks wanted start (p :: c :: back) r) :
    t.Picks wanted c (c :: back) r where
  starts := rfl
  ends := by simpa using picks.ends
  descends front q d deeper split :=
    picks.descends (p :: front) q d deeper (congrArg (p :: ·) split)

end Picks

/-! ## What is searched -/

variable {label : String} {kind : Kind}

theorem findLabel?_eq (t : Tree) (label : String) (kind : Kind) (start : NodeId) :
    t.findLabel? label kind start = ((t.children start).find? (t.isLabelled label kind)).or
      ((t.children start).findSome? (t.findLabel? label kind)) := by
  rw [findLabel?, ← childrenAbove_map_val t start, List.findSome?_map]
  split
  · next found => rw [found, Option.some_or]
  · next noChild => rw [noChild, Option.none_or]; rfl

theorem below_of_findLabel? (found : t.findLabel? label kind start = some r) :
    t.Below start r := by
  fun_induction t.findLabel? label kind start with
  | case1 start c first =>
    obtain rfl := Option.some.inj found
    exact .single (List.mem_of_find?_eq_some first)
  | case2 start noChild ih =>
    obtain ⟨⟨c, above⟩, member, deeper⟩ := List.exists_of_findSome?_eq_some found
    exact (ih c above deeper).head (mem_children_of_childrenAbove member)

/-- A search finds a node if and only if there is one below its start. -/
theorem isSome_findLabel?_iff : (t.findLabel? label kind start).isSome ↔
    ∃ d, t.Below start d ∧ t.isLabelled label kind d := by
  constructor
  · intro found
    obtain ⟨r, found⟩ := Option.isSome_iff_exists.1 found
    exact ⟨r, below_of_findLabel? found, isLabelled_of_findLabel? found⟩
  · rintro ⟨d, below, labelled⟩
    induction below using Relation.TransGen.head_induction_on with
    | single inside => exact findLabel?_of_child inside (.inl labelled)
    | head inside _ found => exact findLabel?_of_child inside (.inr found)

theorem findLabel?_eq_none_iff : t.findLabel? label kind start = none ↔
    ∀ d, t.Below start d → ¬ t.isLabelled label kind d := by
  rw [← Option.not_isSome_iff_eq_none, isSome_findLabel?_iff, not_exists]
  simp only [not_and]

/-! ## What is found -/

theorem findLabel?_eq_some_iff : t.findLabel? label kind start = some r ↔
    (t.children start).find? (t.isLabelled label kind) = some r ∨
      (∀ c ∈ t.children start, ¬ t.isLabelled label kind c) ∧
        ∃ before c after, t.children start = before ++ c :: after ∧
          t.findLabel? label kind c = some r ∧
          ∀ b ∈ before, ∀ d, t.Below b d → ¬ t.isLabelled label kind d := by
  rw [findLabel?_eq, Option.or_eq_some_iff, List.find?_eq_none, List.findSome?_eq_some_iff]
  simp only [findLabel?_eq_none_iff]

theorem exists_picks (start : NodeId) (found : t.findLabel? label kind start = some r) :
    ∃ back, t.Picks (t.isLabelled label kind) start (start :: back) r := by
  rcases findLabel?_eq_some_iff.1 found with
    stops | ⟨noChild, before, c, after, here, deeper, first⟩
  · obtain ⟨labelled, before, after, here, first⟩ := List.find?_eq_some_iff_append.1 stops
    exact ⟨[], .single before after here labelled fun b inside => by simpa using first b inside⟩
  · have := lt_of_mem_children (here ▸ List.mem_append_right before List.mem_cons_self)
    obtain ⟨back, rest⟩ := exists_picks c deeper
    exact ⟨c :: back, .cons noChild before after here first rest⟩
termination_by t.size - start
decreasing_by exact Nat.sub_lt_sub_left (Nat.lt_trans this.1 this.2) this.1

theorem Picks.found (picks : t.Picks (t.isLabelled label kind) start path r) :
    t.findLabel? label kind start = some r := by
  induction path generalizing start with
  | nil => exact nomatch picks.starts
  | cons p back ih =>
    obtain rfl : p = start := Option.some.inj picks.starts
    cases back with
    | nil =>
      obtain ⟨q, before, after, last, here, labelled, first⟩ := picks.ends
      obtain rfl : p = q := Option.some.inj last
      exact findLabel?_eq_some_iff.2 (.inl (List.find?_eq_some_iff_append.2
        ⟨labelled, before, after, here, fun b inside => by simpa using first b inside⟩))
    | cons c back =>
      obtain ⟨noChild, before, after, here, first⟩ := picks.descends [] p c back rfl
      exact findLabel?_eq_some_iff.2
        (.inr ⟨noChild, before, c, after, here, ih picks.tail, first⟩)

/-- A path that goes on does so at the first child below which the search finds something. -/
theorem Picks.next (picks : t.Picks (t.isLabelled label kind) start (p :: c :: back) r) :
    (t.children p).find? (fun b => (t.findLabel? label kind b).isSome) = some c := by
  obtain ⟨-, before, after, here, first⟩ := picks.descends [] p c back rfl
  refine List.find?_eq_some_iff_append.2
    ⟨Option.isSome_iff_exists.2 ⟨r, picks.tail.found⟩, before, after, here, fun b inside => ?_⟩
  rw [findLabel?_eq_none_iff.2 (first b inside)]
  rfl

theorem Picks.stops (picks : t.Picks wanted start [p] r) : ∃ d ∈ t.children p, wanted d := by
  obtain ⟨q, before, after, last, here, isWanted, -⟩ := picks.ends
  obtain rfl : p = q := Option.some.inj last
  exact ⟨r, here ▸ List.mem_append_right before List.mem_cons_self, isWanted⟩

theorem Picks.path_unique {path' : List NodeId} {r' : NodeId}
    (picks : t.Picks (t.isLabelled label kind) start path r)
    (other : t.Picks (t.isLabelled label kind) start path' r') : path = path' := by
  induction path generalizing start path' with
  | nil => exact nomatch picks.starts
  | cons p back ih =>
    cases path' with
    | nil => exact nomatch other.starts
    | cons p' back' =>
      obtain rfl : p' = p := Option.some.inj (other.starts.trans picks.starts.symm)
      congr 1
      cases back with
      | nil =>
        cases back' with
        | nil => rfl
        -- a child is wanted where one path stops, and none where the other goes on
        | cons c' back' =>
          obtain ⟨d, inside, isWanted⟩ := picks.stops
          exact absurd isWanted ((other.descends [] p' c' back' rfl).1 d inside)
      | cons c back =>
        cases back' with
        | nil =>
          obtain ⟨d, inside, isWanted⟩ := other.stops
          exact absurd isWanted ((picks.descends [] p' c back rfl).1 d inside)
        | cons c' back' =>
          obtain rfl : c' = c := Option.some.inj (other.next.symm.trans picks.next)
          exact ih picks.tail other.tail

/-- A document's nodes know their parents, so the path ends at the parent of the node. -/
theorem Picks.parent? (picks : t.Picks wanted start path r) (rooted : t.Rooted) :
    t.parent? r = path.getLast? := by
  obtain ⟨p, before, after, last, here, -⟩ := picks.ends
  rw [last]
  exact rooted.parent_of_child (here ▸ List.mem_append_right before List.mem_cons_self)

/-- A search for a label finds a node if and only if a node below its start has it. What it finds
is what the one path that descends by the rule leads to: a child before all nodes below children,
and what is below a child before what is below the next. -/
theorem findLabel?_picks (t : Tree) (label : String) (kind : Kind) (start : NodeId) :
    ((t.findLabel? label kind start).isSome ↔
        ∃ d, t.Below start d ∧ t.isLabelled label kind d) ∧
      (∀ r, t.findLabel? label kind start = some r ↔
        ∃ path, t.Picks (t.isLabelled label kind) start path r) ∧
      (∀ path r path' r', t.Picks (t.isLabelled label kind) start path r →
        t.Picks (t.isLabelled label kind) start path' r' → path = path' ∧ r = r') ∧
      (t.Rooted → ∀ path r, t.Picks (t.isLabelled label kind) start path r →
        t.parent? r = path.getLast?) := by
  refine ⟨isSome_findLabel?_iff, fun r => ⟨fun found => ?_, fun ⟨_, picks⟩ => picks.found⟩,
    fun path r path' r' picks other => ⟨picks.path_unique other, ?_⟩,
    fun rooted path r picks => picks.parent? rooted⟩
  · obtain ⟨back, picks⟩ := exists_picks start found
    exact ⟨start :: back, picks⟩
  · exact Option.some.inj (picks.found.symm.trans other.found)

end Tree

namespace Sample

/-- Two actions of one label, of which the first in the document is inside a third action. -/
def nested : Tree :=
  (((Tree.empty.push { kind := .bulletml } none).push
    { kind := .action, label? := some "a" } (some 0)).push
    { kind := .action, label? := some "x" } (some 1)).push
    { kind := .action, label? := some "x" } (some 0)

theorem rooted_nested : nested.Rooted :=
  (((Tree.Rooted.first rfl _).push _ (by decide)).push _ (by decide)).push _ (by decide)

theorem findLabel?_picks_outer : nested.Rooted ∧ nested.findLabel? "x" .action 0 = some 3 ∧
    ∃ path, nested.Picks (nested.isLabelled "x" .action) 0 path 3 ∧
      nested.parent? 3 = path.getLast? := by
  have found : nested.findLabel? "x" .action 0 = some 3 := by cbv
  obtain ⟨-, fixed, -, above⟩ := nested.findLabel?_picks "x" .action 0
  obtain ⟨path, picks⟩ := (fixed 3).1 found
  exact ⟨rooted_nested, found, path, picks, above rooted_nested path 3 picks⟩

example : nested.findLabel? "x" .action 1 = some 2 ∧ nested.findLabel? "x" .bullet 0 = none := by
  cbv

end Sample

end Barrage
