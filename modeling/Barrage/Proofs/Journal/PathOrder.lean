import Barrage.Journal.Collector
import Mathlib.Data.List.Lex
import Mathlib.Data.Prod.Lex
import Mathlib.Data.String.Basic

/-!
Paths in their order, and values by path. The order of paths compares their components one by one,
so it is a linear order in which two spellings of one path have the same place. Values that are kept
in this order are a finite map: putting one in changes what is found at its path and nothing else.
-/

set_option autoImplicit false

namespace Barrage

namespace Path

def Component.key : Component → ℕ ×ₗ String
  | .name text => toLex (3, text)
  | c => toLex (c.rank, "")

theorem Component.key_injective : Function.Injective key := by
  intro a b same
  cases a <;> cases b <;> simp_all [key, rank]

theorem Component.lt_iff {a b : Component} : a.lt b ↔ a.key < b.key := by
  cases a <;> cases b <;> simp [lt, key, rank, Prod.Lex.toLex_lt_toLex]

def order (p : Path) : List (ℕ ×ₗ String) := p.components.map Component.key

theorem componentsLt_iff {as bs : List Component} :
    componentsLt as bs ↔ as.map Component.key < bs.map Component.key := by
  induction as generalizing bs with
  | nil => cases bs <;> simp [componentsLt]
  | cons a as ih =>
    cases bs with
    | nil => simp [componentsLt]
    | cons b bs =>
      simp only [componentsLt, Bool.or_eq_true, Bool.and_eq_true, beq_iff_eq, List.map_cons,
        List.cons_lt_cons_iff, ih, Component.lt_iff, Component.key_injective.eq_iff]

variable {p q : Path}

theorem lt_iff : p.lt q ↔ p.order < q.order := componentsLt_iff

theorem same_iff : p.same q ↔ p.components = q.components := beq_iff_eq

theorem same_iff_order : p.same q ↔ p.order = q.order := by
  rw [same_iff, order, order, (List.map_injective_iff.2 Component.key_injective).eq_iff]

end Path

namespace ByPath

variable {α : Type} {m : ByPath α} {p q : Path} {f : Option α → α}

/-- Each path comes before the ones behind it. -/
def Sorted (m : ByPath α) : Prop := m.paths.Pairwise fun p q => p.order < q.order

theorem Sorted.nil : Sorted ([] : ByPath α) := List.Pairwise.nil

@[simp] theorem paths_cons (entry : Path × α) (m : ByPath α) :
    paths (entry :: m) = entry.1 :: paths m := rfl

theorem sorted_cons {v : α} :
    Sorted ((q, v) :: m) ↔ (∀ r ∈ m.paths, q.order < r.order) ∧ Sorted m := List.pairwise_cons

theorem find?_cons (v : α) (m : ByPath α) :
    find? ((q, v) :: m) p = if q.order = p.order then some v else find? m p := by
  rw [find?, List.find?_cons]
  cases same : q.same p with
  | true => rw [if_pos (Path.same_iff_order.1 same)]; rfl
  | false =>
    rw [if_neg fun equal => by simp [Path.same_iff_order.2 equal] at same]
    rfl

theorem find?_eq_none (missing : ∀ r ∈ m.paths, r.order ≠ p.order) : m.find? p = none := by
  induction m with
  | nil => rfl
  | cons entry m ih =>
    rw [find?_cons, if_neg (missing _ List.mem_cons_self)]
    exact ih fun r inside => missing r (List.mem_cons_of_mem _ inside)

theorem alter_cons (v : α) (m : ByPath α) :
    alter p f ((q, v) :: m) =
      if p.order = q.order then (q, f (some v)) :: m
      else if p.order < q.order then (p, f none) :: (q, v) :: m
      else (q, v) :: alter p f m := by
  simp only [alter, Path.same_iff_order, Path.lt_iff]

theorem mem_orders_alter {place : List (ℕ ×ₗ String)} :
    place ∈ (alter p f m).paths.map Path.order ↔
      place = p.order ∨ place ∈ m.paths.map Path.order := by
  induction m with
  | nil => simp [alter, paths]
  | cons entry m ih =>
    rw [alter_cons]
    split
    · next same => simp [same]
    split
    · simp
    · rw [paths_cons, paths_cons, List.map_cons, List.map_cons, List.mem_cons, List.mem_cons, ih]
      tauto

theorem Sorted.alter (sorted : Sorted m) : Sorted (m.alter p f) := by
  induction m with
  | nil => exact List.pairwise_singleton _ _
  | cons entry m ih =>
    obtain ⟨q, v⟩ := entry
    obtain ⟨above, sorted'⟩ := sorted_cons.1 sorted
    rw [alter_cons]
    split
    · exact sorted_cons.2 ⟨above, sorted'⟩
    next other =>
    split
    · next below =>
      refine sorted_cons.2 ⟨?_, sorted⟩
      intro r inside
      rcases List.mem_cons.1 inside with rfl | inside
      · exact below
      · exact below.trans (above r inside)
    · next notBelow =>
      refine sorted_cons.2 ⟨fun r inside => ?_, ih sorted'⟩
      rcases mem_orders_alter.1 (List.mem_map_of_mem inside) with same | old
      · rw [same]
        exact lt_of_le_of_ne (not_lt.1 notBelow) fun equal => other equal.symm
      · obtain ⟨r', inside', same⟩ := List.mem_map.1 old
        exact same ▸ above r' inside'

/-- What is found after an alteration: the new value at its path, and elsewhere what was there. -/
theorem find?_alter (sorted : Sorted m) :
    (m.alter p f).find? q = if p.order = q.order then some (f (m.find? p)) else m.find? q := by
  induction m with
  | nil => exact find?_cons _ _
  | cons entry m ih =>
    obtain ⟨r, v⟩ := entry
    obtain ⟨above, sorted'⟩ := sorted_cons.1 sorted
    rw [alter_cons]
    split
    · next same => rw [find?_cons, find?_cons, find?_cons, if_pos same.symm, same]; split <;> rfl
    next other =>
    split
    · next below =>
      have missing : find? ((r, v) :: m) p = none := by
        refine find?_eq_none fun r' inside => ?_
        rcases List.mem_cons.1 inside with rfl | inside
        · exact below.ne'
        · exact (below.trans (above r' inside)).ne'
      rw [find?_cons, missing]
    · rw [find?_cons, find?_cons, find?_cons, if_neg (Ne.symm other), ih sorted']
      by_cases here : r.order = q.order
      · rw [if_pos here, if_neg fun equal => other (equal.trans here.symm), if_pos here]
      · rw [if_neg here, if_neg here]

theorem Sorted.nodup (sorted : Sorted m) : (m.paths.map Path.order).Nodup :=
  List.pairwise_map.2 (sorted.imp fun below => below.ne)

end ByPath

end Barrage
