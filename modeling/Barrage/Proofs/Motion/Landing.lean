import Barrage.Proofs.Motion.Exact
import Mathlib.Order.Interval.Set.UnorderedInterval
import Mathlib.Tactic.FieldSimp
import Mathlib.Tactic.Ring

/-!
Where changes of speed and of acceleration end, in exact arithmetic. A change takes as many ticks as
its duration has begun, and every tick adds the same. So a change whose duration is a whole number
ends exactly at its goal; any other goes on past it in its last tick.
-/

set_option autoImplicit false

namespace Barrage

/-! ## The values of a glide -/

namespace Glide

variable {α F : Type} [Add α] [Scalar F]

/-- The values that a glide goes through, tick by tick up to the tick with which it is over. Every
tick begins where the one before ended. -/
inductive Passes (timeScale : F) : Glide α F → α → List α → Prop where
  | last {g g' : Glide α F} {c c' : α} (tick : g.step c timeScale = (c', true, g')) :
      Passes timeScale g c [c']
  | more {g g' : Glide α F} {c c' : α} {values : List α}
      (tick : g.step c timeScale = (c', false, g')) (rest : Passes timeScale g' c' values) :
      Passes timeScale g c (c' :: values)

theorem Passes.unique {timeScale : F} {g : Glide α F} {c : α} {values values' : List α}
    (passes : g.Passes timeScale c values) (passes' : g.Passes timeScale c values') :
    values = values' := by
  induction passes generalizing values' with
  | last tick =>
    cases passes' with
    | last tick' | more tick' =>
      rw [tick] at tick'
      cases tick'
      try rfl
  | more tick rest ih =>
    cases passes' with
    | last tick' =>
      rw [tick] at tick'
      cases tick'
    | more tick' rest' =>
      rw [tick] at tick'
      cases tick'
      rw [ih rest']

end Glide

namespace Glide

variable {α : Type} [Add α]

def multiples (c delta : α) (n : ℕ) : List α := (List.range n).map fun k => (· + delta)^[k + 1] c

theorem multiples_succ (c delta : α) (n : ℕ) :
    multiples c delta (n + 1) = (c + delta) :: multiples (c + delta) delta n := by
  simp [multiples, List.range_succ_eq_map, Function.comp_def]

theorem map_multiples {β : Type} [Add β] {f : α → β} (additive : ∀ a b, f (a + b) = f a + f b)
    (c delta : α) (n : ℕ) : (multiples c delta n).map f = multiples (f c) (f delta) n := by
  induction n generalizing c with
  | zero => rfl
  | succ n ih => rw [multiples_succ, multiples_succ, List.map_cons, ih, additive]

end Glide

/-! ## Where a change ends -/

/-- Values that lead from `c` towards `goal`, of which there are as many as the duration has begun.
-/
structure Lands (c goal duration : ℚ) (values : List ℚ) : Prop where
  length : values.length = ⌈duration⌉₊
  value : ∀ (k : ℕ) (x : ℚ), values[k]? = some x → x = c + (k + 1) * ((goal - c) / duration)
  onTheWay : ∀ x ∈ values.dropLast, x ∈ Set.uIcc c goal
  /-- After a whole number of ticks the goal is reached, and the way is never left. -/
  whole : (⌈duration⌉₊ : ℚ) = duration →
    values.getLast? = some goal ∧ ∀ x ∈ values, x ∈ Set.uIcc c goal
  /-- Any other duration leads past the goal, by what is missing of the last tick. -/
  past : (⌈duration⌉₊ : ℚ) ≠ duration → goal ≠ c → ∃ last, values.getLast? = some last ∧
    last = goal + (⌈duration⌉₊ - duration) * ((goal - c) / duration) ∧ last ∉ Set.uIcc c goal

theorem mem_uIcc_of_share {c goal share : ℚ} (nonneg : 0 ≤ share) (le_one : share ≤ 1) :
    c + share * (goal - c) ∈ Set.uIcc c goal := by
  rw [Set.mem_uIcc]
  rcases le_total c goal with up | down
  · left
    constructor <;> nlinarith
  · right
    constructor <;> nlinarith

theorem notMem_uIcc_of_past {c goal share : ℚ} (past : 1 < share) (apart : goal ≠ c) :
    c + share * (goal - c) ∉ Set.uIcc c goal := by
  rw [Set.mem_uIcc]
  rcases lt_or_gt_of_ne apart with down | up
  · rintro (⟨_, _⟩ | ⟨_, _⟩) <;> nlinarith
  · rintro (⟨_, _⟩ | ⟨_, _⟩) <;> nlinarith

namespace Glide

theorem getElem?_multiples {c delta : ℚ} {n k : ℕ} {x : ℚ}
    (found : (multiples c delta n)[k]? = some x) : k < n ∧ x = c + (k + 1) * delta := by
  obtain ⟨within, rfl⟩ := List.getElem?_eq_some_iff.1 found
  refine ⟨by simpa [multiples] using within, ?_⟩
  simp [multiples, add_right_iterate_apply]

theorem getLast?_multiples (c delta : ℚ) {n : ℕ} (pos : 0 < n) :
    (multiples c delta n).getLast? = some (c + n * delta) := by
  obtain ⟨n, rfl⟩ := Nat.exists_eq_add_one.2 pos
  simp [multiples, List.range_succ, add_right_iterate_apply]

theorem lands_multiples (c goal : ℚ) {d : ℚ} (pos : 0 < d) :
    Lands c goal d (multiples c ((goal - c) / d) ⌈d⌉₊) := by
  have begun := Nat.ceil_pos.2 pos
  have last := getLast?_multiples c ((goal - c) / d) begun
  have share : ∀ n : ℚ, c + n * ((goal - c) / d) = c + n / d * (goal - c) := fun n => by ring
  have onTheWay : ∀ n : ℚ, 0 ≤ n → n ≤ d → c + n * ((goal - c) / d) ∈ Set.uIcc c goal := by
    intro n nonneg within
    rw [share]
    exact mem_uIcc_of_share (div_nonneg nonneg pos.le) ((div_le_one pos).2 within)
  refine ⟨by simp [multiples], fun k x found => (getElem?_multiples found).2, ?_, ?_, ?_⟩
  · intro x member
    obtain ⟨k, found⟩ := List.mem_iff_getElem?.1 member
    rw [List.getElem?_dropLast] at found
    split at found
    · next inside =>
      obtain ⟨-, rfl⟩ := getElem?_multiples found
      have within : k + 1 < ⌈d⌉₊ := by simpa [multiples, Nat.lt_sub_iff_add_lt] using inside
      have below := Nat.lt_ceil.1 within
      push_cast at below
      exact onTheWay (k + 1) k.cast_add_one_pos.le below.le
    · cases found
  · intro whole
    refine ⟨?_, fun x member => ?_⟩
    · rw [last, whole, share, div_self pos.ne', one_mul, add_sub_cancel]
    · obtain ⟨k, found⟩ := List.mem_iff_getElem?.1 member
      obtain ⟨within, rfl⟩ := getElem?_multiples found
      have below : ((k + 1 : ℕ) : ℚ) ≤ ⌈d⌉₊ := Nat.cast_le.2 within
      push_cast [whole] at below
      exact onTheWay (k + 1) k.cast_add_one_pos.le below
  · intro part apart
    refine ⟨_, last, by field_simp; ring, ?_⟩
    rw [share]
    exact notMem_uIcc_of_past ((one_lt_div pos).2 (lt_of_le_of_ne (Nat.le_ceil d) part.symm)) apart

end Glide

def Easing.Goal.meant (g : Easing.Goal ℚ) (c : ℚ) : ℚ :=
  if g.policy = .relative then c + g.value else g.value

open scoped Exact

section

variable [Exact.Geometry]

namespace Glide

variable {α : Type} [Add α]

theorem step_of_last {g : Glide α ℚ} (last : g.remaining ≤ 1) (c : α) :
    g.step c 1 = (c + g.delta, true, ⟨g.delta, g.remaining - 1⟩) := by
  have ended : Scalar.le (g.remaining - 1) (Scalar.zero : ℚ) = true := by
    rw [Exact.le_iff, Exact.zero_eq, sub_nonpos]
    exact last
  rw [step, ended]

theorem step_of_more {g : Glide α ℚ} (more : 1 < g.remaining) (c : α) :
    g.step c 1 = (c + g.delta, false, ⟨g.delta, g.remaining - 1⟩) := by
  have goesOn : Scalar.le (g.remaining - 1) (Scalar.zero : ℚ) = false := by
    rw [← Bool.not_eq_true, Exact.le_iff, Exact.zero_eq, sub_nonpos, not_le]
    exact more
  rw [step, goesOn]

theorem passes_of_bounds {n : ℕ} {g : Glide α ℚ} (lower : (n : ℚ) < g.remaining)
    (upper : g.remaining ≤ n + 1) (c : α) : g.Passes 1 c (multiples c g.delta (n + 1)) := by
  rw [multiples_succ]
  induction n generalizing g c with
  | zero =>
    push_cast at upper
    exact .last (step_of_last (by linarith) c)
  | succ n ih =>
    push_cast at lower upper
    have more : 1 < g.remaining := by
      have := n.cast_nonneg (α := ℚ)
      linarith
    rw [multiples_succ]
    refine .more (step_of_more more c) (ih ?_ ?_ _)
    · exact lt_sub_iff_add_lt.2 lower
    · exact sub_le_iff_le_add.2 upper

theorem passes_multiples {g : Glide α ℚ} (pos : 0 < g.remaining) (c : α) :
    g.Passes 1 c (multiples c g.delta ⌈g.remaining⌉₊) := by
  obtain ⟨n, count⟩ := Nat.exists_eq_add_one.2 (Nat.ceil_pos.2 pos)
  obtain ⟨lower, upper⟩ := (Nat.ceil_eq_iff n.succ_ne_zero).1 count
  push_cast at upper
  rw [count]
  exact passes_of_bounds lower upper c

end Glide

/-! ## Changes of speed and of acceleration -/

namespace Easing

theorem deltaTo_meant {g : Goal ℚ} (eased : g.policy ≠ .sequence) (c d : ℚ) :
    deltaTo (some g) c d = (g.meant c - c) / d := by
  obtain ⟨policy, value⟩ := g
  cases policy with
  | sequence => exact absurd rfl eased
  | relative => simp [deltaTo, perTick, Goal.meant]
  | none | aim | absolute => rfl

end Easing

namespace Vec

variable (a b : Vec ℚ)

theorem x_add : (a + b).x = a.x + b.x := rfl

theorem y_add : (a + b).y = a.y + b.y := rfl

end Vec

namespace Glide

theorem passes_ofSpeed (goal? : Option (Easing.Goal ℚ)) {d : ℚ} (pos : 0 < d) (c : ℚ) :
    (ofSpeed goal? d c).Passes 1 c (multiples c
      (Easing.deltaTo goal? c (Easing.effectiveDuration d)) ⌈Easing.effectiveDuration d⌉₊) :=
  passes_multiples (Exact.effectiveDuration_pos pos) c

/-- A change of speed takes as many ticks as its duration has begun, and so does a change of
acceleration on each of its axes; it lands on its goal if the duration is a whole number, and else
past the goal. -/
theorem lands {d : ℚ} (pos : 0 < d) :
    let duration := if d < 1 / 100 then 1 else d
    (∀ (g : Easing.Goal ℚ) (c : ℚ), g.policy = .absolute ∨ g.policy = .relative →
      ∃ values, (ofSpeed (some g) d c).Passes 1 c values ∧
        Lands c (g.meant c) duration values) ∧
    ∀ (x? y? : Option (Easing.Goal ℚ)) (c : Vec ℚ),
      ∃ values, (ofAcceleration x? y? d c).Passes 1 c values ∧
        (∀ g ∈ x?, g.policy = .absolute ∨ g.policy = .relative →
          Lands c.x (g.meant c.x) duration (values.map Vec.x)) ∧
        ∀ g ∈ y?, g.policy = .absolute ∨ g.policy = .relative →
          Lands c.y (g.meant c.y) duration (values.map Vec.y) := by
  intro duration
  have effective : Easing.effectiveDuration d = duration := by
    rw [Exact.effectiveDuration_eq, abs_of_pos pos]
  have longer : 0 < duration := effective ▸ Exact.effectiveDuration_pos pos
  have eased : ∀ {g : Easing.Goal ℚ}, g.policy = .absolute ∨ g.policy = .relative →
      g.policy ≠ .sequence := by
    rintro g (same | same) <;> simp [same]
  refine ⟨fun g c meant => ?_, fun x? y? c => ?_⟩
  · refine ⟨_, passes_ofSpeed (some g) pos c, ?_⟩
    rw [effective, Easing.deltaTo_meant (eased meant)]
    exact lands_multiples c (g.meant c) longer
  · refine ⟨_, passes_multiples (Exact.effectiveDuration_pos pos) c, ?_, ?_⟩
    · rintro g ⟨⟩ meant
      rw [map_multiples Vec.x_add, ofAcceleration, effective, Easing.deltaTo_meant (eased meant)]
      exact lands_multiples c.x (g.meant c.x) longer
    · rintro g ⟨⟩ meant
      rw [map_multiples Vec.y_add, ofAcceleration, effective, Easing.deltaTo_meant (eased meant)]
      exact lands_multiples c.y (g.meant c.y) longer

end Glide

end

namespace Glide

open scoped Exact.Sample

/-- Half a tick counts as half a tick. -/
theorem lands_half :
    ∃ values, (ofSpeed (some ⟨.absolute, 10⟩) (1 / 2 : ℚ) 0).Passes 1 0 values ∧
      Lands 0 10 (1 / 2) values := by
  obtain ⟨speed, -⟩ := lands (d := 1 / 2) (by norm_num)
  obtain ⟨values, passes, lands⟩ := speed ⟨.absolute, 10⟩ 0 (.inl rfl)
  refine ⟨values, passes, ?_⟩
  norm_num [Easing.Goal.meant] at lands
  exact lands

/-- In half a tick a change gets twice as far as it should, and leaves the way. -/
theorem misses_goal_half :
    (ofSpeed (some ⟨.absolute, 10⟩) (1 / 2 : ℚ) 0).Passes 1 0 [20] ∧
      [(20 : ℚ)].getLast? ≠ some 10 ∧ ¬ ∀ x ∈ [(20 : ℚ)], x ∈ Set.uIcc 0 10 := by
  have tick : (ofSpeed (some ⟨.absolute, 10⟩) (1 / 2 : ℚ) 0).step 0 1
      = (20, true, ⟨20, -1 / 2⟩) := by decide +kernel
  exact ⟨.last tick, by norm_num, by norm_num [Set.mem_uIcc]⟩

end Glide

end Barrage
