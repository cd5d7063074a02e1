import Barrage.Proofs.Motion.Angles
import Mathlib.Data.Sign.Basic
import Mathlib.Order.Interval.Set.UnorderedInterval

/-!
How a turn towards a fixed direction gets there, in exact arithmetic. In every tick it takes the
share of the way left that one is of the duration left, and all of it once that is one or less. The
shares are of the short way, so it never turns back and never too far.
-/

set_option autoImplicit false

namespace Barrage

namespace Turn

/-! ## The directions of a turn -/

section

variable {F : Type} [Scalar F]

structure Leg (F : Type) where
  turn : F
  direction : F
  deriving DecidableEq, Repr

/-- The legs of a turn, tick by tick up to the tick with which it is over. Every tick begins where
the one before ended. -/
inductive Passes (timeScale : F) : Turn F → F → List (Leg F) → Prop where
  | last {t t' : Turn F} {c c' : F} (tick : t.step c timeScale = (c', true, t')) :
      Passes timeScale t c [⟨t.nextDelta c, c'⟩]
  | more {t t' : Turn F} {c c' : F} {legs : List (Leg F)}
      (tick : t.step c timeScale = (c', false, t')) (rest : Passes timeScale t' c' legs) :
      Passes timeScale t c (⟨t.nextDelta c, c'⟩ :: legs)

theorem Passes.unique {timeScale : F} {t : Turn F} {c : F} {legs legs' : List (Leg F)}
    (passes : t.Passes timeScale c legs) (passes' : t.Passes timeScale c legs') :
    legs = legs' := by
  induction passes generalizing legs' with
  | last tick => cases passes' <;> grind
  | more tick rest ih => cases passes' <;> grind

/-- What lies between two directions, the short way. -/
def between (start stop : F) : F := Angle.wrap (stop - start)

def gaps (start : F) (directions : List F) : List F :=
  List.zipWith between (start :: directions) directions

theorem gaps_cons (start next : F) (directions : List F) :
    gaps start (next :: directions) = between start next :: gaps next directions := rfl

end

/-! ## Shares of a way -/

def shareOf (left : ℚ) : ℚ := 1 / max left 1

theorem shareOf_pos (left : ℚ) : 0 < shareOf left :=
  one_div_pos.2 (one_pos.trans_le (le_max_right left 1))

theorem shareOf_le_one (left : ℚ) : shareOf left ≤ 1 :=
  (div_le_one (one_pos.trans_le (le_max_right left 1))).2 (le_max_right left 1)

theorem shareOf_last {left : ℚ} (last : left ≤ 1) : shareOf left = 1 := by
  rw [shareOf, max_eq_right last, div_one]

theorem share_add_mem {way share part : ℚ} (nonneg : 0 ≤ share) (le_one : share ≤ 1)
    (inside : part ∈ Set.uIcc 0 ((1 - share) * way)) : share * way + part ∈ Set.uIcc 0 way := by
  have left := sub_nonneg.2 le_one
  rcases le_total 0 way with up | down
  · rw [Set.uIcc_of_le (mul_nonneg left up)] at inside
    rw [Set.uIcc_of_le up]
    exact ⟨add_nonneg (mul_nonneg nonneg up) inside.1, by linarith [inside.2]⟩
  · rw [Set.uIcc_of_ge (mul_nonpos_of_nonneg_of_nonpos left down)] at inside
    rw [Set.uIcc_of_ge down]
    exact ⟨by linarith [inside.1], add_nonpos (mul_nonpos_of_nonneg_of_nonpos nonneg down) inside.2⟩

open scoped Exact

variable [Exact.Geometry]

/-! ## Getting to a goal -/

/-- Legs that lead from `start` to `goal`, the short way. -/
structure Arrives (start goal : ℚ) (legs : List (Leg ℚ)) : Prop where
  arrives : (legs.map Leg.direction).getLastD start ≡ goal [PMOD Scalar.tau]
  turned : gaps start (legs.map Leg.direction) = legs.map Leg.turn
  sameWay : ∀ leg ∈ legs, leg.turn ≠ 0 →
    SignType.sign leg.turn = SignType.sign (between start goal)
  atGoal : ∀ leg ∈ legs, leg.turn = 0 → leg.direction ≡ goal [PMOD Scalar.tau]
  /-- Up to any tick no more than the way has been turned. -/
  within : ∀ k, ((legs.take k).map Leg.turn).sum ∈ Set.uIcc 0 (between start goal)
  total : (legs.map fun leg => |leg.turn|).sum = |between start goal|

theorem between_modEq (start stop : ℚ) : start + between start stop ≡ stop [PMOD Scalar.tau] := by
  have same := (Angle.wrap_modEq (stop - start)).add_left start
  rwa [add_sub_cancel] at same

theorem between_eq_zero {start stop : ℚ} (same : start ≡ stop [PMOD Scalar.tau]) :
    between start stop = 0 := by
  refine Angle.wrap_eq_of_modEq ?_ ⟨neg_lt_zero.2 Exact.pi_pos, Exact.pi_pos.le⟩
  simpa using same.sub_right start

theorem modEq_of_between_eq_zero {start stop : ℚ} (none : between start stop = 0) :
    start ≡ stop [PMOD Scalar.tau] := by
  have same := between_modEq start stop
  rwa [none, add_zero] at same

theorem between_normalize {start x : ℚ} (short : x ∈ Set.Ioc (-Scalar.pi) Scalar.pi) :
    between start (Angle.normalize (start + x)) = x := by
  refine Angle.wrap_eq_of_modEq ?_ short
  have same := (Angle.normalize_modEq (start + x)).symm.sub_right start
  rwa [add_sub_cancel_left] at same

theorem share_mem {way share : ℚ} (inside : way ∈ Set.Ioc (-Scalar.pi) Scalar.pi)
    (nonneg : 0 ≤ share) (le_one : share ≤ 1) :
    share * way ∈ Set.Ioc (-Scalar.pi) (Scalar.pi : ℚ) := by
  obtain ⟨lower, upper⟩ := inside
  have half := Exact.pi_pos
  constructor
  · nlinarith
  · nlinarith

section

variable {start goal share : ℚ}

theorem between_rest (nonneg : 0 ≤ share) (le_one : share ≤ 1) :
    between (Angle.normalize (start + share * between start goal)) goal =
      (1 - share) * between start goal := by
  refine Angle.wrap_eq_of_modEq ?_
    (share_mem (Angle.wrap_mem _) (sub_nonneg.2 le_one) (sub_le_self 1 nonneg))
  have gone := (between_modEq start goal).sub
    (Angle.normalize_modEq (start + share * between start goal)).symm
  rwa [add_sub_add_left_eq_sub, ← one_sub_mul] at gone

theorem Arrives.nil (same : start ≡ goal [PMOD Scalar.tau]) : Arrives start goal [] where
  arrives := same
  turned := rfl
  sameWay := by simp
  atGoal := by simp
  within := by simp
  total := by simp [between_eq_zero same]

theorem Arrives.cons {legs : List (Leg ℚ)} {next : ℚ} (pos : 0 < share) (le_one : share ≤ 1)
    (leads : Angle.normalize (start + share * between start goal) = next)
    (rest : Arrives next goal legs) :
    Arrives start goal (⟨share * between start goal, next⟩ :: legs) := by
  have left : between next goal = (1 - share) * between start goal :=
    leads ▸ between_rest pos.le le_one
  have gap : between start next = share * between start goal :=
    leads ▸ between_normalize (share_mem (Angle.wrap_mem _) pos.le le_one)
  refine ⟨?arrives, ?turned, ?sameWay, ?atGoal, ?within, ?total⟩
  case arrives =>
    rw [List.map_cons, List.getLastD_cons]
    exact rest.arrives
  case turned => rw [List.map_cons, gaps_cons, rest.turned, gap, List.map_cons]
  case sameWay =>
    rintro leg member moves
    rcases List.mem_cons.1 member with rfl | later
    · rw [sign_mul, sign_pos pos, one_mul]
    · have same := rest.sameWay leg later moves
      -- something is left of the way, or no later leg would move
      have goesOn : 0 < 1 - share := by
        refine lt_of_le_of_ne (sub_nonneg.2 le_one) fun whole => moves ?_
        rw [left, ← whole, zero_mul, sign_zero, sign_eq_zero_iff] at same
        exact same
      rw [same, left, sign_mul, sign_pos goesOn, one_mul]
  case atGoal =>
    rintro leg member none
    rcases List.mem_cons.1 member with rfl | later
    · rw [mul_eq_zero_iff_left pos.ne'] at none
      exact modEq_of_between_eq_zero (by rw [left, none, mul_zero])
    · exact rest.atGoal leg later none
  case within =>
    rintro (_ | k)
    · simp
    · have further := rest.within k
      rw [left] at further
      rw [List.take_succ_cons, List.map_cons, List.sum_cons]
      exact share_add_mem pos.le le_one further
  case total =>
    rw [List.map_cons, List.sum_cons, rest.total, left, abs_mul, abs_mul, abs_of_pos pos,
      abs_of_nonneg (sub_nonneg.2 le_one), ← add_mul, add_sub_cancel, one_mul]

end

/-! ## Turns towards a fixed direction -/

theorem atLeastOne_eq (x : ℚ) : Scalar.atLeastOne x = max x 1 := by
  rw [max_def']
  exact if_congr (Exact.le_iff 1 x) rfl rfl

section

variable {timeScale : ℚ} {t : Turn ℚ}

theorem nextDelta_eq (fixed : t.policy = .absolute) (c : ℚ) :
    t.nextDelta c = shareOf (t.duration - t.elapsed) * between c t.goal := by
  rw [nextDelta, fixed, shareOf, one_div_mul_eq_div, ← atLeastOne_eq]
  rfl

/-- As long as more than a tick is left the turn goes on; in the last tick no more than one is left,
and the whole way is taken. -/
theorem exists_passes (runs : 0 < timeScale) (slow : timeScale ≤ 1) {n : ℕ}
    (fixed : t.policy = .absolute) (lower : n = 0 ∨ n * timeScale < t.duration - t.elapsed)
    (upper : t.duration - t.elapsed ≤ (n + 1) * timeScale) (c : ℚ) :
    ∃ legs, t.Passes timeScale c legs ∧ legs.length = n + 1 ∧ Arrives c t.goal legs := by
  -- by induction on how many ticks there are before the last one
  induction n generalizing t c with
  | zero =>
    rw [Nat.cast_zero, zero_add, one_mul] at upper
    have last : Scalar.le t.duration (t.elapsed + timeScale) = true :=
      (Exact.le_iff _ _).2 (sub_le_iff_le_add'.1 upper)
    refine ⟨_, .last (by rw [step, last]), rfl, ?_⟩
    rw [nextDelta_eq fixed]
    refine .cons (shareOf_pos _) (shareOf_le_one _) rfl (.nil ?_)
    rw [shareOf_last (upper.trans slow), one_mul]
    exact (Angle.normalize_modEq _).trans (between_modEq c t.goal)
  | succ n ih =>
    have more := lower.resolve_left n.succ_ne_zero
    push_cast at more upper
    have passed : 0 ≤ n * timeScale := mul_nonneg n.cast_nonneg runs.le
    have goesOn : Scalar.le t.duration (t.elapsed + timeScale) = false := by
      rw [← Bool.not_eq_true, Exact.le_iff]
      linarith
    obtain ⟨legs, passes, length, rest⟩ :=
      ih (t := { t with elapsed := t.elapsed + timeScale }) fixed
        (.inr (by dsimp only; linarith)) (by dsimp only; linarith)
        (Angle.normalize (c + t.nextDelta c))
    refine ⟨_, .more (by rw [step, goesOn]) passes, by rw [List.length_cons, length], ?_⟩
    rw [nextDelta_eq fixed] at rest ⊢
    exact rest.cons (shareOf_pos _) (shareOf_le_one _) rfl

end

/-- A turn towards a fixed direction is over after as many ticks as its duration has begun, and
after one at least. Then it has arrived there, by the short way. Ticks that last less than one may
be left after the goal is reached; there is nothing to turn by in them. -/
theorem arrives_short_way {timeScale : ℚ} (runs : 0 < timeScale) (slow : timeScale ≤ 1)
    (degrees term start aim : ℚ) :
    let duration := if |term| < 1 / 100 then 1 else term
    let goal := Scalar.radians degrees
    ∃ legs, (make (some ⟨.absolute, degrees⟩) term start aim).Passes timeScale start legs ∧
      legs.length = max 1 ⌈duration / timeScale⌉₊ ∧
      Arrives start goal legs ∧ |between start goal| ≤ Scalar.pi := by
  intro duration goal
  have left : Easing.effectiveDuration term - 0 = duration := by
    rw [sub_zero, Exact.effectiveDuration_eq]
  obtain ⟨n, count⟩ := Nat.exists_eq_add_one.2
    (one_pos.trans_le (le_max_left 1 ⌈duration / timeScale⌉₊))
  have lower : n = 0 ∨ n * timeScale < duration := by
    refine or_iff_not_imp_left.2 fun several => (lt_div_iff₀ runs).1 (Nat.lt_ceil.1 ?_)
    omega
  have upper : duration ≤ (n + 1) * timeScale := by
    refine (div_le_iff₀ runs).1 ((Nat.le_ceil _).trans ?_)
    exact_mod_cast count ▸ le_max_right 1 ⌈duration / timeScale⌉₊
  obtain ⟨legs, passes, length, arrives⟩ :=
    exists_passes (t := make (some ⟨.absolute, degrees⟩) term start aim) runs slow rfl
      (by rwa [← left] at lower) (by rwa [← left] at upper) start
  exact ⟨legs, passes, length.trans count.symm, arrives,
    abs_le.2 ⟨(Angle.wrap_mem _).1.le, (Angle.wrap_mem _).2⟩⟩

end Turn

namespace Turn

open scoped Exact Exact.Sample

/-- Where a full turn is six, the short way from five to one leads over zero. -/
theorem arrives_over_zero :
    (make (some ⟨.absolute, 60⟩) 2 5 (0 : ℚ)).Passes 1 5 [⟨1, 0⟩, ⟨1, 1⟩] ∧
      Arrives 5 1 [⟨1, 0⟩, ⟨1, 1⟩] := by
  have tick : (make (some ⟨.absolute, 60⟩) 2 5 (0 : ℚ)).step 5 1
      = (0, false, ⟨.absolute, 1, 0, 2, 1⟩) := by decide +kernel
  have tick' : (⟨.absolute, 1, 0, 2, 1⟩ : Turn ℚ).step 0 1
      = (1, true, ⟨.absolute, 1, 0, 2, 2⟩) := by decide +kernel
  have passes := Passes.more tick (.last tick')
  have first : (make (some ⟨.absolute, 60⟩) 2 5 (0 : ℚ)).nextDelta 5 = 1 := by decide +kernel
  have second : (⟨.absolute, 1, 0, 2, 1⟩ : Turn ℚ).nextDelta 0 = 1 := by decide +kernel
  rw [first, second] at passes
  have radians : Scalar.radians (60 : ℚ) = 1 := by decide +kernel
  obtain ⟨legs, same, -, arrives, -⟩ :=
    arrives_short_way (one_pos (α := ℚ)) le_rfl 60 2 5 0
  rw [radians, same.unique passes] at arrives
  exact ⟨passes, arrives⟩

end Turn

end Barrage
