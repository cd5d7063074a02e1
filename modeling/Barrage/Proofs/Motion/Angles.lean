import Barrage.Proofs.Motion.Exact
import Mathlib.Algebra.Order.ToIntervalMod

/-!
Angles in exact arithmetic. Wrapping and normalizing look for the same angle within one turn, the
first from minus a half turn to a half turn, the second from zero on. So both keep an angle modulo
full turns, and only that matters for what they give.
-/

set_option autoImplicit false

namespace Barrage

open scoped Exact

namespace Exact

theorem abs_sub_truncate_lt (x : ℚ) : |x - truncate x| < 1 := by
  rw [abs_lt]
  unfold truncate
  split
  · constructor
    · linarith [Int.floor_le x]
    · linarith [Int.lt_floor_add_one x]
  · constructor
    · linarith [Int.ceil_lt_add_one x]
    · linarith [Int.le_ceil x]

theorem abs_remainder_lt (a : ℚ) {p : ℚ} (pos : 0 < p) : |remainder a p| < p := by
  have scaled : remainder a p = p * (a / p - truncate (a / p)) := by
    rw [remainder, mul_sub, mul_div_cancel₀ _ pos.ne']
  rw [scaled, abs_mul, abs_of_pos pos]
  exact mul_lt_of_lt_one_right pos (abs_sub_truncate_lt _)

variable [Geometry]

theorem pi_pos : (0 : ℚ) < Scalar.pi := Geometry.pi_pos

theorem tau_pos : (0 : ℚ) < Scalar.tau := add_pos pi_pos pi_pos

theorem neg_pi_add_tau : -Scalar.pi + Scalar.tau = (Scalar.pi : ℚ) := neg_add_cancel_left _ _

theorem wrapInto_eq_ite (a p : ℚ) : Scalar.wrapInto a p =
    if remainder a p < 0 then remainder a p + p else remainder a p := by
  rw [← if_congr (lt_iff (remainder a p) 0) rfl rfl]
  rfl

/-- The remainder that is not negative is the place of a number within its period. -/
theorem wrapInto_eq (a : ℚ) {p : ℚ} (pos : 0 < p) : Scalar.wrapInto a p = toIcoMod pos 0 a := by
  obtain ⟨lower, upper⟩ := abs_lt.1 (abs_remainder_lt a pos)
  have whole : a = remainder a p + truncate (a / p) * p := by
    rw [remainder, mul_comm, sub_add_cancel]
  rw [eq_comm, wrapInto_eq_ite, toIcoMod_eq_iff, zero_add]
  split
  · next negative =>
    refine ⟨⟨by linarith, by linarith⟩, truncate (a / p) + -1, ?_⟩
    rw [add_zsmul, zsmul_eq_mul, neg_one_zsmul]
    linarith
  · next nonneg =>
    refine ⟨⟨not_lt.1 nonneg, upper⟩, truncate (a / p), ?_⟩
    rw [zsmul_eq_mul]
    exact whole

end Exact

namespace Angle

open Exact

variable [Geometry] {a b : ℚ}

theorem normalize_eq (a : ℚ) : normalize a = toIcoMod tau_pos 0 a := by
  have below : ¬ Scalar.le Scalar.tau (Scalar.wrapInto a Scalar.tau) = true := by
    rw [wrapInto_eq a tau_pos, le_iff, not_le]
    exact (toIcoMod_mem_Ico' tau_pos a).2
  rw [← wrapInto_eq, normalize, if_neg below]

theorem wrap_eq (a : ℚ) : wrap a = toIocMod tau_pos (-Scalar.pi) a := by
  -- before the lower end is exchanged for the upper one, the interval has its lower end
  have shifted : Scalar.wrapInto (a + Scalar.pi) Scalar.tau - Scalar.pi =
      toIcoMod tau_pos (-Scalar.pi) a := by
    rw [wrapInto_eq _ tau_pos, toIcoMod_add_right_eq_add, zero_sub, add_sub_cancel_right]
  have lower := left_le_toIcoMod tau_pos (-Scalar.pi) a
  rw [wrap, shifted]
  split
  · next atEnd =>
    rw [le_iff] at atEnd
    exact (AddCommGroup.modEq_iff_toIcoMod_add_period_eq_toIocMod tau_pos).1
      ((AddCommGroup.modEq_iff_toIcoMod_eq_left tau_pos).2 (le_antisymm atEnd lower))
  · next inside =>
    rw [le_iff] at inside
    refine (AddCommGroup.not_modEq_iff_toIcoMod_eq_toIocMod tau_pos).1 fun same => inside ?_
    exact ((AddCommGroup.modEq_iff_toIcoMod_eq_left tau_pos).1 same).le

theorem normalize_mem (a : ℚ) : normalize a ∈ Set.Ico 0 Scalar.tau := by
  rw [normalize_eq]
  exact toIcoMod_mem_Ico' tau_pos a

theorem wrap_mem (a : ℚ) : wrap a ∈ Set.Ioc (-Scalar.pi) Scalar.pi := by
  have inside := toIocMod_mem_Ioc tau_pos (-Scalar.pi) a
  rwa [neg_pi_add_tau, ← wrap_eq] at inside

theorem normalize_modEq (a : ℚ) : normalize a ≡ a [PMOD Scalar.tau] := by
  rw [normalize_eq, AddCommGroup.modEq_iff_eq_add_zsmul]
  exact ⟨_, (toIcoMod_add_toIcoDiv_zsmul tau_pos 0 a).symm⟩

theorem wrap_modEq (a : ℚ) : wrap a ≡ a [PMOD Scalar.tau] := by
  rw [wrap_eq, AddCommGroup.modEq_iff_eq_add_zsmul]
  exact ⟨_, (toIocMod_add_toIocDiv_zsmul tau_pos (-Scalar.pi) a).symm⟩

theorem wrap_eq_of_modEq (same : a ≡ b [PMOD Scalar.tau])
    (inside : a ∈ Set.Ioc (-Scalar.pi) Scalar.pi) : wrap b = a := by
  rw [wrap_eq, toIocMod_eq_iff, neg_pi_add_tau]
  exact ⟨inside, AddCommGroup.modEq_iff_eq_add_zsmul.1 same⟩

theorem normalize_eq_of_modEq (same : a ≡ b [PMOD Scalar.tau])
    (inside : a ∈ Set.Ico 0 Scalar.tau) : normalize b = a := by
  rw [normalize_eq, toIcoMod_eq_iff, zero_add]
  exact ⟨inside, AddCommGroup.modEq_iff_eq_add_zsmul.1 same⟩

theorem wrap_congr (same : a ≡ b [PMOD Scalar.tau]) : wrap a = wrap b :=
  (wrap_eq_of_modEq ((wrap_modEq a).trans same) (wrap_mem a)).symm

theorem normalize_congr (same : a ≡ b [PMOD Scalar.tau]) : normalize a = normalize b :=
  (normalize_eq_of_modEq ((normalize_modEq a).trans same) (normalize_mem a)).symm

@[simp] theorem wrap_wrap (a : ℚ) : wrap (wrap a) = wrap a := wrap_congr (wrap_modEq a)

@[simp] theorem wrap_normalize (a : ℚ) : wrap (normalize a) = wrap a :=
  wrap_congr (normalize_modEq a)

@[simp] theorem normalize_normalize (a : ℚ) : normalize (normalize a) = normalize a :=
  normalize_congr (normalize_modEq a)

@[simp] theorem normalize_wrap (a : ℚ) : normalize (wrap a) = normalize a :=
  normalize_congr (wrap_modEq a)

end Angle

end Barrage
