/-
  Foundation/Saturation.lean --- motion under a velocity limit.

  A body whose speed is limited to `V` and which is driven by a constant
  acceleration `a` from velocity `v` moves at velocity `saturate V (v + a * t)`;
  the distance it covers is the integral of that.  The closed forms below are the
  usual kinematics of each phase: uniformly accelerated, cruising at the limit,
  and one after the other.
-/
import Mathlib.Analysis.SpecialFunctions.Integrals.Basic

set_option autoImplicit false

namespace RobotController.Foundation

open MeasureTheory

/-- Limit `x` to `[lo, hi]`. -/
noncomputable def clamp (lo hi x : ℝ) : ℝ := max lo (min x hi)

/-- Limit `x` to `[-V, V]`. -/
noncomputable def saturate (V x : ℝ) : ℝ := clamp (-V) V x

section Clamp

variable {lo hi x V : ℝ}

theorem clamp_of_le_lo (h : x ≤ lo) : clamp lo hi x = lo :=
  max_eq_left ((min_le_left x hi).trans h)

theorem clamp_of_hi_le (hlimits : lo ≤ hi) (h : hi ≤ x) : clamp lo hi x = hi := by
  rw [clamp, min_eq_right h, max_eq_right hlimits]

theorem clamp_of_mem (hlo : lo ≤ x) (hhi : x ≤ hi) : clamp lo hi x = x := by
  rw [clamp, min_eq_left hhi, max_eq_right hlo]

theorem saturate_of_mem (hlo : -V ≤ x) (hhi : x ≤ V) : saturate V x = x :=
  clamp_of_mem hlo hhi

theorem saturate_of_le (hV : 0 ≤ V) (h : V ≤ x) : saturate V x = V :=
  clamp_of_hi_le (neg_le_self hV) h

theorem neg_le_saturate (V x : ℝ) : -V ≤ saturate V x := le_max_left _ _

theorem saturate_le (hV : 0 ≤ V) : saturate V x ≤ V :=
  max_le (neg_le_self hV) (min_le_right _ _)

/-- Saturation is odd. -/
theorem saturate_neg (hV : 0 ≤ V) (x : ℝ) : saturate V (-x) = -saturate V x := by
  rcases le_total V x with h | h
  · rw [saturate_of_le hV h]
    exact clamp_of_le_lo (neg_le_neg h)
  · rcases le_total x (-V) with hneg | hneg
    · rw [saturate_of_le hV (le_neg.mpr hneg)]
      exact (neg_eq_iff_eq_neg.mpr (clamp_of_le_lo hneg)).symm
    · rw [saturate_of_mem hneg h, saturate_of_mem (neg_le_neg h) (neg_le.mp hneg)]

/-- Limiting two numbers brings them no farther apart. -/
theorem abs_clamp_sub_clamp_le (lo hi x y : ℝ) : |clamp lo hi x - clamp lo hi y| ≤ |x - y| := by
  have hmin := abs_min_sub_min_le_max x hi y hi
  rw [sub_self, abs_zero, max_eq_left (abs_nonneg _)] at hmin
  have hmax := abs_max_sub_max_le_abs (min x hi) (min y hi) lo
  rw [max_comm, max_comm (min y hi)] at hmax
  exact hmax.trans hmin

/-- How far a limited number is from where it began: no farther than it was to go, if that
is as far as the range. -/
theorem abs_clamp_add_sub_le_iff {p d B : ℝ} (hlimits : lo ≤ hi) (hd : |d| ≤ B) :
    |clamp lo hi (p + d) - p| ≤ B ↔ lo - p ≤ B ∧ p - hi ≤ B := by
  obtain ⟨hlow, hhigh⟩ := abs_le.mp hd
  have hmin : lo ≤ clamp lo hi (p + d) := le_max_left _ _
  have hmax : clamp lo hi (p + d) ≤ hi := max_le hlimits (min_le_right _ _)
  rw [abs_le]
  constructor
  · intro h
    exact ⟨by linarith [h.2], by linarith [h.1]⟩
  · intro h
    rcases le_total (p + d) lo with hbelow | habove
    · rw [clamp_of_le_lo hbelow]
      exact ⟨by linarith, h.1⟩
    · rcases le_total hi (p + d) with hbeyond | hwithin
      · rw [clamp_of_hi_le hlimits hbeyond]
        exact ⟨by linarith [h.2], by linarith⟩
      · rw [clamp_of_mem habove hwithin]
        exact ⟨by linarith, by linarith⟩

theorem continuous_saturate (V : ℝ) : Continuous (saturate V) :=
  continuous_const.max (continuous_id.min continuous_const)

end Clamp

/-! ## Distance under a velocity limit -/

/-- The distance covered in time `T` from velocity `v` under acceleration `a`,
with the speed limited to `V`. -/
noncomputable def travel (V v a T : ℝ) : ℝ := ∫ t in (0 : ℝ)..T, saturate V (v + a * t)

section Travel

variable {V v a T τ : ℝ}

theorem intervalIntegrable_saturate (V v a l r : ℝ) :
    IntervalIntegrable (fun t => saturate V (v + a * t)) volume l r := by
  have hcont : Continuous fun t : ℝ => saturate V (v + a * t) :=
    (continuous_saturate V).comp (by fun_prop)
  exact hcont.intervalIntegrable l r

theorem integral_linear (v a T : ℝ) :
    (∫ t in (0 : ℝ)..T, (v + a * t)) = v * T + 2⁻¹ * a * T * T := by
  have hconst : IntervalIntegrable (fun _ : ℝ => v) volume 0 T :=
    continuous_const.intervalIntegrable 0 T
  have hlinear : IntervalIntegrable (fun t : ℝ => a * t) volume 0 T :=
    (by fun_prop : Continuous fun t : ℝ => a * t).intervalIntegrable 0 T
  rw [intervalIntegral.integral_add hconst hlinear, intervalIntegral.integral_const,
    intervalIntegral.integral_const_mul, integral_id]
  simp only [smul_eq_mul]
  ring

/-- No farther than at the limit all the way. -/
theorem abs_travel_le (hV : 0 ≤ V) (hT : 0 ≤ T) : |travel V v a T| ≤ V * T := by
  have hspeed : ∀ t ∈ Set.uIoc 0 T, ‖saturate V (v + a * t)‖ ≤ V := fun t _ =>
    abs_le.mpr ⟨neg_le_saturate V _, saturate_le hV⟩
  have hle := intervalIntegral.norm_integral_le_of_norm_le_const hspeed
  rwa [Real.norm_eq_abs, sub_zero, abs_of_nonneg hT] at hle

/-- While the velocity stays within the limit, the motion is uniformly
accelerated.  It is enough that it does so at both ends. -/
theorem travel_of_mem (hT : 0 ≤ T) (hv : -V ≤ v ∧ v ≤ V)
    (hend : -V ≤ v + a * T ∧ v + a * T ≤ V) : travel V v a T = v * T + 2⁻¹ * a * T * T := by
  rw [← integral_linear]
  refine intervalIntegral.integral_congr fun t ht => ?_
  rw [Set.uIcc_of_le hT] at ht
  obtain ⟨ht0, htT⟩ := ht
  refine saturate_of_mem ?_ ?_
  · rcases le_total 0 a with ha | ha
    · nlinarith [mul_nonneg ha ht0]
    · nlinarith [mul_le_mul_of_nonpos_left htT ha]
  · rcases le_total 0 a with ha | ha
    · nlinarith [mul_le_mul_of_nonneg_left htT ha]
    · nlinarith [mul_nonpos_of_nonpos_of_nonneg ha ht0]

/-- At the limit and accelerating into it, the body cruises. -/
theorem travel_of_limit_le (hV : 0 ≤ V) (hT : 0 ≤ T) (ha : 0 ≤ a) (hv : V ≤ v) :
    travel V v a T = V * T := by
  have hcongr : travel V v a T = ∫ _ in (0 : ℝ)..T, V := by
    refine intervalIntegral.integral_congr fun t ht => ?_
    rw [Set.uIcc_of_le hT] at ht
    exact saturate_of_le hV (by nlinarith [mul_nonneg ha ht.1])
  rw [hcongr, intervalIntegral.integral_const, smul_eq_mul, sub_zero, mul_comm]

/-- Motion is additive in time: after `τ` it goes on from the velocity reached. -/
theorem travel_add (V v a τ T : ℝ) :
    travel V v a T = travel V v a τ + travel V (v + a * τ) a (T - τ) := by
  have hsplit := intervalIntegral.integral_add_adjacent_intervals
    (intervalIntegrable_saturate V v a 0 τ) (intervalIntegrable_saturate V v a τ T)
  have hshift : (∫ t in (0 : ℝ)..(T - τ), saturate V (v + a * τ + a * t)) =
      ∫ t in τ..T, saturate V (v + a * t) := by
    have h := intervalIntegral.integral_comp_add_right
      (fun t => saturate V (v + a * t)) τ (a := 0) (b := T - τ)
    rw [zero_add, sub_add_cancel] at h
    rw [← h]
    refine intervalIntegral.integral_congr fun t _ => ?_
    ring_nf
  unfold travel
  rw [hshift, hsplit]

/-- The limit is reached at time `τ`: accelerate until then, cruise afterwards. -/
theorem travel_of_reaches (hV : 0 ≤ V) (hτ : 0 ≤ τ) (hT : τ ≤ T) (ha : 0 ≤ a)
    (hv : -V ≤ v ∧ v ≤ V) (hreach : v + a * τ = V) :
    travel V v a T = v * τ + 2⁻¹ * a * τ * τ + V * (T - τ) := by
  have hend : -V ≤ v + a * τ ∧ v + a * τ ≤ V := by
    rw [hreach]
    exact ⟨neg_le_self hV, le_refl V⟩
  rw [travel_add V v a τ T, travel_of_mem hτ hv hend,
    travel_of_limit_le hV (sub_nonneg.mpr hT) ha hreach.ge]

/-- The mirror image of a motion. -/
theorem travel_neg (hV : 0 ≤ V) (v a T : ℝ) : travel V (-v) (-a) T = -travel V v a T := by
  unfold travel
  rw [← intervalIntegral.integral_neg]
  refine intervalIntegral.integral_congr fun t _ => ?_
  rw [← saturate_neg hV]
  ring_nf

end Travel

end RobotController.Foundation
