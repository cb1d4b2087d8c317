/-
  Simulation/Displacement.lean --- the case split of the displacement.

  The source computes the displacement of a step by a hand-made case split:
  no acceleration, already at the velocity limit, limit reached within the step,
  limit not reached, each for both directions.  This file evaluates the split in
  exact arithmetic, once for a positive acceleration, and shows that the branches
  for a negative one are its mirror image.
-/
import RobotController.Simulation.RobotSimulator
import Mathlib.Algebra.Order.Group.Abs
import Mathlib.Tactic.FieldSimp
import Mathlib.Tactic.Linarith
import Mathlib.Tactic.Ring

set_option autoImplicit false

namespace RobotController.Simulation

open RobotController.Foundation RobotController.Core

variable {K : Type} [Field K] [LinearOrder K] {V v a T : K}

/-- Without acceleration the joint travels at its clamped velocity. -/
theorem displacement_zero : displacement V v 0 T = stdClamp v (-V) V * T := by
  simp [displacement]

/-- Already at the limit: the joint travels at the capped speed. -/
theorem displacement_of_limit_le (hT : 0 < T) (ha : 0 < a) (hv : V ≤ v) :
    displacement V v a T = V * T := by
  simp [displacement, hT, ha, ha.ne', hv]

variable [IsStrictOrderedRing K]

/-- The limit is reached within the step, at time `(V - v) / a`. -/
theorem displacement_of_reaches (hT : 0 < T) (ha : 0 < a) (hv : v < V)
    (hreach : V < v + a * T) :
    displacement V v a T =
      v * ((V - v) / a) + 2⁻¹ * a * ((V - v) / a) * ((V - v) / a) +
        V * (T - (V - v) / a) := by
  have htime : 0 < (V - v) / a := div_pos (sub_pos.mpr hv) ha
  have hlate : (V - v) / a < T := by
    rw [div_lt_iff₀ ha]
    linarith
  simp [displacement, hT, ha, ha.ne', ha.le, not_le.mpr hv, hreach, htime, hlate, not_lt.mpr]

/-- The limit is not reached: acceleration acts throughout the step. -/
theorem displacement_of_not_reaches (hT : 0 < T) (ha : 0 < a) (hv : v < V)
    (hreach : v + a * T ≤ V) :
    displacement V v a T = v * T + 2⁻¹ * a * T * T := by
  simp [displacement, hT, ha, ha.ne', ha.le, not_le.mpr hv, not_lt.mpr hreach, not_lt.mpr]

/-- Clamping to a symmetric range is odd. -/
theorem stdClamp_neg (hV : 0 ≤ V) : stdClamp (-v) (-V) V = -stdClamp v (-V) V := by
  have hlimits : -V ≤ V := neg_le_self hV
  rcases le_total v (-V) with hlow | hlow
  · have hhigh : V ≤ -v := le_neg.mpr hlow
    rw [stdClamp_eq_max_min hlimits, stdClamp_eq_max_min hlimits, min_eq_right hhigh,
      min_eq_left (hlow.trans hlimits), max_eq_right hlimits, max_eq_left hlow, neg_neg]
  · rcases le_total V v with hhigh | hhigh
    · have hneg : -v ≤ -V := neg_le_neg hhigh
      rw [stdClamp_eq_max_min hlimits, stdClamp_eq_max_min hlimits, min_eq_right hhigh,
        min_eq_left (hneg.trans hlimits), max_eq_right hlimits, max_eq_left hneg]
    · rw [stdClamp_of_mem hlow hhigh, stdClamp_of_mem (neg_le_neg hhigh) (neg_le.mp hlow)]

theorem displacement_neg_of_pos (hV : 0 ≤ V) (ha : 0 < a) :
    displacement V (-v) (-a) T = -displacement V v a T := by
  have htime : (-V - -v) / -a = (V - v) / a := by
    rw [← neg_div_neg_eq]
    congr 1 <;> ring
  have hunconstrained : -v + -a * T = -(v + a * T) := by ring
  simp only [displacement, htime, hunconstrained, stdClamp_neg hV, neg_pos, neg_lt_zero,
    neg_le_neg_iff, neg_lt_neg_iff, ha, ha.ne', neg_ne_zero, not_lt.mpr ha.le, ne_eq,
    not_false_eq_true, true_and, false_and, and_true, or_false, false_or, if_true, if_false]
  split_ifs <;> ring

/-- The branches for a negative acceleration mirror those for a positive one. -/
theorem displacement_neg (hV : 0 ≤ V) :
    displacement V (-v) (-a) T = -displacement V v a T := by
  rcases lt_trichotomy a 0 with ha | rfl | ha
  · have h : displacement V (- -v) (- -a) T = -displacement V (-v) (-a) T :=
      displacement_neg_of_pos hV (neg_pos.mpr ha)
    rw [neg_neg, neg_neg] at h
    rw [h, neg_neg]
  · rw [neg_zero, displacement_zero, displacement_zero, stdClamp_neg hV, neg_mul]
  · exact displacement_neg_of_pos hV ha

/-- Strictly below the limit throughout, acceleration acts throughout the step. -/
theorem displacement_of_mem (hT : 0 < T) (hv : -V < v ∧ v < V)
    (hend : -V ≤ v + a * T ∧ v + a * T ≤ V) :
    displacement V v a T = v * T + 2⁻¹ * a * T * T := by
  rcases lt_trichotomy a 0 with ha | rfl | ha
  · have hV : 0 ≤ V := by linarith
    have hreach : -v + -a * T ≤ V := by linarith
    have hmirror : displacement V (-v) (-a) T = -v * T + 2⁻¹ * -a * T * T :=
      displacement_of_not_reaches hT (neg_pos.mpr ha) (by linarith) hreach
    rw [displacement_neg hV] at hmirror
    linarith
  · rw [displacement_zero, stdClamp_of_mem hv.1.le hv.2.le]
    ring
  · exact displacement_of_not_reaches hT ha hv.2 hend.2

end RobotController.Simulation
