/-
  Foundation/Contraction.lean --- maps that scale an energy.

  A map that keeps a region and multiplies a nonnegative quantity by a fixed factor
  below one settles: the quantity decays geometrically along every orbit, and an orbit
  with a positive quantity never returns to a point.  The sampled loop at the end is
  the map of a unit mass that is held for a time `h` at the acceleration of a
  proportional-derivative law with gains `1` and `1/2`.
-/
import Mathlib.Algebra.Order.Field.Basic
import Mathlib.Logic.Function.Iterate
import Mathlib.Tactic.Linarith
import Mathlib.Tactic.Positivity
import Mathlib.Tactic.Ring

set_option autoImplicit false

namespace RobotController.Foundation

/-! ## Contraction of an energy -/

section Energy

variable {α K : Type} [Field K]

/-- `f` keeps the region and multiplies the energy by `factor` in it. -/
structure Contracts (f : α → α) (region : α → Prop) (energy : α → K) (factor : K) : Prop where
  maps : ∀ x, region x → region (f x)
  scales : ∀ x, region x → energy (f x) = factor * energy x

namespace Contracts

variable {f : α → α} {region : α → Prop} {energy : α → K} {factor : K} {x : α}

theorem iterate (h : Contracts f region energy factor) (hx : region x) :
    ∀ n, region (f^[n] x) ∧ energy (f^[n] x) = factor ^ n * energy x := by
  intro n
  induction n with
  | zero => exact ⟨hx, by simp⟩
  | succ n ih =>
      rw [Function.iterate_succ_apply']
      refine ⟨h.maps _ ih.1, ?_⟩
      rw [h.scales _ ih.1, ih.2, pow_succ']
      ring

variable [LinearOrder K] [IsStrictOrderedRing K]

/-- An orbit that comes back to an energy has none. -/
theorem energy_eq_zero_of_return (h : Contracts f region energy factor) (hx : region x)
    (hpos : 0 < factor) (hlt : factor < 1) {m n : Nat} (hmn : m < n)
    (hreturn : energy (f^[m] x) = energy (f^[n] x)) : energy (f^[m] x) = 0 := by
  have hm := (h.iterate hx m).2
  have hn := (h.iterate hx n).2
  rw [← hreturn, hm] at hn
  have hpow : factor ^ n < factor ^ m := pow_lt_pow_right_of_lt_one₀ hpos hlt hmn
  have hzero : (factor ^ m - factor ^ n) * energy x = 0 := by linarith
  rcases mul_eq_zero.mp hzero with hdiff | henergy
  · exact absurd hdiff (by linarith)
  · rw [hm, henergy, mul_zero]

end Contracts

end Energy

/-! ## The sampled loop -/

namespace SampledLoop

variable {K : Type} [Field K]

/-- The acceleration asked for at error `e` and velocity `v`. -/
def request (e v : K) : K := -e - 2⁻¹ * v

/-- The velocity after holding the request for a time `h`. -/
def nextVelocity (h e v : K) : K := v + request e v * h

/-- The error after holding the request for a time `h`. -/
def nextError (h e v : K) : K := e + (v * h + 2⁻¹ * request e v * h * h)

/-- The quadratic form that the loop scales. -/
def energy (h e v : K) : K := e ^ 2 + (1 - h) / 2 * e * v + (1 - h / 4) * v ^ 2

/-- The factor: the determinant of the loop. -/
def factor (h : K) : K := 1 - h / 2 + h ^ 2 / 2

/-- One period multiplies the energy by the factor, for every sampling time. -/
theorem energy_next [CharZero K] (h e v : K) :
    energy h (nextError h e v) (nextVelocity h e v) = factor h * energy h e v := by
  unfold energy nextError nextVelocity request factor
  ring

variable [LinearOrder K] [IsStrictOrderedRing K] {h e v : K}

theorem factor_pos (h : K) : 0 < factor h := by
  unfold factor
  nlinarith [sq_nonneg (h - 1 / 2)]

theorem factor_lt_one (hpos : 0 < h) (hlt : h < 1) : factor h < 1 := by
  unfold factor
  nlinarith

/-- The energy as a sum of squares. -/
theorem four_mul_energy (h e v : K) :
    4 * energy h e v =
      (2 * e + (1 - h) / 2 * v) ^ 2 + (4 - h - ((1 - h) / 2) ^ 2) * v ^ 2 := by
  unfold energy
  ring

theorem energy_coefficient_pos (hpos : 0 < h) (hlt : h < 1) :
    0 < 4 - h - ((1 - h) / 2) ^ 2 := by
  nlinarith

theorem energy_nonneg (hpos : 0 < h) (hlt : h < 1) : 0 ≤ energy h e v := by
  have hsum := four_mul_energy h e v
  have hcoefficient := energy_coefficient_pos hpos hlt
  have hv : 0 ≤ (4 - h - ((1 - h) / 2) ^ 2) * v ^ 2 := by positivity
  linarith [sq_nonneg (2 * e + (1 - h) / 2 * v)]

/-- The energy is positive definite. -/
theorem energy_eq_zero_iff (hpos : 0 < h) (hlt : h < 1) :
    energy h e v = 0 ↔ e = 0 ∧ v = 0 := by
  constructor
  · intro hzero
    have hsum := four_mul_energy h e v
    have hcoefficient := energy_coefficient_pos hpos hlt
    have hv : 0 ≤ (4 - h - ((1 - h) / 2) ^ 2) * v ^ 2 := by positivity
    have hsquare : 0 ≤ (2 * e + (1 - h) / 2 * v) ^ 2 := sq_nonneg _
    have hv0 : v = 0 := by
      have hprod : (4 - h - ((1 - h) / 2) ^ 2) * v ^ 2 = 0 := by linarith
      exact pow_eq_zero_iff two_ne_zero |>.mp
        ((mul_eq_zero.mp hprod).resolve_left hcoefficient.ne')
    subst hv0
    have he : (2 * e + (1 - h) / 2 * 0) ^ 2 = 0 := by linarith
    have he0 : 2 * e + (1 - h) / 2 * 0 = 0 := pow_eq_zero_iff two_ne_zero |>.mp he
    exact ⟨by linarith, rfl⟩
  · rintro ⟨rfl, rfl⟩
    simp [energy]

end SampledLoop

end RobotController.Foundation
