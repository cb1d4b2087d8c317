/-
  Foundation/Dissipation.lean --- energies that a run uses up.

  A run whose steps each take at least a fixed share of an energy per unit of time loses
  the energy exponentially in the time that passed, however that time was cut.  The
  potential of a drive that is limited to `[-A, A]` is quadratic up to the limit and
  linear beyond it; what is needed of it follows from one fact, that limiting a number
  projects it.
-/
import Mathlib.Analysis.SpecialFunctions.Exp
import RobotController.Foundation.Double
import RobotController.Foundation.StoppedMotion

set_option autoImplicit false

namespace RobotController.Foundation

/-! ## Decay along a run -/

section Decay

variable {α ι : Type}

/-- Every allowed step keeps the region and takes at least the share `rate * duration` of
the energy, unless it reaches the goal; and the goal is kept. -/
structure Dissipates (step : α → ι → α) (duration : ι → ℝ) (allowed : ι → Prop)
    (region goal : α → Prop) (energy : α → ℝ) (rate : ℝ) : Prop where
  energy_nonneg : ∀ x, region x → 0 ≤ energy x
  keeps_goal : ∀ x i, goal x → allowed i → goal (step x i)
  keeps_region : ∀ x i, region x → allowed i → goal (step x i) ∨ region (step x i)
  decays : ∀ x i, region x → allowed i →
    goal (step x i) ∨ energy (step x i) ≤ (1 - rate * duration i) * energy x

namespace Dissipates

variable {step : α → ι → α} {duration : ι → ℝ} {allowed : ι → Prop}
  {region goal : α → Prop} {energy : α → ℝ} {rate : ℝ}

theorem goal_run (h : Dissipates step duration allowed region goal energy rate) :
    ∀ (steps : List ι) {x : α}, (∀ i ∈ steps, allowed i) → goal x →
      goal (steps.foldl step x) := by
  intro steps
  induction steps with
  | nil => exact fun _ hx => hx
  | cons i rest ih =>
      intro x hallowed hx
      rw [List.forall_mem_cons] at hallowed
      exact ih hallowed.2 (h.keeps_goal x i hx hallowed.1)

/-- A run reaches the goal, or has used up its energy exponentially in its duration. -/
theorem run (h : Dissipates step duration allowed region goal energy rate) :
    ∀ (steps : List ι) {x : α}, (∀ i ∈ steps, allowed i) → region x →
      goal (steps.foldl step x) ∨ region (steps.foldl step x) ∧
        energy (steps.foldl step x) ≤
          Real.exp (-(rate * (steps.map duration).sum)) * energy x := by
  intro steps
  induction steps with
  | nil =>
      intro x _ hx
      refine .inr ⟨hx, ?_⟩
      simp
  | cons i rest ih =>
      intro x hallowed hx
      rw [List.forall_mem_cons] at hallowed
      rw [List.foldl_cons, List.map_cons, List.sum_cons]
      rcases h.keeps_region x i hx hallowed.1 with hgoal | hregion
      · exact .inl (h.goal_run rest hallowed.2 hgoal)
      · rcases h.decays x i hx hallowed.1 with hgoal | hdecay
        · exact .inl (h.goal_run rest hallowed.2 hgoal)
        · refine (ih hallowed.2 hregion).imp_right fun hrest => ⟨hrest.1, hrest.2.trans ?_⟩
          have hshare : 1 - rate * duration i ≤ Real.exp (-(rate * duration i)) := by
            linarith [Real.add_one_le_exp (-(rate * duration i))]
          have hstep := hdecay.trans
            (mul_le_mul_of_nonneg_right hshare (h.energy_nonneg x hx))
          calc Real.exp (-(rate * (rest.map duration).sum)) * energy (step x i)
              ≤ Real.exp (-(rate * (rest.map duration).sum)) *
                  (Real.exp (-(rate * duration i)) * energy x) :=
                mul_le_mul_of_nonneg_left hstep (Real.exp_pos _).le
            _ = Real.exp (-(rate * (duration i + (rest.map duration).sum))) * energy x := by
                rw [← mul_assoc, ← Real.exp_add]
                ring_nf

end Dissipates

end Decay

/-! ## The potential of a limited drive -/

section Potential

variable {A x y s κ : ℝ}

/-- Limiting a number projects it: what is cut off points away from the range. -/
theorem saturate_projects (hlo : -A ≤ s) (hhi : s ≤ A) :
    (s - saturate A x) * (x - saturate A x) ≤ 0 := by
  rcases le_total x (-A) with hbelow | habove
  · rw [saturate, clamp_of_le_lo hbelow]
    exact mul_nonpos_of_nonneg_of_nonpos (by linarith) (by linarith)
  · rcases le_total A x with hbeyond | hwithin
    · rw [saturate, clamp_of_hi_le (hlo.trans hhi) hbeyond]
      exact mul_nonpos_of_nonpos_of_nonneg (by linarith) (by linarith)
    · rw [saturate_of_mem habove hwithin, sub_self, mul_zero]

/-- The potential of a drive that is limited to `[-A, A]`. -/
noncomputable def potential (A x : ℝ) : ℝ := saturate A x * x - 0.5 * saturate A x ^ 2

theorem potential_eq (A x : ℝ) : potential A x = saturate A x * x - saturate A x ^ 2 / 2 := by
  rw [potential]
  ring

theorem potential_neg (hA : 0 ≤ A) (x : ℝ) : potential A (-x) = potential A x := by
  rw [potential, potential, saturate_neg hA]
  ring

/-- The drive is the slope of its potential, and the potential is convex. -/
theorem potential_add_le (hA : 0 ≤ A) (x y : ℝ) :
    potential A x + saturate A x * (y - x) ≤ potential A y := by
  have hcut := saturate_projects (x := y) (neg_le_saturate A x) (saturate_le hA)
  simp only [potential_eq]
  nlinarith [sq_nonneg (saturate A y - saturate A x)]

/-- The slope of the potential grows no faster than its argument. -/
theorem potential_le_add (hA : 0 ≤ A) (x y : ℝ) :
    potential A y ≤ potential A x + saturate A x * (y - x) + (y - x) ^ 2 / 2 := by
  have hcut := saturate_projects (x := x) (neg_le_saturate A y) (saturate_le hA)
  simp only [potential_eq]
  nlinarith [sq_nonneg ((y - saturate A y) - (x - saturate A x))]

theorem sq_saturate_le (hA : 0 ≤ A) (x : ℝ) : saturate A x ^ 2 ≤ saturate A x * x := by
  have hcut := saturate_projects (x := x) (neg_nonpos.mpr hA) hA
  nlinarith

theorem half_le_potential (hA : 0 ≤ A) (x : ℝ) : saturate A x * x / 2 ≤ potential A x := by
  have hsq := sq_saturate_le hA x
  simp only [potential_eq]
  linarith

theorem potential_le_half_sq (A x : ℝ) : potential A x ≤ x ^ 2 / 2 := by
  simp only [potential_eq]
  nlinarith [sq_nonneg (x - saturate A x)]

/-- Not too far beyond the limit, the drive is not much smaller than its argument. -/
theorem mul_le_mul_sq_saturate (hκ : 1 ≤ κ) (h : |x| ≤ κ * A) :
    saturate A x * x ≤ κ * saturate A x ^ 2 := by
  obtain ⟨hlow, hhigh⟩ := abs_le.mp h
  rcases le_total x (-A) with hbelow | habove
  · rw [saturate, clamp_of_le_lo hbelow]
    nlinarith
  · rcases le_total A x with hbeyond | hwithin
    · have hA : -A ≤ A := by nlinarith
      rw [saturate, clamp_of_hi_le hA hbeyond]
      nlinarith
    · rw [saturate_of_mem habove hwithin]
      nlinarith [sq_nonneg x]

theorem sq_le_mul_saturate (hκ : 1 ≤ κ) (h : |x| ≤ κ * A) : x ^ 2 ≤ κ * (saturate A x * x) := by
  have hA : 0 ≤ A := nonneg_of_mul_nonneg_right ((abs_nonneg x).trans h) (by linarith)
  obtain ⟨hlow, hhigh⟩ := abs_le.mp h
  rcases le_total x (-A) with hbelow | habove
  · rw [saturate, clamp_of_le_lo hbelow]
    have hx : 0 ≤ -x := by linarith
    nlinarith [mul_nonneg hx (by linarith : 0 ≤ κ * A + x)]
  · rcases le_total A x with hbeyond | hwithin
    · rw [saturate, clamp_of_hi_le (neg_le_self hA) hbeyond]
      have hx : 0 ≤ x := hA.trans hbeyond
      nlinarith [mul_nonneg hx (by linarith : 0 ≤ κ * A - x)]
    · rw [saturate_of_mem habove hwithin]
      nlinarith [sq_nonneg x]

theorem potential_le (hκ : 1 ≤ κ) (h : |x| ≤ κ * A) :
    potential A x ≤ (κ - 1 / 2) * saturate A x ^ 2 := by
  have hdrive := mul_le_mul_sq_saturate hκ h
  simp only [potential_eq]
  linarith

end Potential

/-! ## How long the drive acts -/

section DrivenTime

variable {V v a T : ℝ}

/-- A drive acts until the speed limit is reached, and no longer: velocity and distance are
those of a drive for a time `τ`, and what is left of the time is spent at the limit. -/
structure DrivenFor (V v a T τ : ℝ) : Prop where
  nonneg : 0 ≤ τ
  le : τ ≤ T
  velocity_eq : saturate V (v + a * T) = v + a * τ
  travel_eq : travel V v a T = v * T + a * τ * (T - τ / 2)
  cruises : (T - τ) * (|a| * V - a * (v + a * τ)) = 0

theorem DrivenFor.neg (hV : 0 ≤ V) {τ : ℝ} (h : DrivenFor V v a T τ) :
    DrivenFor V (-v) (-a) T τ := by
  have hvelocity : -v + -a * T = -(v + a * T) := by ring
  refine ⟨h.nonneg, h.le, ?_, ?_, ?_⟩
  · rw [hvelocity, saturate_neg hV, h.velocity_eq]
    ring
  · rw [travel_neg hV, h.travel_eq]
    ring
  · rw [abs_neg, ← h.cruises]
    ring

theorem exists_drivenFor_of_nonneg (hT : 0 ≤ T) (hv : -V ≤ v ∧ v ≤ V) (ha : 0 ≤ a) :
    ∃ τ, DrivenFor V v a T τ := by
  have hV : 0 ≤ V := by linarith [hv.1, hv.2]
  have hgain := mul_nonneg ha hT
  rcases le_or_gt (v + a * T) V with hbelow | habove
  · have hlow : -V ≤ v + a * T := by linarith [hv.1]
    refine ⟨T, hT, le_rfl, saturate_of_mem hlow hbelow, ?_, by simp⟩
    rw [travel_of_mem hT hv ⟨hlow, hbelow⟩]
    ring
  · have hpos : 0 < a := by
      refine lt_of_le_of_ne ha fun hzero => ?_
      rw [← hzero, zero_mul, add_zero] at habove
      linarith [hv.2]
    have hreach : v + a * ((V - v) / a) = V := by
      field_simp
      ring
    have hbefore : (V - v) / a ≤ T := by
      rw [div_le_iff₀ hpos]
      linarith
    have hafter : 0 ≤ (V - v) / a := div_nonneg (by linarith [hv.2]) ha
    generalize (V - v) / a = τ at hreach hbefore hafter
    refine ⟨τ, hafter, hbefore, ?_, ?_, ?_⟩
    · rw [hreach, saturate_of_le hV habove.le]
    · rw [travel_of_reaches hV hafter hbefore ha hv hreach, ← hreach]
      ring
    · rw [hreach, abs_of_nonneg ha, sub_self, mul_zero]

theorem exists_drivenFor (hT : 0 ≤ T) (hv : -V ≤ v ∧ v ≤ V) (a : ℝ) :
    ∃ τ, DrivenFor V v a T τ := by
  rcases le_total 0 a with ha | ha
  · exact exists_drivenFor_of_nonneg hT hv ha
  · obtain ⟨τ, hτ⟩ := exists_drivenFor_of_nonneg hT
      (v := -v) ⟨neg_le_neg hv.2, neg_le.mp hv.1⟩ (neg_nonneg.mpr ha)
    have hV : 0 ≤ V := by linarith [hv.1, hv.2]
    have hmirror := hτ.neg hV
    rw [neg_neg, neg_neg] at hmirror
    exact ⟨τ, hmirror⟩

end DrivenTime

end RobotController.Foundation
