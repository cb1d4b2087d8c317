/-
  Foundation/FirstLimit.lean --- which limit a motion reaches first.

  A motion `x` starts between two limits.  If it rises above its start and then falls,
  the upper limit comes first whenever it is reached at all.  Motion under a velocity
  limit and a constant acceleration is of this form, or its mirror image is.
-/
import RobotController.Foundation.Saturation

set_option autoImplicit false

namespace RobotController.Foundation

open MeasureTheory

/-! ## The first limit -/

/-- At `y` the limit is reached or crossed. -/
def Meets (lo hi limit y : ℝ) : Prop := limit = hi ∧ hi ≤ y ∨ limit = lo ∧ y ≤ lo

/-- The motion meets the limit at some time in `(0, T]`, and no other limit before. -/
def FirstLimit (lo hi : ℝ) (x : ℝ → ℝ) (T limit : ℝ) : Prop :=
  ∃ t, 0 < t ∧ t ≤ T ∧ Meets lo hi limit (x t) ∧
    ∀ s, 0 < s → s < t → ∀ other, Meets lo hi other (x s) → other = limit

/-- The motion that is stopped at the limits only where it ends stops at the first limit
it reaches. -/
def StopsAtFirst (lo hi : ℝ) (x : ℝ → ℝ) (T : ℝ) : Prop :=
  (∃ t, 0 < t ∧ t ≤ T ∧ (hi ≤ x t ∨ x t ≤ lo)) →
    ∃ limit, FirstLimit lo hi x T limit ∧ clamp lo hi (x T) = limit

section First

variable {lo hi limit other y T : ℝ} {x : ℝ → ℝ}

theorem Meets.unique (hlimits : lo ≤ hi) (h : Meets lo hi limit y) (h' : Meets lo hi other y) :
    limit = other := by
  obtain ⟨rfl, hy⟩ | ⟨rfl, hy⟩ := h <;> obtain ⟨rfl, hy'⟩ | ⟨rfl, hy'⟩ := h' <;> linarith

theorem FirstLimit.eq_or_eq {lo hi T limit : ℝ} {x : ℝ → ℝ} (h : FirstLimit lo hi x T limit) :
    limit = hi ∨ limit = lo := by
  obtain ⟨t, -, -, hmeets, -⟩ := h
  exact hmeets.imp And.left And.left

/-- There is one first limit. -/
theorem FirstLimit.unique (hlimits : lo ≤ hi) (h : FirstLimit lo hi x T limit)
    (h' : FirstLimit lo hi x T other) : limit = other := by
  obtain ⟨t, ht, -, hmeets, hfirst⟩ := h
  obtain ⟨t', ht', -, hmeets', hfirst'⟩ := h'
  rcases lt_trichotomy t t' with hlt | rfl | hlt
  · exact hfirst' t ht hlt limit hmeets
  · exact hmeets.unique hlimits hmeets'
  · exact (hfirst t' ht' hlt other hmeets').symm

theorem Meets.neg (h : Meets lo hi limit y) : Meets (-hi) (-lo) (-limit) (-y) := by
  obtain ⟨rfl, hy⟩ | ⟨rfl, hy⟩ := h
  · exact .inr ⟨rfl, neg_le_neg hy⟩
  · exact .inl ⟨rfl, neg_le_neg hy⟩

theorem FirstLimit.neg (h : FirstLimit lo hi x T limit) :
    FirstLimit (-hi) (-lo) (fun t => -x t) T (-limit) := by
  obtain ⟨t, ht, htT, hmeets, hfirst⟩ := h
  refine ⟨t, ht, htT, hmeets.neg, ?_⟩
  intro s hs hst other hother
  have hback := hother.neg
  rw [neg_neg, neg_neg, neg_neg] at hback
  rw [← hfirst s hs hst _ hback, neg_neg]

theorem clamp_neg (hlimits : lo ≤ hi) : clamp (-hi) (-lo) (-y) = -clamp lo hi y := by
  rcases le_total y lo with hlow | hlow
  · rw [clamp_of_le_lo hlow, clamp_of_hi_le (neg_le_neg hlimits) (neg_le_neg hlow)]
  · rcases le_total hi y with hhigh | hhigh
    · rw [clamp_of_hi_le hlimits hhigh, clamp_of_le_lo (neg_le_neg hhigh)]
    · rw [clamp_of_mem hlow hhigh, clamp_of_mem (neg_le_neg hhigh) (neg_le_neg hlow)]

theorem StopsAtFirst.neg (hlimits : lo ≤ hi) (h : StopsAtFirst lo hi x T) :
    StopsAtFirst (-hi) (-lo) (fun t => -x t) T := by
  rintro ⟨t, ht, htT, hmeets⟩
  have hreached : ∃ t, 0 < t ∧ t ≤ T ∧ (hi ≤ x t ∨ x t ≤ lo) :=
    ⟨t, ht, htT, hmeets.symm.imp neg_le_neg_iff.mp neg_le_neg_iff.mp⟩
  obtain ⟨limit, hfirst, hclamp⟩ := h hreached
  exact ⟨-limit, hfirst.neg, by rw [clamp_neg hlimits, hclamp]⟩

/-- The mirror image of a motion stops alike. -/
theorem stopsAtFirst_neg_iff (hlimits : lo ≤ hi) :
    StopsAtFirst (-hi) (-lo) (fun t => -x t) T ↔ StopsAtFirst lo hi x T := by
  constructor
  · intro h
    have hback := h.neg (neg_le_neg hlimits)
    simpa only [neg_neg] using hback
  · exact .neg hlimits

end First

/-! ## Motions that rise and then fall -/

/-- Up to time `m` the motion is above its start, and from then on it falls. -/
structure RisesThenFalls (x : ℝ → ℝ) (m T : ℝ) : Prop where
  rises : ∀ t, 0 < t → t ≤ m → x 0 < x t
  falls : ∀ s t, m ≤ s → s ≤ t → t ≤ T → x t ≤ x s

namespace RisesThenFalls

variable {lo hi m T t : ℝ} {x : ℝ → ℝ}

/-- If the upper limit is reached, it is the first. -/
theorem firstLimit_hi (h : RisesThenFalls x m T) (hlow : lo ≤ x 0) (hlimits : lo ≤ hi)
    (ht : 0 < t) (htT : t ≤ T) (hreached : hi ≤ x t) : FirstLimit lo hi x T hi := by
  refine ⟨t, ht, htT, .inl ⟨rfl, hreached⟩, ?_⟩
  rintro s hs hst other (⟨rfl, -⟩ | ⟨rfl, hbelow⟩)
  · rfl
  · rcases le_total s m with hsm | hms
    · linarith [h.rises s hs hsm]
    · linarith [h.falls s t hms hst.le htT]

/-- If only the lower limit is reached, it is the first, and the motion stays below it. -/
theorem firstLimit_lo (h : RisesThenFalls x m T) (hlow : lo ≤ x 0)
    (hnone : ∀ s, 0 < s → s ≤ T → x s < hi) (ht : 0 < t) (htT : t ≤ T) (hreached : x t ≤ lo) :
    x T ≤ lo ∧ FirstLimit lo hi x T lo := by
  have hmt : m ≤ t := by
    by_contra hlt
    linarith [h.rises t ht (not_le.mp hlt).le]
  have hend : x T ≤ lo := (h.falls t T hmt htT le_rfl).trans hreached
  refine ⟨hend, T, ht.trans_le htT, le_rfl, .inr ⟨rfl, hend⟩, ?_⟩
  rintro s hs hsT other (⟨rfl, habove⟩ | ⟨rfl, -⟩)
  · exact absurd habove (not_le.mpr (hnone s hs hsT.le))
  · rfl

/-- A motion that reaches a limit reaches the upper one first, or is below the lower one at
the end. -/
theorem firstLimit_cases (h : RisesThenFalls x m T) (hlow : lo ≤ x 0) (hlimits : lo ≤ hi)
    (hmeets : ∃ t, 0 < t ∧ t ≤ T ∧ (hi ≤ x t ∨ x t ≤ lo)) :
    (∃ t, 0 < t ∧ t ≤ T ∧ hi ≤ x t) ∧ FirstLimit lo hi x T hi ∨
      x T ≤ lo ∧ FirstLimit lo hi x T lo := by
  obtain ⟨t, ht, htT, hmeets⟩ := hmeets
  by_cases hreached : ∃ s, 0 < s ∧ s ≤ T ∧ hi ≤ x s
  · obtain ⟨s, hs, hsT, habove⟩ := hreached
    exact .inl ⟨⟨s, hs, hsT, habove⟩, h.firstLimit_hi hlow hlimits hs hsT habove⟩
  · have hnone : ∀ s, 0 < s → s ≤ T → x s < hi := by
      intro s hs hsT
      by_contra habove
      exact hreached ⟨s, hs, hsT, not_lt.mp habove⟩
    have hbelow : x t ≤ lo := hmeets.resolve_left (not_le.mpr (hnone t ht htT))
    exact .inr (h.firstLimit_lo hlow hnone ht htT hbelow)

theorem exists_firstLimit (h : RisesThenFalls x m T) (hlow : lo ≤ x 0) (hlimits : lo ≤ hi)
    (hmeets : ∃ t, 0 < t ∧ t ≤ T ∧ (hi ≤ x t ∨ x t ≤ lo)) :
    ∃ limit, FirstLimit lo hi x T limit := by
  rcases h.firstLimit_cases hlow hlimits hmeets with ⟨-, hfirst⟩ | ⟨-, hfirst⟩
  · exact ⟨hi, hfirst⟩
  · exact ⟨lo, hfirst⟩

/-- Such a motion stops at the first limit unless it falls back from the upper one. -/
theorem stopsAtFirst_iff (h : RisesThenFalls x m T) (hlow : lo ≤ x 0) (hlimits : lo ≤ hi) :
    StopsAtFirst lo hi x T ↔
      ((∃ t, 0 < t ∧ t ≤ T ∧ hi ≤ x t) → hi ≤ x T ∨ lo = hi) := by
  constructor
  · rintro hstops ⟨t, ht, htT, hreached⟩
    obtain ⟨limit, hfirst, hclamp⟩ := hstops ⟨t, ht, htT, .inl hreached⟩
    obtain rfl : hi = limit :=
      (h.firstLimit_hi hlow hlimits ht htT hreached).unique hlimits hfirst
    rcases le_or_gt hi (x T) with hend | hend
    · exact .inl hend
    · rw [clamp, min_eq_left hend.le] at hclamp
      rcases max_choice lo (x T) with hmax | hmax <;> rw [hmax] at hclamp
      · exact .inr hclamp
      · exact absurd hclamp hend.ne
  · intro hcondition hmeets
    rcases h.firstLimit_cases hlow hlimits hmeets with ⟨hreached, hfirst⟩ | ⟨hend, hfirst⟩
    · refine ⟨hi, hfirst, ?_⟩
      rcases hcondition hreached with hend | rfl
      · exact clamp_of_hi_le hlimits hend
      · exact le_antisymm (max_le le_rfl (min_le_right _ _)) (le_max_left _ _)
    · exact ⟨lo, hfirst, clamp_of_le_lo hend⟩

end RisesThenFalls

/-! ## Motion under a velocity limit -/

section Travel

variable {V v a p T s t : ℝ}

theorem saturate_nonneg (hV : 0 ≤ V) {y : ℝ} (hy : 0 ≤ y) : 0 ≤ saturate V y :=
  (le_min hy hV).trans (le_max_right _ _)

theorem saturate_pos (hV : 0 < V) {y : ℝ} (hy : 0 < y) : 0 < saturate V y :=
  (lt_min hy hV).trans_le (le_max_right _ _)

/-- A velocity that is not negative at either end is not negative in between. -/
theorem velocity_nonneg (hv : 0 ≤ v) (hend : 0 ≤ v + a * T) (ht : 0 ≤ t) (htT : t ≤ T) :
    0 ≤ v + a * t := by
  rcases le_total 0 a with ha | ha
  · linarith [mul_nonneg ha ht]
  · linarith [mul_le_mul_of_nonpos_left htT ha]

/-- With a velocity that does not turn, a body moves forward. -/
theorem travel_nonneg (hV : 0 ≤ V) (hT : 0 ≤ T) (hv : 0 ≤ v) (hend : 0 ≤ v + a * T) :
    0 ≤ travel V v a T :=
  intervalIntegral.integral_nonneg hT fun _ ht =>
    saturate_nonneg hV (velocity_nonneg hv hend ht.1 ht.2)

theorem travel_pos_of_forall (hV : 0 < V) (hT : 0 < T)
    (hforward : ∀ t, 0 < t → t < T → 0 < v + a * t) : 0 < travel V v a T :=
  intervalIntegral.intervalIntegral_pos_of_pos_on (intervalIntegrable_saturate V v a 0 T)
    (fun t ht => saturate_pos hV (hforward t ht.1 ht.2)) hT

theorem travel_pos (hV : 0 < V) (hT : 0 < T) (hv : 0 < v) (hend : 0 ≤ v + a * T) :
    0 < travel V v a T := by
  refine travel_pos_of_forall hV hT ?_
  intro t ht htT
  rcases le_or_gt 0 a with ha | ha
  · linarith [mul_nonneg ha ht.le]
  · linarith [mul_lt_mul_of_neg_left htT ha]

theorem travel_nonpos (hV : 0 ≤ V) (hT : 0 ≤ T) (hv : v ≤ 0) (hend : v + a * T ≤ 0) :
    travel V v a T ≤ 0 := by
  have hmirror : 0 ≤ travel V (-v) (-a) T := travel_nonneg hV hT (by linarith) (by linarith)
  rw [travel_neg hV] at hmirror
  linarith

/-- A body pulled back from rest moves back, unless it cannot move at all. -/
theorem travel_rest_neg (hV : 0 < V) (ha : a < 0) (hT : 0 < T) : travel V 0 a T < 0 := by
  have hmirror : 0 < travel V 0 (-a) T := by
    refine travel_pos_of_forall hV hT ?_
    intro t ht _
    linarith [mul_neg_of_neg_of_pos ha ht]
  have hneg := travel_neg hV.le 0 (-a) T
  rw [neg_neg, neg_zero] at hneg
  linarith

theorem travel_rest_eq_zero (hT : 0 ≤ T) (hV : 0 ≤ V) (hstill : V = 0 ∨ a = 0) :
    travel V 0 a T = 0 := by
  rcases hstill with rfl | rfl
  · simp [travel, saturate, clamp]
  · rw [travel_of_mem hT ⟨by linarith, hV⟩ ⟨by linarith, by linarith⟩]
    ring

theorem travel_zero (V v a : ℝ) : travel V v a 0 = 0 := intervalIntegral.integral_same

/-- While the velocity is not negative, the body moves forward. -/
theorem travel_le_travel (hV : 0 ≤ V) (hst : s ≤ t) (hs : 0 ≤ v + a * s) (ht : 0 ≤ v + a * t) :
    travel V v a s ≤ travel V v a t := by
  have hlater : 0 ≤ travel V (v + a * s) a (t - s) :=
    travel_nonneg hV (sub_nonneg.mpr hst) hs (by linarith)
  linarith [travel_add V v a s t]

/-- While the velocity is not positive, the body moves back. -/
theorem travel_le_travel_of_nonpos (hV : 0 ≤ V) (hst : s ≤ t) (hs : v + a * s ≤ 0)
    (ht : v + a * t ≤ 0) : travel V v a t ≤ travel V v a s := by
  have hlater : travel V (v + a * s) a (t - s) ≤ 0 :=
    travel_nonpos hV (sub_nonneg.mpr hst) hs (by linarith)
  linarith [travel_add V v a s t]

/-- A body that starts forward rises, and falls once it has turned. -/
theorem risesThenFalls_of_turn (hV : 0 < V) (hv : 0 < v) (ha : a < 0) {τ : ℝ}
    (hturn : v + a * τ = 0) : RisesThenFalls (fun t => p + travel V v a t) τ T where
  rises t ht htτ := by
    have hpos : 0 < travel V v a t :=
      travel_pos hV ht hv (by linarith [mul_le_mul_of_nonpos_left htτ ha.le])
    simpa [travel_zero] using hpos
  falls s t hs hst _ := by
    have hs0 : v + a * s ≤ 0 := by linarith [mul_le_mul_of_nonpos_left hs ha.le]
    have ht0 : v + a * t ≤ 0 := by linarith [mul_le_mul_of_nonpos_left hst ha.le]
    simpa using travel_le_travel_of_nonpos hV.le hst hs0 ht0

/-- A body that does not turn rises. -/
theorem risesThenFalls_of_no_turn (hV : 0 < V) (hv : 0 < v) (hend : 0 ≤ v + a * T) :
    RisesThenFalls (fun t => p + travel V v a t) T T where
  rises t ht htT := by
    have hmoving := velocity_nonneg hv.le hend ht.le htT
    simpa [travel_zero] using travel_pos hV ht hv hmoving
  falls s t hs hst htT := by
    obtain rfl : s = t := le_antisymm hst (htT.trans hs)
    exact le_rfl

/-- A body that starts at rest and is pulled back falls. -/
theorem risesThenFalls_of_rest (hV : 0 ≤ V) (ha : a ≤ 0) :
    RisesThenFalls (fun t => p + travel V 0 a t) 0 T where
  rises t ht ht0 := absurd ht (not_lt.mpr ht0)
  falls s t hs hst _ := by
    have hs0 : 0 + a * s ≤ 0 := by linarith [mul_nonpos_of_nonpos_of_nonneg ha hs]
    have ht0 : 0 + a * t ≤ 0 := by linarith [mul_nonpos_of_nonpos_of_nonneg ha (hs.trans hst)]
    simpa using travel_le_travel_of_nonpos hV hst hs0 ht0

end Travel

/-! ## Turning back -/

/-- The body reaches `hi`, turns, and is below `hi` again at time `T`. -/
structure TurnsBack (hi p v a T : ℝ) : Prop where
  forward : 0 < v
  turns : v + a * T < 0
  reaches : 2 * -a * (hi - p) ≤ v ^ 2
  returns : p + (v * T + 2⁻¹ * a * T * T) < hi

section TurningBack

variable {V v a p T lo hi : ℝ}

theorem exists_turn (ha : a ≠ 0) : ∃ τ, v + a * τ = 0 := by
  refine ⟨-v / a, ?_⟩
  field_simp
  ring

/-- Whether the body has reached `hi` when it turns. -/
theorem le_turn_iff (hv : 0 < v ∧ v ≤ V) (ha : a < 0) {τ : ℝ} (hturn : v + a * τ = 0) :
    hi ≤ p + travel V v a τ ↔ 2 * -a * (hi - p) ≤ v ^ 2 := by
  have hτ : 0 ≤ τ := by nlinarith
  have htravel : travel V v a τ = v * τ + 2⁻¹ * a * τ * τ :=
    travel_of_mem hτ ⟨by linarith, hv.2⟩ ⟨by linarith, by linarith⟩
  have hheight : 2 * -a * travel V v a τ = v ^ 2 := by
    have hvelocity : v = -a * τ := by linarith
    rw [htravel, hvelocity]
    ring
  have hpos : 0 < 2 * -a := by linarith
  constructor
  · intro h
    nlinarith
  · intro h
    have hle : 2 * -a * (hi - p) ≤ 2 * -a * travel V v a τ := by rw [hheight]; exact h
    linarith [le_of_mul_le_mul_left hle hpos]

/-- Whether the body is below `hi` at the end: the velocity limit makes no difference,
as it acts only when the body has come back to its start. -/
theorem end_lt_iff (hv : 0 < v ∧ v ≤ V) (hT : 0 ≤ T) (hp : p ≤ hi) (hturns : v + a * T < 0) :
    p + travel V v a T < hi ↔ p + (v * T + 2⁻¹ * a * T * T) < hi := by
  rcases le_or_gt (-V) (v + a * T) with hfree | hlimit
  · rw [travel_of_mem hT ⟨by linarith, hv.2⟩ ⟨hfree, by linarith⟩]
  · have ha : a < 0 := by nlinarith
    obtain ⟨τ, hturn⟩ : ∃ τ, v + a * τ = 0 := exists_turn ha.ne
    have hτ : 0 ≤ τ := by nlinarith
    have hback : travel V v a (2 * τ) = 0 := by
      rw [travel_of_mem (by linarith) ⟨by linarith, hv.2⟩ ⟨by linarith, by linarith⟩]
      linear_combination 2 * τ * hturn
    have hlater : 2 * τ < T := by nlinarith
    have hbelow : travel V (v + a * (2 * τ)) a (T - 2 * τ) < 0 := by
      have hmirror : 0 < travel V v (-a) (T - 2 * τ) :=
        travel_pos (hv.1.trans_le hv.2) (sub_pos.mpr hlater) hv.1 (by nlinarith)
      have hturned : v + a * (2 * τ) = -v := by linarith
      have hneg := travel_neg (hv.1.le.trans hv.2) v (-a) (T - 2 * τ)
      rw [neg_neg] at hneg
      rw [hturned, hneg]
      linarith
    have hend : travel V v a T < 0 := by linarith [travel_add V v a (2 * τ) T]
    have hfree : v * T + 2⁻¹ * a * T * T < 0 := by nlinarith
    constructor <;> intro _ <;> linarith

/-- A body that turns reaches `hi` if it has when it turns. -/
theorem reaches_iff (hv : 0 < v ∧ v ≤ V) (ha : a < 0) {τ : ℝ} (hturn : v + a * τ = 0)
    (hτ : 0 < τ) (hτT : τ < T) :
    (∃ t, 0 < t ∧ t ≤ T ∧ hi ≤ p + travel V v a t) ↔ 2 * -a * (hi - p) ≤ v ^ 2 := by
  have hV : 0 < V := hv.1.trans_le hv.2
  rw [← le_turn_iff hv ha hturn]
  constructor
  · rintro ⟨t, ht, htT, hreached⟩
    refine hreached.trans ?_
    rcases le_total t τ with htτ | hτt
    · have hmoving := velocity_nonneg hv.1.le hturn.ge ht.le htτ
      linarith [travel_le_travel hV.le htτ hmoving hturn.ge]
    · exact (risesThenFalls_of_turn hV hv.1 ha hturn).falls τ t le_rfl hτt htT
  · intro hpeak
    exact ⟨τ, hτ, hτT.le, hpeak⟩

/-- A body that starts forward stops at the first limit unless it turns back from it. -/
theorem stopsAtFirst_of_forward (hv : 0 < v ∧ v ≤ V) (hT : 0 < T) (hp : lo ≤ p ∧ p ≤ hi) :
    StopsAtFirst lo hi (fun t => p + travel V v a t) T ↔
      lo = hi ∨ ¬ TurnsBack hi p v a T := by
  have hV : 0 < V := hv.1.trans_le hv.2
  have hstart : lo ≤ p + travel V v a 0 := by rw [travel_zero, add_zero]; exact hp.1
  have hlimits : lo ≤ hi := hp.1.trans hp.2
  rcases le_or_gt 0 (v + a * T) with hend | hturns
  · have hrises := risesThenFalls_of_no_turn (p := p) hV hv.1 hend
    rw [hrises.stopsAtFirst_iff hstart hlimits]
    have hno : ¬ TurnsBack hi p v a T := fun h => absurd h.turns (not_lt.mpr hend)
    refine iff_of_true ?_ (.inr hno)
    rintro ⟨t, ht, htT, hreached⟩
    have hmoving := velocity_nonneg hv.1.le hend ht.le htT
    refine .inl (hreached.trans ?_)
    linarith [travel_le_travel hV.le htT hmoving hend]
  · have ha : a < 0 := by nlinarith [hv.1]
    obtain ⟨τ, hturn⟩ : ∃ τ, v + a * τ = 0 := exists_turn ha.ne
    have hτ : 0 < τ := by nlinarith [hv.1]
    have hτT : τ < T := by nlinarith
    have hrises := risesThenFalls_of_turn (p := p) (T := T) hV hv.1 ha hturn
    rw [hrises.stopsAtFirst_iff hstart hlimits, reaches_iff hv ha hturn hτ hτT]
    constructor
    · intro hstops
      by_contra hnot
      obtain ⟨hne, hback⟩ := not_or.mp hnot
      have hturnsBack : TurnsBack hi p v a T := not_not.mp hback
      rcases hstops hturnsBack.reaches with habove | hsame
      · exact absurd ((end_lt_iff hv hT.le hp.2 hturns).mpr hturnsBack.returns)
          (not_lt.mpr habove)
      · exact hne hsame
    · rintro hcondition hpeak
      rcases hcondition with hsame | hback
      · exact .inr hsame
      · left
        by_contra hbelow
        exact hback ⟨hv.1, hturns, hpeak,
          (end_lt_iff hv hT.le hp.2 hturns).mp (not_le.mp hbelow)⟩

theorem neg_motion (hV : 0 ≤ V) :
    (fun t => -(p + travel V v a t)) = fun t => -p + travel V (-v) (-a) t := by
  funext t
  rw [travel_neg hV, neg_add]

theorem exists_risesThenFalls (hV : 0 ≤ V) (hv : -V ≤ v ∧ v ≤ V) (hT : 0 < T)
    (hforward : 0 < v ∨ v = 0 ∧ a ≤ 0) :
    ∃ m, RisesThenFalls (fun t => p + travel V v a t) m T := by
  rcases hforward with hpos | ⟨rfl, ha⟩
  · rcases le_or_gt 0 (v + a * T) with hend | hturns
    · exact ⟨T, risesThenFalls_of_no_turn (hpos.trans_le hv.2) hpos hend⟩
    · have ha : a < 0 := by
        by_contra hnot
        linarith [mul_nonneg (not_lt.mp hnot) hT.le]
      obtain ⟨τ, hturn⟩ := exists_turn (v := v) ha.ne
      exact ⟨τ, risesThenFalls_of_turn (hpos.trans_le hv.2) hpos ha hturn⟩
  · exact ⟨0, risesThenFalls_of_rest hV ha⟩

/-- A body that reaches a limit reaches one first. -/
theorem exists_firstLimit_travel (hV : 0 ≤ V) (hv : -V ≤ v ∧ v ≤ V) (hp : lo ≤ p ∧ p ≤ hi)
    (hmeets : ∃ t, 0 < t ∧ t ≤ T ∧ (hi ≤ p + travel V v a t ∨ p + travel V v a t ≤ lo)) :
    ∃ limit, FirstLimit lo hi (fun t => p + travel V v a t) T limit := by
  have hlimits := hp.1.trans hp.2
  have hT : 0 < T := by
    obtain ⟨t, ht, htT, -⟩ := hmeets
    exact ht.trans_le htT
  by_cases hforward : 0 < v ∨ v = 0 ∧ a ≤ 0
  · obtain ⟨m, hrises⟩ := exists_risesThenFalls (p := p) hV hv hT hforward
    have hstart : lo ≤ p + travel V v a 0 := by rw [travel_zero, add_zero]; exact hp.1
    exact hrises.exists_firstLimit hstart hlimits hmeets
  · have hback : 0 < -v ∨ -v = 0 ∧ -a ≤ 0 := by
      rcases lt_trichotomy v 0 with hneg | hzero | hpos
      · exact .inl (neg_pos.mpr hneg)
      · have ha : ¬ a ≤ 0 := fun ha => hforward (.inr ⟨hzero, ha⟩)
        exact .inr ⟨by linarith, by linarith⟩
      · exact absurd (.inl hpos) hforward
    obtain ⟨m, hrises⟩ := exists_risesThenFalls (p := -p) hV
      ⟨neg_le_neg hv.2, neg_le.mp hv.1⟩ hT hback
    have hstart : -hi ≤ -p + travel V (-v) (-a) 0 := by
      rw [travel_zero, add_zero]
      exact neg_le_neg hp.2
    obtain ⟨t, ht, htT, hreached⟩ := hmeets
    have hmirror : -lo ≤ -p + travel V (-v) (-a) t ∨ -p + travel V (-v) (-a) t ≤ -hi := by
      rw [travel_neg hV, ← neg_add]
      exact hreached.symm.imp neg_le_neg neg_le_neg
    obtain ⟨limit, hfirst⟩ :=
      hrises.exists_firstLimit hstart (neg_le_neg hlimits) ⟨t, ht, htT, hmirror⟩
    have hneg := hfirst.neg
    rw [neg_motion hV] at hneg
    simp only [neg_neg] at hneg
    exact ⟨-limit, hneg⟩

/-- A body that starts at rest stops at the first limit. -/
theorem stopsAtFirst_of_rest (hV : 0 ≤ V) (ha : a ≤ 0) (hp : lo ≤ p ∧ p ≤ hi) :
    StopsAtFirst lo hi (fun t => p + travel V 0 a t) T := by
  have hstart : lo ≤ p + travel V 0 a 0 := by rw [travel_zero, add_zero]; exact hp.1
  rw [(risesThenFalls_of_rest hV ha).stopsAtFirst_iff hstart (hp.1.trans hp.2)]
  rintro ⟨t, ht, htT, hreached⟩
  left
  by_cases hstill : V = 0 ∨ a = 0
  · rw [travel_rest_eq_zero (ht.trans_le htT).le hV hstill]
    rwa [travel_rest_eq_zero ht.le hV hstill] at hreached
  · obtain ⟨hV0, ha0⟩ := not_or.mp hstill
    linarith [travel_rest_neg (lt_of_le_of_ne hV (Ne.symm hV0)) (lt_of_le_of_ne ha ha0) ht,
      hp.2]

/-- A body stops at the first limit it reaches unless it turns back from that limit
within the time. -/
theorem stopsAtFirst_iff_not_turnsBack (hV : 0 ≤ V) (hv : -V ≤ v ∧ v ≤ V) (hT : 0 < T)
    (hp : lo ≤ p ∧ p ≤ hi) :
    StopsAtFirst lo hi (fun t => p + travel V v a t) T ↔
      lo = hi ∨ ¬ TurnsBack hi p v a T ∧ ¬ TurnsBack (-lo) (-p) (-v) (-a) T := by
  have hmirror := stopsAtFirst_neg_iff (x := fun t => p + travel V v a t) (T := T)
    (hp.1.trans hp.2)
  rw [neg_motion hV] at hmirror
  have hp' : -hi ≤ -p ∧ -p ≤ -lo := ⟨neg_le_neg hp.2, neg_le_neg hp.1⟩
  rcases lt_trichotomy v 0 with hneg | rfl | hpos
  · have hback : ¬ TurnsBack hi p v a T := fun h => absurd h.forward (not_lt.mpr hneg.le)
    rw [← hmirror, stopsAtFirst_of_forward ⟨neg_pos.mpr hneg, neg_le.mp hv.1⟩ hT hp',
      neg_inj, eq_comm, and_iff_right hback]
  · have hstops : StopsAtFirst lo hi (fun t => p + travel V 0 a t) T := by
      rcases le_total a 0 with ha | ha
      · exact stopsAtFirst_of_rest hV ha hp
      · rw [← hmirror, neg_zero]
        exact stopsAtFirst_of_rest hV (neg_nonpos.mpr ha) hp'
    refine iff_of_true hstops (.inr ⟨fun h => absurd h.forward (lt_irrefl 0), ?_⟩)
    exact fun h => absurd h.forward (by simp)
  · have hback : ¬ TurnsBack (-lo) (-p) (-v) (-a) T := fun h =>
      absurd h.forward (not_lt.mpr (neg_nonpos.mpr hpos.le))
    rw [stopsAtFirst_of_forward ⟨hpos, hv.2⟩ hT hp, and_iff_left hback]

end TurningBack

end RobotController.Foundation
