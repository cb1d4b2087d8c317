/-
  Foundation/RoundToNearest.lean --- rounding to a binary floating-point format.

  A format keeps numbers `m * 2 ^ e` with a bounded integer `m` and a bounded
  exponent.  The result of an operation is the exact result rounded to the nearest
  such number, and to the one with even `m` if two are equally near.  Rounding is a
  function on the rationals; it is odd, and it leaves the numbers of the format as
  they are.
-/
import Mathlib.Algebra.Order.Floor.Ring
import Mathlib.Algebra.Order.Ring.Rat
import Mathlib.Data.Int.Log
import Mathlib.Data.Rat.Floor
import Mathlib.Tactic.FieldSimp
import Mathlib.Tactic.Linarith
import Mathlib.Tactic.Ring

set_option autoImplicit false

namespace RobotController.Foundation

/-! ## The nearest integer -/

/-- The nearest integer; of two equally near, the even one. -/
def roundEven (x : ℚ) : ℤ :=
  let below := ⌊x⌋
  let fraction := x - below
  if fraction < 1 / 2 then below
  else if 1 / 2 < fraction then below + 1
  else if Even below then below
  else below + 1

section RoundEven

variable {x : ℚ} {n : ℤ}

/-- What makes an integer the nearest one. -/
def Nearest (x : ℚ) (n : ℤ) : Prop := |x - n| < 1 / 2 ∨ |x - n| = 1 / 2 ∧ Even n

theorem nearest_roundEven (x : ℚ) : Nearest x (roundEven x) := by
  have hlow : 0 ≤ x - ⌊x⌋ := sub_nonneg.mpr (Int.floor_le x)
  have hhigh : x - ⌊x⌋ < 1 := by linarith [Int.lt_floor_add_one x]
  have habove : x - ((⌊x⌋ + 1 : ℤ) : ℚ) = x - ⌊x⌋ - 1 := by push_cast; ring
  unfold Nearest roundEven
  dsimp only
  split_ifs with hless hmore heven
  · left
    rwa [abs_of_nonneg hlow]
  · left
    rw [habove, abs_of_neg (by linarith)]
    linarith
  · right
    rw [abs_of_nonneg hlow]
    exact ⟨le_antisymm (not_lt.mp hmore) (not_lt.mp hless), heven⟩
  · right
    rw [habove, abs_of_neg (by linarith)]
    exact ⟨by linarith, (Int.not_even_iff_odd.mp heven).add_one⟩

theorem Nearest.abs_sub_le (h : Nearest x n) : |x - n| ≤ 1 / 2 :=
  h.elim le_of_lt fun htie => htie.1.le

/-- There is only one nearest integer. -/
theorem Nearest.unique {m : ℤ} (hm : Nearest x m) (hn : Nearest x n) : m = n := by
  have hdistance : |((m - n : ℤ) : ℚ)| ≤ |x - n| + |x - m| := by
    have hsplit : ((m - n : ℤ) : ℚ) = (x - n) - (x - m) := by push_cast; ring
    rw [hsplit]
    exact abs_sub _ _
  by_contra hne
  have hone : (1 : ℚ) ≤ |((m - n : ℤ) : ℚ)| := by
    exact_mod_cast Int.one_le_abs (sub_ne_zero.mpr hne)
  -- Both distances are one half, so both integers are even, and they are neighbours.
  have hm_half := hm.abs_sub_le
  have hn_half := hn.abs_sub_le
  have hm_even : Even m := (hm.resolve_left (by linarith)).2
  have hn_even : Even n := (hn.resolve_left (by linarith)).2
  have hnear : |m - n| ≤ 1 := by
    have hcast : |((m - n : ℤ) : ℚ)| ≤ 1 := by linarith
    exact_mod_cast hcast
  obtain ⟨k, hk⟩ := hm_even.sub hn_even
  rw [abs_le] at hnear
  omega

theorem roundEven_eq (h : Nearest x n) : roundEven x = n :=
  (nearest_roundEven x).unique h

theorem abs_sub_roundEven_le (x : ℚ) : |x - roundEven x| ≤ 1 / 2 :=
  (nearest_roundEven x).abs_sub_le

@[simp] theorem roundEven_intCast (n : ℤ) : roundEven (n : ℚ) = n :=
  roundEven_eq (.inl (by norm_num))

theorem roundEven_neg (x : ℚ) : roundEven (-x) = -roundEven x := by
  have hdistance : |-x - ((-roundEven x : ℤ) : ℚ)| = |x - roundEven x| := by
    rw [← abs_neg]
    push_cast
    ring_nf
  refine roundEven_eq ?_
  unfold Nearest
  rw [hdistance, even_neg]
  exact nearest_roundEven x

/-- A bound that is an integer survives rounding. -/
theorem abs_roundEven_le (h : |x| ≤ n) : |roundEven x| ≤ n := by
  have herror := abs_le.mp (abs_sub_roundEven_le x)
  have hbound := abs_le.mp h
  rw [abs_le]
  constructor
  · have hlt : ((-n - 1 : ℤ) : ℚ) < roundEven x := by push_cast; linarith
    have := Int.cast_lt.mp hlt
    omega
  · have hlt : (roundEven x : ℚ) < ((n + 1 : ℤ) : ℚ) := by push_cast; linarith
    have := Int.cast_lt.mp hlt
    omega

end RoundEven

/-! ## Formats -/

/-- A binary format: how many binary digits it keeps, the exponent of its smallest
positive number and the exponent from which on it has no number. -/
structure FloatFormat where
  precision : ℕ
  minExponent : ℤ
  maxExponent : ℤ
  precision_pos : 0 < precision

namespace FloatFormat

variable (format : FloatFormat)

/-- The exponent of the last digit that is kept at the magnitude of `x`. -/
def lastPlace (x : ℚ) : ℤ := max (Int.log 2 |x| + 1 - format.precision) format.minExponent

/-- Round to nearest, ties to even, as if the format had no largest number. -/
def round (x : ℚ) : ℚ :=
  roundEven (x / 2 ^ format.lastPlace x) * 2 ^ format.lastPlace x

/-- The numbers `round` can yield. -/
def Representable (x : ℚ) : Prop :=
  ∃ m e : ℤ, x = m * 2 ^ e ∧ |m| ≤ 2 ^ format.precision ∧ format.minExponent ≤ e

variable {format} {x : ℚ} {t : ℤ}

@[simp] theorem lastPlace_neg (x : ℚ) : format.lastPlace (-x) = format.lastPlace x := by
  simp [lastPlace]

/-- Rounding is odd. -/
theorem round_neg (x : ℚ) : format.round (-x) = -format.round x := by
  simp only [round, lastPlace_neg, neg_div, roundEven_neg]
  push_cast
  ring

@[simp] theorem round_zero : format.round 0 = 0 := by
  have hzero : roundEven 0 = 0 := by exact_mod_cast roundEven_intCast 0
  simp [round, hzero]

/-- The last place of a number of known magnitude. -/
theorem lastPlace_eq (ht : format.minExponent ≤ t)
    (hlow : 2 ^ (t + format.precision - 1) ≤ |x|) (hhigh : |x| < 2 ^ (t + format.precision)) :
    format.lastPlace x = t := by
  have hpos : 0 < |x| := lt_of_lt_of_le (zpow_pos two_pos _) hlow
  have hlog_low : t + format.precision - 1 ≤ Int.log 2 |x| :=
    (Int.zpow_le_iff_le_log (by norm_num) hpos).mp (by exact_mod_cast hlow)
  have hlog_high : Int.log 2 |x| < t + format.precision :=
    (Int.lt_zpow_iff_log_lt (by norm_num) hpos).mp (by exact_mod_cast hhigh)
  unfold lastPlace
  omega

/-- Rounding a number of known magnitude. -/
theorem round_eq (ht : format.minExponent ≤ t)
    (hlow : 2 ^ (t + format.precision - 1) ≤ |x|) (hhigh : |x| < 2 ^ (t + format.precision)) :
    format.round x = roundEven (x / 2 ^ t) * 2 ^ t := by
  rw [round, lastPlace_eq ht hlow hhigh]

/-- Rounding a number with a fraction, scaled up until its last digit is a unit. -/
theorem round_scaled {s : ℕ} (hs : format.minExponent ≤ -s)
    (hlow : 2 ^ (format.precision - 1) ≤ |x * 2 ^ s|) (hhigh : |x * 2 ^ s| < 2 ^ format.precision) :
    format.round x = roundEven (x * 2 ^ s) / 2 ^ s := by
  have hscale : (0 : ℚ) < 2 ^ s := by positivity
  have habs : |x| = |x * 2 ^ s| / 2 ^ s := by
    rw [abs_mul, abs_of_pos hscale, mul_div_cancel_right₀ _ hscale.ne']
  have hinverse : (2 : ℚ) ^ (-s : ℤ) = (2 ^ s)⁻¹ := by rw [zpow_neg, zpow_natCast]
  have hone_le : 1 ≤ format.precision := format.precision_pos
  rw [round_eq (t := -s) hs, hinverse, div_inv_eq_mul, ← div_eq_mul_inv]
  · have hexponent : (-s : ℤ) + format.precision - 1 = ((format.precision - 1 : ℕ) : ℤ) - s := by
      push_cast [hone_le]
      ring
    rw [hexponent, zpow_sub₀ two_ne_zero, zpow_natCast, zpow_natCast, habs]
    exact div_le_div_of_nonneg_right hlow hscale.le
  · have hexponent : (-s : ℤ) + format.precision = (format.precision : ℤ) - s := by ring
    rw [hexponent, zpow_sub₀ two_ne_zero, zpow_natCast, zpow_natCast, habs]
    exact div_lt_div_of_pos_right hhigh hscale

/-! ## Numbers of the format -/

theorem abs_lt_two_zpow (x : ℚ) : |x| < 2 ^ (Int.log 2 |x| + 1) := by
  exact_mod_cast Int.lt_zpow_succ_log_self (b := 2) (by norm_num) |x|

theorem representable_round (x : ℚ) : format.Representable (format.round x) := by
  refine ⟨roundEven (x / 2 ^ format.lastPlace x), format.lastPlace x, rfl, ?_, le_max_right _ _⟩
  refine abs_roundEven_le ?_
  have hplace : Int.log 2 |x| + 1 ≤ format.lastPlace x + format.precision := by
    unfold lastPlace
    omega
  have hbound : |x| ≤ 2 ^ format.precision * 2 ^ format.lastPlace x := by
    calc |x| ≤ 2 ^ (Int.log 2 |x| + 1) := (abs_lt_two_zpow x).le
      _ ≤ 2 ^ (format.lastPlace x + format.precision) :=
          zpow_le_zpow_right₀ (by norm_num) hplace
      _ = 2 ^ format.precision * 2 ^ format.lastPlace x := by
          rw [zpow_add₀ (by norm_num), zpow_natCast, mul_comm]
  have hpower : (0 : ℚ) < 2 ^ format.lastPlace x := zpow_pos two_pos _
  rw [abs_div, abs_of_pos hpower, div_le_iff₀ hpower]
  exact_mod_cast hbound

/-- A multiple of the last place is left as it is. -/
theorem round_of_multiple {n : ℤ} (h : x = n * 2 ^ format.lastPlace x) : format.round x = x := by
  have hquotient : x / 2 ^ format.lastPlace x = n := by
    rw [div_eq_iff (zpow_ne_zero _ two_ne_zero)]
    exact h
  rw [round, hquotient, roundEven_intCast]
  exact h.symm

/-- A number with fewer digits than the format keeps is left as it is. -/
theorem round_of_lt {m e : ℤ} (hm : |m| < 2 ^ format.precision) (he : format.minExponent ≤ e) :
    format.round (m * 2 ^ e) = m * 2 ^ e := by
  rcases eq_or_ne m 0 with rfl | hne
  · simp
  · have hpower : (0 : ℚ) < 2 ^ e := zpow_pos two_pos e
    have habs : |(m : ℚ) * 2 ^ e| = |(m : ℚ)| * 2 ^ e := by
      rw [abs_mul, abs_of_pos hpower]
    have hpos : 0 < |(m : ℚ) * 2 ^ e| := by
      rw [habs]
      exact mul_pos (abs_pos.mpr (Int.cast_ne_zero.mpr hne)) hpower
    have hm_cast : |(m : ℚ)| < 2 ^ format.precision := by exact_mod_cast hm
    have hlog : Int.log 2 |(m : ℚ) * 2 ^ e| < e + format.precision := by
      refine (Int.lt_zpow_iff_log_lt (by norm_num) hpos).mp ?_
      rw [habs]
      push_cast
      rw [zpow_add₀ (by norm_num), zpow_natCast, mul_comm]
      exact mul_lt_mul_of_pos_left hm_cast hpower
    have hplace : format.lastPlace (m * 2 ^ e) ≤ e := by
      unfold lastPlace
      omega
    obtain ⟨k, hk⟩ := Int.le.dest hplace
    refine round_of_multiple (n := m * 2 ^ k) ?_
    have hsplit : (2 : ℚ) ^ e = 2 ^ k * 2 ^ format.lastPlace (m * 2 ^ e) := by
      rw [← zpow_natCast, ← zpow_add₀ (by norm_num), add_comm, hk]
    calc (m : ℚ) * 2 ^ e = m * (2 ^ k * 2 ^ format.lastPlace (m * 2 ^ e)) := by rw [← hsplit]
      _ = ((m * 2 ^ k : ℤ) : ℚ) * 2 ^ format.lastPlace (m * 2 ^ e) := by push_cast; ring

/-- Rounding leaves the numbers of the format as they are. -/
theorem Representable.round_eq (h : format.Representable x) : format.round x = x := by
  obtain ⟨m, e, rfl, hm, he⟩ := h
  rcases hm.lt_or_eq with hlt | heq
  · exact round_of_lt hlt he
  · -- A power of two: it has one digit.
    obtain ⟨sign, hsign, rfl⟩ : ∃ sign : ℤ, |sign| = 1 ∧ m = sign * 2 ^ format.precision := by
      rcases abs_eq (by positivity : (0 : ℤ) ≤ 2 ^ format.precision) |>.mp heq with hpos | hneg
      · exact ⟨1, by norm_num, by rw [hpos, one_mul]⟩
      · exact ⟨-1, by norm_num, by rw [hneg, neg_one_mul]⟩
    have hshift : ((sign * 2 ^ format.precision : ℤ) : ℚ) * 2 ^ e =
        sign * 2 ^ (e + format.precision) := by
      rw [zpow_add₀ (by norm_num), zpow_natCast]
      push_cast
      ring
    rw [hshift]
    refine round_of_lt ?_ (by omega)
    rw [hsign]
    exact one_lt_pow₀ (by norm_num) format.precision_pos.ne'

/-- A power of two that bounds a number bounds it after rounding. -/
theorem abs_round_le {e : ℤ} (he : format.minExponent ≤ e) (h : |x| ≤ 2 ^ e) :
    |format.round x| ≤ 2 ^ e := by
  rcases eq_or_ne x 0 with rfl | hne
  · rw [round_zero]
    exact h
  · have hlog : Int.log 2 |x| ≤ e := by
      refine Int.lt_add_one_iff.mp ((Int.lt_zpow_iff_log_lt (by norm_num) (abs_pos.mpr hne)).mp ?_)
      exact h.trans_lt (zpow_lt_zpow_right₀ (by norm_num) (lt_add_one e))
    have hplace : format.lastPlace x ≤ e := by
      have hprecision := format.precision_pos
      unfold lastPlace
      omega
    obtain ⟨k, hk⟩ := Int.le.dest hplace
    have hpower : (0 : ℚ) < 2 ^ format.lastPlace x := zpow_pos two_pos _
    have hsplit : (2 : ℚ) ^ e = 2 ^ k * 2 ^ format.lastPlace x := by
      rw [← zpow_natCast, ← zpow_add₀ (by norm_num), add_comm, hk]
    have hquotient : |x / 2 ^ format.lastPlace x| ≤ ((2 ^ k : ℤ) : ℚ) := by
      rw [abs_div, abs_of_pos hpower, div_le_iff₀ hpower]
      push_cast
      rwa [← hsplit]
    have hrounded : |(roundEven (x / 2 ^ format.lastPlace x) : ℚ)| ≤ 2 ^ k := by
      exact_mod_cast abs_roundEven_le hquotient
    rw [round, abs_mul, abs_of_pos hpower, hsplit]
    exact mul_le_mul_of_nonneg_right hrounded hpower.le

/-- Rounding twice is rounding once. -/
theorem round_round (x : ℚ) : format.round (format.round x) = format.round x :=
  (representable_round x).round_eq

end FloatFormat

end RobotController.Foundation
