/-
  Foundation/Truncation.lean --- discarding the fraction.

  The conversion of a number to an integer rounds towards zero.  It is odd and monotone,
  and what it takes away is less than one.
-/
import RobotController.Foundation.Double
import Mathlib.Algebra.Order.Group.Abs

set_option autoImplicit false

namespace RobotController.Foundation

section Exact

variable {K : Type} [Field K] [LinearOrder K] [FloorRing K] {x y : K} {n : ℤ}

/-- The number without its fraction. -/
def towardZero (x : K) : ℤ := if 0 ≤ x then ⌊x⌋ else ⌈x⌉

theorem truncate_exact (x : K) : truncate x = some (towardZero x) := rfl

theorem towardZero_of_nonneg (h : 0 ≤ x) : towardZero x = ⌊x⌋ := if_pos h

theorem towardZero_nonneg (h : 0 ≤ x) : 0 ≤ towardZero x := by
  rw [towardZero_of_nonneg h]
  exact Int.floor_nonneg.mpr h

variable [IsStrictOrderedRing K]

@[simp] theorem towardZero_intCast (n : ℤ) : towardZero (n : K) = n := by
  unfold towardZero
  split_ifs
  · exact Int.floor_intCast n
  · exact Int.ceil_intCast n

/-- Truncation is odd. -/
theorem towardZero_neg (x : K) : towardZero (-x) = -towardZero x := by
  unfold towardZero
  rcases lt_trichotomy x 0 with hneg | rfl | hpos
  · rw [if_pos (neg_nonneg.mpr hneg.le), if_neg (not_le.mpr hneg), Int.floor_neg]
  · simp
  · rw [if_neg (by simpa using hpos), if_pos hpos.le, Int.ceil_neg]

theorem towardZero_nonpos (h : x ≤ 0) : towardZero x ≤ 0 := by
  have hneg := towardZero_nonneg (neg_nonneg.mpr h)
  rw [towardZero_neg] at hneg
  omega

/-- Truncation is monotone. -/
theorem towardZero_mono (h : x ≤ y) : towardZero x ≤ towardZero y := by
  rcases le_total 0 x with hx | hx
  · rw [towardZero_of_nonneg hx, towardZero_of_nonneg (hx.trans h)]
    exact Int.floor_le_floor h
  · rcases le_total 0 y with hy | hy
    · exact (towardZero_nonpos hx).trans (towardZero_nonneg hy)
    · have hmirror : towardZero (-y) ≤ towardZero (-x) := by
        rw [towardZero_of_nonneg (neg_nonneg.mpr hy), towardZero_of_nonneg (neg_nonneg.mpr hx)]
        exact Int.floor_le_floor (neg_le_neg h)
      rw [towardZero_neg, towardZero_neg] at hmirror
      omega

/-- Truncation takes away less than one, and never goes beyond. -/
theorem abs_towardZero (x : K) :
    |x| - 1 < |(towardZero x : K)| ∧ |(towardZero x : K)| ≤ |x| := by
  have hnonneg : ∀ {z : K}, 0 ≤ z →
      |z| - 1 < |(towardZero z : K)| ∧ |(towardZero z : K)| ≤ |z| := by
    intro z hz
    have hcast : (0 : K) ≤ towardZero z := Int.cast_nonneg (towardZero_nonneg hz)
    rw [abs_of_nonneg hz, abs_of_nonneg hcast, towardZero_of_nonneg hz]
    exact ⟨Int.sub_one_lt_floor z, Int.floor_le z⟩
  rcases le_total 0 x with hx | hx
  · exact hnonneg hx
  · have hmirror := hnonneg (neg_nonneg.mpr hx)
    rwa [towardZero_neg, Int.cast_neg, abs_neg, abs_neg] at hmirror

end Exact

/-! ## Words of 32 bits -/

/-- When the conversion to `std::int32_t` is defined. -/
theorem toInt32_eq_some_iff {R : Type} [IntConversion R] {x : R} {word : BitVec 32} :
    toInt32 x = some word ↔ truncate x = some word.toInt := by
  unfold toInt32
  rw [Option.bind_eq_some_iff]
  constructor
  · rintro ⟨n, hn, hword⟩
    split_ifs at hword with hrange
    obtain rfl := Option.some.inj hword
    rw [hn, BitVec.toInt_ofInt_eq_self (by decide) (by omega) (by omega)]
  · intro h
    refine ⟨_, h, ?_⟩
    have hlow := word.le_toInt
    have hhigh := word.toInt_lt
    rw [if_pos (by omega), BitVec.ofInt_toInt]

/-- A truncated value that fits is converted. -/
theorem exists_toInt32 {R : Type} [IntConversion R] {x : R} {n : ℤ} (h : truncate x = some n)
    (hlow : -2 ^ 31 ≤ n) (hhigh : n < 2 ^ 31) :
    ∃ word : BitVec 32, toInt32 x = some word ∧ word.toInt = n := by
  have hn : (BitVec.ofInt 32 n).toInt = n :=
    BitVec.toInt_ofInt_eq_self (by decide) (by omega) (by omega)
  refine ⟨BitVec.ofInt 32 n, ?_, hn⟩
  rw [toInt32_eq_some_iff, hn]
  exact h

end RobotController.Foundation
