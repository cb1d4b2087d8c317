/-
  Foundation/Double.lean --- the arithmetic the sources ask of `double`.

  Every numeric definition of the model is written once, over an arbitrary type
  with the operations below, so that the same translated text can be read in
  exact arithmetic (any linearly ordered field: `ℚ` to compute, `ℝ` to
  integrate) and in arithmetics with special values.
-/
import Mathlib.Algebra.Order.Field.Basic
import Mathlib.Algebra.Order.Floor.Ring
import Mathlib.Algebra.Order.Ring.Rat
import Mathlib.Data.Rat.Cast.Order
import Mathlib.Tactic.Linarith

set_option autoImplicit false

namespace RobotController.Foundation

/-- The operations a C++ program applies to `double`.  The comparisons are the
ordered ones: in an arithmetic with NaN they are false on it. -/
class Double (R : Type) extends Zero R, Add R, Sub R, Neg R, Mul R, Div R, LT R, LE R where
  /-- The value of a literal, given by the decimal fraction it denotes. -/
  literal : ℚ → R
  /-- `std::isfinite`. -/
  isFinite : R → Bool
  [decidableLt : DecidableLT R]
  [decidableLe : DecidableLE R]
  [decidableEq : DecidableEq R]

attribute [reducible, instance] Double.decidableLt Double.decidableLe Double.decidableEq

export Double (literal isFinite)

/-- Exact arithmetic: every linearly ordered field, where every value is
finite. -/
instance (priority := 100) Double.exact {K : Type} [Field K] [LinearOrder K] : Double K where
  literal q := (q : K)
  isFinite _ := true

section Exact

variable {K : Type} [Field K] [LinearOrder K]

@[simp] theorem literal_exact (q : ℚ) : (literal q : K) = (q : K) := rfl

@[simp] theorem isFinite_exact (x : K) : isFinite x = true := rfl

end Exact

/-! ## `std::clamp` -/

/-- `std::clamp(v, lo, hi)`, compared in the order the standard prescribes. -/
def stdClamp {R : Type} [Double R] (v lo hi : R) : R :=
  if v < lo then lo else if hi < v then hi else v

section Clamp

variable {K : Type} [Field K] [LinearOrder K] {v lo hi : K}

theorem stdClamp_eq_max_min (h : lo ≤ hi) : stdClamp v lo hi = max lo (min v hi) := by
  unfold stdClamp
  split_ifs with hlo hhi
  · rw [min_eq_left (hlo.le.trans h), max_eq_left hlo.le]
  · rw [min_eq_right hhi.le, max_eq_right h]
  · rw [min_eq_left (not_lt.mp hhi), max_eq_right (not_lt.mp hlo)]

theorem le_stdClamp (h : lo ≤ hi) : lo ≤ stdClamp v lo hi := by
  rw [stdClamp_eq_max_min h]
  exact le_max_left _ _

theorem stdClamp_le (h : lo ≤ hi) : stdClamp v lo hi ≤ hi := by
  rw [stdClamp_eq_max_min h]
  exact max_le h (min_le_right _ _)

/-- Clamping leaves a value between the limits as it is. -/
theorem stdClamp_of_mem (hlo : lo ≤ v) (hhi : v ≤ hi) : stdClamp v lo hi = v := by
  unfold stdClamp
  rw [if_neg (not_lt.mpr hlo), if_neg (not_lt.mpr hhi)]

end Clamp

/-! ## Conversions -/

/-- `static_cast` between `double` and the integers. -/
class IntConversion (R : Type) where
  /-- The value of an integer of at most 32 bits. -/
  ofInt : Int → R
  /-- The integer nearest to a value among those not beyond it: the fraction is
  discarded.  A value that is not finite has none. -/
  truncate : R → Option Int

export IntConversion (ofInt truncate)

instance (priority := 100) IntConversion.exact {K : Type} [Field K] [LinearOrder K]
    [FloorRing K] : IntConversion K where
  ofInt n := (n : K)
  truncate x := some (if 0 ≤ x then ⌊x⌋ else ⌈x⌉)

/-- `static_cast<std::int32_t>(x)`: undefined unless the truncated value fits. -/
def toInt32 {R : Type} [IntConversion R] (x : R) : Option (BitVec 32) :=
  (truncate x).bind fun n =>
    if -2 ^ 31 ≤ n ∧ n < 2 ^ 31 then some (BitVec.ofInt 32 n) else none

/-- `static_cast<double>(n)`, `n` an `std::int32_t`. -/
def ofInt32 {R : Type} [IntConversion R] (n : BitVec 32) : R := ofInt n.toInt

end RobotController.Foundation
