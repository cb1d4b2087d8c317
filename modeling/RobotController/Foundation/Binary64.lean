/-
  Foundation/Binary64.lean --- `double` with its rounding.

  The numbers of the IEEE 754 binary64 format, with infinities and NaN.  An operation
  yields the exact result rounded to nearest, ties to even; a result beyond the
  largest number is an infinity.  Zeros have no sign.
-/
import RobotController.Foundation.Extended
import RobotController.Foundation.RoundToNearest

set_option autoImplicit false

namespace RobotController.Foundation

namespace FloatFormat

/-- Rounding with overflow to the infinities. -/
def roundExtended (format : FloatFormat) : Extended → Extended
  | .fin q =>
      if 2 ^ format.maxExponent ≤ |format.round q| then Extended.infinity q
      else .fin (format.round q)
  | special => special

section Extended

variable {format : FloatFormat} {q : ℚ}

theorem roundExtended_infinity (q : ℚ) :
    format.roundExtended (Extended.infinity q) = Extended.infinity q := by
  unfold Extended.infinity
  split_ifs <;> rfl

theorem roundExtended_fin (h : |format.round q| < 2 ^ format.maxExponent) :
    format.roundExtended (.fin q) = .fin (format.round q) :=
  if_neg (not_le.mpr h)

theorem roundExtended_roundExtended (x : Extended) :
    format.roundExtended (format.roundExtended x) = format.roundExtended x := by
  cases x with
  | fin q =>
      by_cases h : 2 ^ format.maxExponent ≤ |format.round q|
      · have hround : format.roundExtended (.fin q) = Extended.infinity q := if_pos h
        rw [hround, roundExtended_infinity]
      · have hlt := not_le.mp h
        rw [roundExtended_fin hlt, roundExtended_fin (by rwa [round_round]), round_round]
  | nan => rfl
  | negInf => rfl
  | posInf => rfl

end Extended

/-- The format of `double`. -/
def binary64 : FloatFormat where
  precision := 53
  minExponent := -1074
  maxExponent := 1024
  precision_pos := by decide

end FloatFormat

/-! ## Values and operations -/

/-- A `double`: a number of the format, an infinity, or NaN. -/
@[ext] structure Binary64 where
  value : Extended
  rounded : FloatFormat.binary64.roundExtended value = value
  deriving DecidableEq

namespace Binary64

/-- The `double` nearest to an exact result. -/
def ofExtended (exact : Extended) : Binary64 :=
  ⟨FloatFormat.binary64.roundExtended exact, FloatFormat.roundExtended_roundExtended exact⟩

instance : Double Binary64 where
  zero := ofExtended 0
  add x y := ofExtended (x.value + y.value)
  sub x y := ofExtended (x.value - y.value)
  neg x := ofExtended (-x.value)
  mul x y := ofExtended (x.value * y.value)
  div x y := ofExtended (x.value / y.value)
  lt x y := x.value < y.value
  le x y := x.value ≤ y.value
  literal q := ofExtended (.fin q)
  isFinite x := isFinite x.value
  decidableLt x y := inferInstanceAs (Decidable (x.value < y.value))
  decidableLe x y := inferInstanceAs (Decidable (x.value ≤ y.value))
  decidableEq := inferInstanceAs (DecidableEq Binary64)

instance : IntConversion Binary64 where
  ofInt n := ofExtended (.fin n)
  truncate x :=
    match x.value with
    | .fin q => truncate q
    | _ => none

/-! ## Numbers far from overflow -/

section Finite

variable {x y : Binary64} {a b : ℚ}

/-- A number of at most `2 ^ 1023` is rounded to a number. -/
theorem value_ofExtended (h : |a| ≤ 2 ^ 1023) :
    (ofExtended (.fin a)).value = .fin (FloatFormat.binary64.round a) := by
  refine FloatFormat.roundExtended_fin ?_
  have hround : |FloatFormat.binary64.round a| ≤ 2 ^ (1023 : ℤ) :=
    FloatFormat.abs_round_le (by decide) (by exact_mod_cast h)
  refine hround.trans_lt ?_
  exact zpow_lt_zpow_right₀ (by norm_num) (by decide)

theorem value_mul (hx : x.value = .fin a) (hy : y.value = .fin b) (h : |a * b| ≤ 2 ^ 1023) :
    (x * y).value = .fin (FloatFormat.binary64.round (a * b)) := by
  have hexact : x.value * y.value = .fin (a * b) := by rw [hx, hy, Extended.fin_mul]
  change (ofExtended (x.value * y.value)).value = _
  rw [hexact, value_ofExtended h]

theorem value_div (hx : x.value = .fin a) (hy : y.value = .fin b) (hb : b ≠ 0)
    (h : |a / b| ≤ 2 ^ 1023) :
    (x / y).value = .fin (FloatFormat.binary64.round (a / b)) := by
  have hexact : x.value / y.value = .fin (a / b) := by rw [hx, hy, Extended.fin_div hb]
  change (ofExtended (x.value / y.value)).value = _
  rw [hexact, value_ofExtended h]

/-- Integers of 53 bits are exact. -/
theorem round_intCast {n : ℤ} (h : |n| ≤ 2 ^ 53) : FloatFormat.binary64.round n = n := by
  refine FloatFormat.Representable.round_eq ⟨n, 0, by simp, h, by decide⟩

theorem value_ofInt {n : ℤ} (h : |n| ≤ 2 ^ 53) : (ofInt n : Binary64).value = .fin n := by
  have hbound : |(n : ℚ)| ≤ 2 ^ 1023 := by
    calc |(n : ℚ)| ≤ 2 ^ 53 := by exact_mod_cast h
      _ ≤ 2 ^ 1023 := pow_le_pow_right₀ (by norm_num) (by norm_num)
  change (ofExtended (.fin n)).value = _
  rw [value_ofExtended hbound, round_intCast h]

theorem value_literal_intCast {n : ℤ} (h : |n| ≤ 2 ^ 53) :
    (literal (n : ℚ) : Binary64).value = .fin n :=
  value_ofInt h

theorem truncate_eq (hx : x.value = .fin a) : truncate x = truncate a := by
  simp only [truncate, hx]

end Finite

end Binary64

end RobotController.Foundation
