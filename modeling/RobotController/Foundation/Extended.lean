/-
  Foundation/Extended.lean --- numbers with infinities and NaN.

  The rationals extended by the special values of floating-point arithmetic, with the
  rules of IEEE 754 for them: an operation without a meaning yields NaN, NaN is carried
  on, and every comparison with it is false.  Finite values are exact, and zeros have no
  sign: dividing by zero divides by a positive zero.
-/
import RobotController.Foundation.Double

set_option autoImplicit false

namespace RobotController.Foundation

/-- A rational, an infinity, or NaN. -/
inductive Extended where
  | nan
  | negInf
  | posInf
  | fin (q : ℚ)
  deriving DecidableEq, Repr

namespace Extended

/-! ## Operations -/

/-- The infinity with the sign of a rational; zero has none. -/
def infinity (q : ℚ) : Extended :=
  if q = 0 then nan else if 0 < q then posInf else negInf

def neg : Extended → Extended
  | nan => nan
  | negInf => posInf
  | posInf => negInf
  | fin a => fin (-a)

def add : Extended → Extended → Extended
  | nan, _ => nan
  | _, nan => nan
  | posInf, negInf => nan
  | negInf, posInf => nan
  | posInf, _ => posInf
  | _, posInf => posInf
  | negInf, _ => negInf
  | _, negInf => negInf
  | fin a, fin b => fin (a + b)

def mul : Extended → Extended → Extended
  | nan, _ => nan
  | _, nan => nan
  | posInf, posInf => posInf
  | negInf, negInf => posInf
  | posInf, negInf => negInf
  | negInf, posInf => negInf
  | posInf, fin a => infinity a
  | fin a, posInf => infinity a
  | negInf, fin a => infinity (-a)
  | fin a, negInf => infinity (-a)
  | fin a, fin b => fin (a * b)

def div : Extended → Extended → Extended
  | nan, _ => nan
  | _, nan => nan
  | posInf, fin b => if b < 0 then negInf else posInf
  | negInf, fin b => if b < 0 then posInf else negInf
  | fin _, posInf => fin 0
  | fin _, negInf => fin 0
  | fin a, fin b => if b = 0 then infinity a else fin (a / b)
  | _, _ => nan

def lt : Extended → Extended → Bool
  | fin a, fin b => decide (a < b)
  | negInf, fin _ => true
  | negInf, posInf => true
  | fin _, posInf => true
  | _, _ => false

def le : Extended → Extended → Bool
  | nan, _ => false
  | _, nan => false
  | negInf, _ => true
  | _, posInf => true
  | fin a, fin b => decide (a ≤ b)
  | _, _ => false

/-- `std::isfinite`. -/
def finite : Extended → Bool
  | fin _ => true
  | _ => false

instance : Double Extended where
  zero := fin 0
  add := add
  sub x y := add x (neg y)
  neg := neg
  mul := mul
  div := div
  lt x y := lt x y = true
  le x y := le x y = true
  literal := fin
  isFinite := finite
  decidableLt x y := inferInstanceAs (Decidable (lt x y = true))
  decidableLe x y := inferInstanceAs (Decidable (le x y = true))
  decidableEq := inferInstanceAs (DecidableEq Extended)

/-! ## Finite values -/

section Finite

variable {a b : ℚ}

@[simp] theorem zero_eq : (0 : Extended) = fin 0 := rfl

@[simp] theorem literal_eq (q : ℚ) : (literal q : Extended) = fin q := rfl

@[simp] theorem fin_add : fin a + fin b = fin (a + b) := rfl

@[simp] theorem fin_sub : fin a - fin b = fin (a - b) :=
  congrArg fin (sub_eq_add_neg a b).symm

@[simp] theorem fin_neg : -fin a = fin (-a) := rfl

@[simp] theorem fin_mul : fin a * fin b = fin (a * b) := rfl

theorem fin_div (hb : b ≠ 0) : fin a / fin b = fin (a / b) := if_neg hb

@[simp] theorem fin_lt : fin a < fin b ↔ a < b := decide_eq_true_iff

@[simp] theorem fin_le : fin a ≤ fin b ↔ a ≤ b := decide_eq_true_iff

@[simp] theorem isFinite_fin : isFinite (fin a) = true := rfl

theorem isFinite_iff {x : Extended} : isFinite x = true ↔ ∃ q, x = fin q := by
  cases x with
  | fin q => exact ⟨fun _ => ⟨q, rfl⟩, fun _ => rfl⟩
  | nan => exact ⟨fun h => absurd h Bool.false_ne_true, fun ⟨_, h⟩ => by cases h⟩
  | negInf => exact ⟨fun h => absurd h Bool.false_ne_true, fun ⟨_, h⟩ => by cases h⟩
  | posInf => exact ⟨fun h => absurd h Bool.false_ne_true, fun ⟨_, h⟩ => by cases h⟩

end Finite

/-! ## Special values -/

section Special

variable {x : Extended} {a : ℚ}

@[simp] theorem not_nan_lt : ¬ nan < x := Bool.false_ne_true

@[simp] theorem not_lt_nan : ¬ x < nan := by
  cases x <;> exact Bool.false_ne_true

@[simp] theorem not_nan_le : ¬ nan ≤ x := Bool.false_ne_true

@[simp] theorem not_le_nan : ¬ x ≤ nan := by
  cases x <;> exact Bool.false_ne_true

@[simp] theorem nan_add : nan + x = nan := rfl

@[simp] theorem add_nan : x + nan = nan := by
  cases x <;> rfl

@[simp] theorem nan_mul : nan * x = nan := rfl

@[simp] theorem mul_nan : x * nan = nan := by
  cases x <;> rfl

@[simp] theorem nan_sub : nan - x = nan := rfl

@[simp] theorem isFinite_nan : isFinite nan = false := rfl

@[simp] theorem isFinite_posInf : isFinite posInf = false := rfl

@[simp] theorem isFinite_negInf : isFinite negInf = false := rfl

@[simp] theorem fin_lt_posInf : fin a < posInf := rfl

@[simp] theorem negInf_lt_fin : negInf < fin a := rfl

@[simp] theorem fin_le_posInf : fin a ≤ posInf := rfl

@[simp] theorem negInf_le_fin : negInf ≤ fin a := rfl

@[simp] theorem not_posInf_lt : ¬ posInf < x := by
  cases x <;> exact Bool.false_ne_true

@[simp] theorem not_lt_negInf : ¬ x < negInf := by
  cases x <;> exact Bool.false_ne_true

@[simp] theorem not_posInf_le_fin : ¬ posInf ≤ fin a := Bool.false_ne_true

@[simp] theorem not_fin_le_negInf : ¬ fin a ≤ negInf := Bool.false_ne_true

@[simp] theorem fin_add_posInf : fin a + posInf = posInf := rfl

@[simp] theorem fin_add_negInf : fin a + negInf = negInf := rfl

@[simp] theorem posInf_sub_fin : posInf - fin a = posInf := rfl

@[simp] theorem negInf_sub_fin : negInf - fin a = negInf := rfl

theorem fin_mul_posInf : fin a * posInf = infinity a := rfl

theorem infinity_of_pos (h : 0 < a) : infinity a = posInf := by
  rw [infinity, if_neg h.ne', if_pos h]

theorem infinity_of_neg (h : a < 0) : infinity a = negInf := by
  rw [infinity, if_neg h.ne, if_neg h.le.not_gt]

@[simp] theorem infinity_zero : infinity 0 = nan := if_pos rfl

end Special

/-! ## Clamping -/

theorem stdClamp_nan (lo hi : Extended) : stdClamp nan lo hi = nan := by
  simp [stdClamp]

theorem stdClamp_fin (v lo hi : ℚ) :
    stdClamp (fin v) (fin lo) (fin hi) = fin (stdClamp v lo hi) := by
  simp only [stdClamp, fin_lt]
  split_ifs <;> rfl

end Extended

end RobotController.Foundation
