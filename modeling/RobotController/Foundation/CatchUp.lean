/-
  Foundation/CatchUp.lean --- falling behind and catching up.

  A sequence of tasks runs against a timetable.  Each task takes some `excess` over the
  time allotted to it, possibly negative.  Whoever is late starts the next task at once;
  whoever is early waits.  The lateness at a task is then the largest excess that has
  accumulated over the tasks immediately before it.
-/
import Mathlib.Algebra.Order.BigOperators.Group.Finset
import Mathlib.Algebra.BigOperators.Intervals
import Mathlib.Order.Interval.Finset.Nat

set_option autoImplicit false

namespace RobotController.Foundation

variable {α : Type} [AddCommGroup α] [LinearOrder α] {first : α} {excess : Nat → α}

/-- The lateness at task `k`, when the first task starts late by `first`. -/
def lateness (first : α) (excess : Nat → α) : Nat → α
  | 0 => first
  | k + 1 => max 0 (lateness first excess k + excess k)

theorem lateness_nonneg (h : 0 ≤ first) (k : Nat) : 0 ≤ lateness first excess k := by
  cases k with
  | zero => exact h
  | succ k => exact le_max_left _ _

variable [IsOrderedAddMonoid α]

/-- Who starts on time is late by the largest sum of consecutive excesses up to now. -/
theorem isGreatest_lateness (excess : Nat → α) (k : Nat) :
    IsGreatest {d | ∃ j ≤ k, d = ∑ i ∈ Finset.Ico j k, excess i} (lateness 0 excess k) := by
  induction k with
  | zero =>
      refine ⟨⟨0, le_rfl, by rw [Finset.Ico_self, Finset.sum_empty]; rfl⟩, ?_⟩
      intro d hd
      obtain ⟨j, -, rfl⟩ := hd
      rw [Finset.Ico_eq_empty (by omega), Finset.sum_empty]
      rfl
  | succ k ih =>
      obtain ⟨⟨j, hj, hsum⟩, hupper⟩ := ih
      refine ⟨?_, ?_⟩
      · rcases le_total (lateness 0 excess k + excess k) 0 with hearly | hlate
        · refine ⟨k + 1, le_rfl, ?_⟩
          rw [Finset.Ico_self, Finset.sum_empty]
          exact max_eq_left hearly
        · refine ⟨j, by omega, ?_⟩
          rw [Finset.sum_Ico_succ_top hj, ← hsum]
          exact max_eq_right hlate
      · intro d hd
        obtain ⟨i, hi, rfl⟩ := hd
        rcases hi.lt_or_eq with hlt | rfl
        · have hle : i ≤ k := by omega
          rw [Finset.sum_Ico_succ_top hle]
          have hbefore := add_le_add_left (hupper ⟨i, hle, rfl⟩) (excess k)
          exact hbefore.trans (le_max_right _ _)
        · rw [Finset.Ico_self, Finset.sum_empty]
          exact le_max_left _ _

/-- Who gains at least `r` with every task from the `m`-th on has caught up when the
lateness at the `m`-th is used up. -/
theorem lateness_le (hfirst : 0 ≤ first) {m : Nat} {r : α} (h : ∀ i, m ≤ i → excess i ≤ -r)
    {k : Nat} (hk : m ≤ k) :
    lateness first excess k ≤ max 0 (lateness first excess m - (k - m) • r) := by
  obtain ⟨n, rfl⟩ := Nat.exists_eq_add_of_le hk
  rw [Nat.add_sub_cancel_left]
  have hm : 0 ≤ lateness first excess m := lateness_nonneg hfirst m
  clear hk
  induction n with
  | zero =>
      rw [zero_nsmul, sub_zero]
      exact le_max_right _ _
  | succ n ih =>
      refine max_le (le_max_left _ _) ?_
      have hgain := add_le_add ih (h (m + n) (Nat.le_add_right m n))
      refine hgain.trans ?_
      rw [max_add, zero_add, ← sub_eq_add_neg, sub_sub, ← succ_nsmul]
      refine max_le ?_ (le_max_right _ _)
      -- Who loses time was late from the `m`-th task on.
      rcases le_total 0 r with hgains | hloses
      · exact (neg_nonpos.mpr hgains).trans (le_max_left _ _)
      · have hlost : n • r ≤ 0 := nsmul_nonpos hloses n
        refine le_trans ?_ (le_max_right _ _)
        rw [succ_nsmul, ← sub_sub, sub_eq_add_neg]
        exact le_add_of_nonneg_left (sub_nonneg.mpr (hlost.trans hm))

end RobotController.Foundation
