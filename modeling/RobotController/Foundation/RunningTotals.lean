/-
  Foundation/RunningTotals.lean --- what is accumulated along a sequence.

  A counter, an extremum, the length of the longest block and the number of changes are
  kept up to date one member at a time.  Here each is described by the members seen so
  far, and one more member is added to the description.
-/
import Mathlib.Data.Nat.Count
import Mathlib.Order.Bounds.Basic
import Mathlib.Order.Interval.Set.Basic
import Mathlib.Tactic.Linarith

set_option autoImplicit false

namespace RobotController.Foundation

/-! ## Extrema -/

section Extrema

variable {α : Type} {f : Nat → α} {n : Nat} {a : α}

theorem image_Iio_succ (f : Nat → α) (n : Nat) :
    f '' Set.Iio (n + 1) = insert (f n) (f '' Set.Iio n) := by
  have hinsert : Set.Iio (n + 1) = insert n (Set.Iio n) := by
    rw [Set.Iio_insert]
    exact Set.ext fun i => Nat.lt_succ_iff
  rw [hinsert, Set.image_insert_eq]

variable [LinearOrder α]

theorem isLeast_first (f : Nat → α) : IsLeast (f '' Set.Iio 1) (f 0) := by
  have hone : f '' Set.Iio 1 = {f 0} := by
    rw [image_Iio_succ f 0]
    simp
  rw [hone]
  exact isLeast_singleton

/-- One more member, compared with the least so far. -/
theorem isLeast_succ (h : IsLeast (f '' Set.Iio n) a) :
    IsLeast (f '' Set.Iio (n + 1)) (if f n < a then f n else a) := by
  rw [image_Iio_succ]
  have hinsert := h.insert (f n)
  split_ifs with hlt
  · rwa [min_eq_left hlt.le] at hinsert
  · rwa [min_eq_right (not_lt.mp hlt)] at hinsert

/-- One more member, compared with the greatest so far; `b` is where the comparison began. -/
theorem isGreatest_succ {b : α} (h : IsGreatest (insert b (f '' Set.Iio n)) a) :
    IsGreatest (insert b (f '' Set.Iio (n + 1))) (if a < f n then f n else a) := by
  rw [image_Iio_succ, Set.insert_comm]
  have hinsert := h.insert (f n)
  split_ifs with hlt
  · rwa [max_eq_left hlt.le] at hinsert
  · rwa [max_eq_right (not_lt.mp hlt)] at hinsert

/-- Where no member is below `b`, the comparison may as well have begun with the first. -/
theorem isGreatest_of_insert {b : α} (h : IsGreatest (insert b (f '' Set.Iio (n + 1))) a)
    (hf : ∀ i < n + 1, b ≤ f i) : IsGreatest (f '' Set.Iio (n + 1)) a := by
  have hfirst : f 0 ∈ f '' Set.Iio (n + 1) := ⟨0, n.succ_pos, rfl⟩
  refine ⟨?_, fun x hx => h.2 (.inr hx)⟩
  rcases h.1 with hb | hmem
  · have hzero : a = f 0 := le_antisymm (hb ▸ hf 0 n.succ_pos) (h.2 (.inr hfirst))
    rw [hzero]
    exact hfirst
  · exact hmem

end Extrema

/-! ## Sums -/

/-- One member of a list replaced. -/
theorem sum_set {l : List Nat} {k x y : Nat} (h : l[k]? = some x) :
    (l.set k y).sum + x = l.sum + y := by
  induction l generalizing k with
  | nil => simp at h
  | cons head rest ih =>
      cases k with
      | zero =>
          obtain rfl : head = x := by simpa using h
          simp only [List.set_cons_zero, List.sum_cons]
          omega
      | succ k =>
          have hrest := ih (by simpa using h)
          simp only [List.set_cons_succ, List.sum_cons]
          omega

/-! ## Blocks -/

section Blocks

/-- Among the first `n` members, `m` consecutive ones have `P`. -/
def IsBlock (P : Nat → Prop) (n m : Nat) : Prop :=
  ∃ j, j + m ≤ n ∧ ∀ i, j ≤ i → i < j + m → P i

/-- The last `m` of the first `n` members have `P`. -/
def IsTrailing (P : Nat → Prop) (n m : Nat) : Prop :=
  m ≤ n ∧ ∀ i < n, n ≤ i + m → P i

variable {P : Nat → Prop} {n m : Nat}

theorem isBlock_zero : IsBlock P n 0 := ⟨0, Nat.zero_le n, fun _ _ hlt => absurd hlt (by omega)⟩

theorem isTrailing_zero : IsTrailing P n 0 := ⟨Nat.zero_le n, fun _ _ _ => by omega⟩

theorem IsTrailing.isBlock (h : IsTrailing P n m) : IsBlock P n m := by
  obtain ⟨hle, hall⟩ := h
  exact ⟨n - m, by omega, fun i _ _ => hall i (by omega) (by omega)⟩

/-- A block among one more member is one of before, or it ends with the new member. -/
theorem isBlock_succ : IsBlock P (n + 1) m ↔ IsBlock P n m ∨ IsTrailing P (n + 1) m := by
  constructor
  · intro h
    obtain ⟨j, hle, hall⟩ := h
    rcases Nat.lt_or_ge n (j + m) with hend | hend
    · exact .inr ⟨by omega, fun i _ _ => hall i (by omega) (by omega)⟩
    · exact .inl ⟨j, hend, hall⟩
  · intro h
    rcases h with ⟨j, hle, hall⟩ | htrailing
    · exact ⟨j, by omega, hall⟩
    · exact htrailing.isBlock

theorem isTrailing_succ (hP : P n) : IsTrailing P (n + 1) (m + 1) ↔ IsTrailing P n m := by
  constructor
  · intro h
    exact ⟨by have := h.1; omega, fun i _ _ => h.2 i (by omega) (by omega)⟩
  · intro h
    refine ⟨by have := h.1; omega, fun i hlt hle => ?_⟩
    rcases Nat.lt_or_ge i n with hbefore | hlast
    · exact h.2 i hbefore (by omega)
    · rwa [show i = n by omega]

/-- After `n` members the last `current` have `P`, and no block has been longer than
`longest`. -/
structure Blocks (P : Nat → Prop) (n current longest : Nat) : Prop where
  isTrailing_iff : ∀ m, IsTrailing P n m ↔ m ≤ current
  isGreatest : IsGreatest {m | IsBlock P n m} longest

theorem blocks_zero (P : Nat → Prop) : Blocks P 0 0 0 where
  isTrailing_iff m := ⟨fun h => h.1, fun h => by rw [Nat.le_zero.mp h]; exact isTrailing_zero⟩
  isGreatest := by
    refine ⟨isBlock_zero, ?_⟩
    intro m hm
    obtain ⟨j, hle, -⟩ := hm
    omega

variable {current longest : Nat}

/-- A member with `P` extends the current block. -/
theorem Blocks.extend (h : Blocks P n current longest) (hP : P n) :
    Blocks P (n + 1) (current + 1) (if longest < current + 1 then current + 1 else longest) := by
  have htrailing : ∀ m, IsTrailing P (n + 1) m ↔ m ≤ current + 1 := by
    intro m
    cases m with
    | zero => exact iff_of_true isTrailing_zero (Nat.zero_le _)
    | succ m => rw [isTrailing_succ hP, h.isTrailing_iff, Nat.succ_le_succ_iff]
  refine ⟨htrailing, ?_⟩
  have hunion : {m | IsBlock P (n + 1) m} = {m | IsBlock P n m} ∪ Set.Iic (current + 1) := by
    ext m
    rw [Set.mem_ofPred_eq, isBlock_succ, htrailing]
    rfl
  have hgreatest := h.isGreatest.union (isGreatest_Iic (a := current + 1))
  rw [hunion]
  split_ifs with hlt
  · rwa [max_eq_right hlt.le] at hgreatest
  · rwa [max_eq_left (not_lt.mp hlt)] at hgreatest

/-- A member without it ends the current block. -/
theorem Blocks.close (h : Blocks P n current longest) (hP : ¬ P n) :
    Blocks P (n + 1) 0 longest := by
  have htrailing : ∀ m, IsTrailing P (n + 1) m ↔ m ≤ 0 := by
    intro m
    cases m with
    | zero => exact iff_of_true isTrailing_zero le_rfl
    | succ m => exact iff_of_false (fun h => hP (h.2 n (by omega) (by omega))) (by omega)
  refine ⟨htrailing, ?_⟩
  have hsame : {m | IsBlock P (n + 1) m} = {m | IsBlock P n m} := by
    ext m
    rw [Set.mem_ofPred_eq, isBlock_succ, htrailing]
    refine or_iff_left_of_imp fun hm => ?_
    rw [Nat.le_zero.mp hm]
    exact isBlock_zero
  rw [hsame]
  exact h.isGreatest

end Blocks

/-! ## Changes -/

section Changes

variable {α : Type} [DecidableEq α]

/-- How often a member of the list differs from the one before it. -/
def changes : List α → Nat
  | a :: b :: rest => (if b ≠ a then 1 else 0) + changes (b :: rest)
  | _ => 0

/-- One more member is compared with the last. -/
theorem changes_concat (l : List α) (a b : α) :
    changes (l ++ [a] ++ [b]) = changes (l ++ [a]) + if b ≠ a then 1 else 0 := by
  induction l with
  | nil => exact Nat.add_comm _ _
  | cons c l ih =>
      cases l with
      | nil => exact (Nat.add_assoc _ _ _).symm
      | cons d l =>
          simp only [List.cons_append, changes] at ih ⊢
          rw [ih, Nat.add_assoc]

end Changes

end RobotController.Foundation
