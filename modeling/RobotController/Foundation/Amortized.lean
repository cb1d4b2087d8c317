/-
  Foundation/Amortized.lean --- executions that pay for their steps.

  Some steps bring credit and others spend it.  If no step spends what it does not have,
  an execution has no more spending steps than it was brought credit for; in particular,
  when no credit comes in any more, it stops, and where it stops no step that spends is
  possible.
-/
import RobotController.Foundation.Execution
import Mathlib

set_option autoImplicit false

namespace RobotController.Foundation

variable {σ α : Type}

/-- A state may hold so much credit; a step adds what it brings, and at least what it
spends is gone. -/
def Amortizes (Step : σ → α → σ → Prop) (Credit : σ → Nat → Prop) (brings spends : α → Nat) :
    Prop :=
  ∀ s a t k, Credit s k → Step s a t → ∃ k', Credit t k' ∧ k' + spends a ≤ k + brings a

namespace Amortizes

variable {Step : σ → α → σ → Prop} {Credit : σ → Nat → Prop} {brings spends : α → Nat}
  {s t : σ} {trace : List α} {k : Nat}

/-- What an execution spends it had or was brought. -/
theorem execution (h : Amortizes Step Credit brings spends) (hexec : Execution Step s trace t) :
    ∀ {k}, Credit s k → ∃ k', Credit t k' ∧
      k' + (trace.map spends).sum ≤ k + (trace.map brings).sum := by
  induction hexec with
  | refl _ => exact fun hcredit => ⟨_, hcredit, le_rfl⟩
  | cons hstep _ ih =>
      intro k hcredit
      obtain ⟨k₁, hcredit₁, hle₁⟩ := h _ _ _ _ hcredit hstep
      obtain ⟨k₂, hcredit₂, hle₂⟩ := ih hcredit₁
      refine ⟨k₂, hcredit₂, ?_⟩
      simp only [List.map_cons, List.sum_cons]
      omega

/-- Steps that spend and bring nothing can be taken until none is possible. -/
theorem exists_rest (h : Amortizes Step Credit brings spends) {Internal : α → Prop}
    (hinternal : ∀ a, Internal a → brings a = 0 ∧ 0 < spends a) (hcredit : Credit s k) :
    ∃ trace t, Execution Step s trace t ∧ (∀ a ∈ trace, Internal a) ∧ trace.length ≤ k ∧
      ∀ a u, Internal a → ¬ Step t a u := by
  induction k using Nat.strong_induction_on generalizing s with
  | _ k ih =>
      by_cases hrest : ∀ a u, Internal a → ¬ Step s a u
      · exact ⟨[], s, .refl s, by simp, Nat.zero_le _, hrest⟩
      · push Not at hrest
        obtain ⟨a, u, ha, hstep⟩ := hrest
        obtain ⟨hbrings, hspends⟩ := hinternal a ha
        obtain ⟨k', hcredit', hle⟩ := h _ _ _ _ hcredit hstep
        obtain ⟨trace, t, hexec, hall, hlength, hstuck⟩ := ih k' (by omega) hcredit'
        refine ⟨a :: trace, t, .cons hstep hexec, ?_, ?_, hstuck⟩
        · rw [List.forall_mem_cons]
          exact ⟨ha, hall⟩
        · rw [List.length_cons]
          omega

end Amortizes

/-- Where a step spends one unit or nothing, what is spent is the number of steps that
spend. -/
theorem sum_map_ite (p : α → Bool) (trace : List α) :
    (trace.map fun a => if p a then 1 else 0).sum = trace.countP p := by
  induction trace with
  | nil => rfl
  | cons a rest ih => rw [List.map_cons, List.sum_cons, List.countP_cons, ih, Nat.add_comm]

end RobotController.Foundation
