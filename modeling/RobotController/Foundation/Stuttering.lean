/-
  Foundation/Stuttering.lean --- refinement up to stuttering.

  A machine with more to it than another refines it when each of its steps is one of the
  other's, seen through an abstraction of the states, or leaves the abstraction as it is.
  An execution of the one is then an execution of the other, by the events that have one.
-/
import RobotController.Foundation.Execution

set_option autoImplicit false

namespace RobotController.Foundation

variable {σ ρ α β : Type}

/-- Under an invariant of the concrete machine, its steps are abstract steps or none. -/
structure Refines (Step : σ → α → σ → Prop) (Step' : ρ → β → ρ → Prop) (Inv : σ → Prop)
    (view : σ → ρ) (event : α → Option β) : Prop where
  keeps : ∀ s a t, Inv s → Step s a t → Inv t
  visible : ∀ s a t b, Inv s → Step s a t → event a = some b → Step' (view s) b (view t)
  silent : ∀ s a t, Inv s → Step s a t → event a = none → view t = view s

namespace Refines

variable {Step : σ → α → σ → Prop} {Step' : ρ → β → ρ → Prop} {Inv : σ → Prop} {view : σ → ρ}
  {event : α → Option β} {s t : σ} {trace : List α}

/-- Executions refine executions. -/
theorem execution (h : Refines Step Step' Inv view event) (hexec : Execution Step s trace t)
    (hs : Inv s) : Inv t ∧ Execution Step' (view s) (trace.filterMap event) (view t) := by
  induction hexec with
  | refl s => exact ⟨hs, .refl _⟩
  | @cons s mid t a rest hstep _ ih =>
      obtain ⟨ht, hrest⟩ := ih (h.keeps s a mid hs hstep)
      refine ⟨ht, ?_⟩
      cases hevent : event a with
      | none =>
          rw [List.filterMap_cons_none hevent, ← h.silent s a mid hs hstep hevent]
          exact hrest
      | some b =>
          rw [List.filterMap_cons_some hevent]
          exact .cons (h.visible s a mid b hs hstep hevent) hrest

end Refines

end RobotController.Foundation
