/-
  Foundation/Execution.lean --- executions of labelled step relations.

  A concurrent program is a step relation: one step is one atomic action of one
  of its threads.  Every interleaving is an execution, so a property of all
  interleavings is an invariant of the relation.
-/
import Mathlib.Data.List.Basic

set_option autoImplicit false

namespace RobotController.Foundation

variable {σ α : Type}

/-- A finite execution: the steps taken, and the states they lead between. -/
inductive Execution (Step : σ → α → σ → Prop) : σ → List α → σ → Prop where
  | refl (s : σ) : Execution Step s [] s
  | cons {s t u : σ} {a : α} {trace : List α} :
      Step s a t → Execution Step t trace u → Execution Step s (a :: trace) u

namespace Execution

variable {Step : σ → α → σ → Prop} {s t u : σ} {a : α} {trace first second : List α}

theorem single (h : Step s a t) : Execution Step s [a] t := .cons h (.refl t)

/-- Executions compose. -/
theorem append (hfirst : Execution Step s first t) (hsecond : Execution Step t second u) :
    Execution Step s (first ++ second) u := by
  induction hfirst with
  | refl _ => exact hsecond
  | cons hstep _ ih => exact .cons hstep (ih hsecond)

/-- Extend an execution at its end. -/
theorem snoc (h : Execution Step s trace t) (hstep : Step t a u) :
    Execution Step s (trace ++ [a]) u :=
  h.append (single hstep)

/-- An execution of some of the steps is one of all. -/
theorem mono {Step' : σ → α → σ → Prop} (hstep : ∀ s a t, Step s a t → Step' s a t)
    (h : Execution Step s trace t) : Execution Step' s trace t := by
  induction h with
  | refl s => exact .refl s
  | cons hfirst _ ih => exact .cons (hstep _ _ _ hfirst) ih

/-- What every allowed step keeps, every execution of allowed steps keeps. -/
theorem keeps_of_forall {Keeps : σ → Prop} {Allowed : α → Prop}
    (hstep : ∀ s a t, Allowed a → Keeps s → Step s a t → Keeps t)
    (h : Execution Step s trace t) (hallowed : ∀ a ∈ trace, Allowed a) (hs : Keeps s) :
    Keeps t := by
  induction h with
  | refl _ => exact hs
  | cons hfirst _ ih =>
      rw [List.forall_mem_cons] at hallowed
      exact ih hallowed.2 (hstep _ _ _ hallowed.1 hs hfirst)

/-- What every step keeps, every execution keeps. -/
theorem keeps {Keeps : σ → Prop} (hstep : ∀ s a t, Keeps s → Step s a t → Keeps t)
    (h : Execution Step s trace t) (hs : Keeps s) : Keeps t :=
  h.keeps_of_forall (fun s a t (_ : True) => hstep s a t) (fun _ _ => trivial) hs

/-- A simulation of single steps is one of executions. -/
theorem simulate {ρ : Type} {Step' : ρ → α → ρ → Prop} {Related : σ → ρ → Prop}
    (hstep : ∀ s a t s', Related s s' → Step s a t → ∃ t', Step' s' a t' ∧ Related t t')
    (h : Execution Step s trace t) {s' : ρ} (hs : Related s s') :
    ∃ t', Execution Step' s' trace t' ∧ Related t t' := by
  induction h generalizing s' with
  | refl _ => exact ⟨s', .refl s', hs⟩
  | cons hfirst _ ih =>
      obtain ⟨mid', hmid, hrelated⟩ := hstep _ _ _ _ hs hfirst
      obtain ⟨t', hrest, ht⟩ := ih hrelated
      exact ⟨t', .cons hmid hrest, ht⟩

/-- A schedule that a step function can follow is an execution. -/
theorem of_schedule {next : σ → α → Option σ} (hnext : ∀ s a t, next s a = some t → Step s a t) :
    ∀ (trace : List α) {s t : σ}, trace.foldlM next s = some t → Execution Step s trace t := by
  intro trace
  induction trace with
  | nil =>
      intro s t h
      obtain rfl : s = t := by simpa using h
      exact .refl s
  | cons a rest ih =>
      intro s t h
      rw [List.foldlM_cons] at h
      obtain ⟨mid, hmid, hrest⟩ := Option.bind_eq_some_iff.mp h
      exact .cons (hnext s a mid hmid) (ih hrest)

end Execution

/-- The steps whose result satisfies `Guard`: executions of this relation are the
executions all of whose later states do. -/
def Within (Guard : σ → Prop) (Step : σ → α → σ → Prop) : σ → α → σ → Prop :=
  fun s a t => Step s a t ∧ Guard t

/-- A state some execution from an initial one reaches. -/
def Reachable (Initial : σ → Prop) (Step : σ → α → σ → Prop) (s : σ) : Prop :=
  ∃ start trace, Initial start ∧ Execution Step start trace s

namespace Reachable

variable {Initial : σ → Prop} {Step : σ → α → σ → Prop} {s t : σ} {a : α} {trace : List α}

theorem init (h : Initial s) : Reachable Initial Step s := ⟨s, [], h, .refl s⟩

theorem step (h : Reachable Initial Step s) (hstep : Step s a t) :
    Reachable Initial Step t := by
  obtain ⟨start, trace, hinit, hexec⟩ := h
  exact ⟨start, trace ++ [a], hinit, hexec.snoc hstep⟩

theorem execution (h : Reachable Initial Step s) (hexec : Execution Step s trace t) :
    Reachable Initial Step t := by
  obtain ⟨start, front, hinit, hfront⟩ := h
  exact ⟨start, front ++ trace, hinit, hfront.append hexec⟩

/-- The invariant rule. -/
theorem invariant (Inv : σ → Prop) (hinit : ∀ s, Initial s → Inv s)
    (hstep : ∀ s a t, Inv s → Step s a t → Inv t) (h : Reachable Initial Step s) : Inv s := by
  obtain ⟨start, trace, hstart, hexec⟩ := h
  exact hexec.keeps hstep (hinit start hstart)

/-- The invariant rule for steps from where some execution has led. -/
theorem invariant_of_reachable (Inv : σ → Prop) (hinit : ∀ s, Initial s → Inv s)
    (hstep : ∀ s a t, Reachable Initial Step s → Inv s → Step s a t → Inv t)
    (h : Reachable Initial Step s) : Inv s := by
  have hboth : Reachable Initial Step s ∧ Inv s :=
    h.invariant (fun s => Reachable Initial Step s ∧ Inv s) (fun s hs => ⟨.init hs, hinit s hs⟩)
      fun s a t hs hnext => ⟨hs.1.step hnext, hstep s a t hs.1 hs.2 hnext⟩
  exact hboth.2

end Reachable

end RobotController.Foundation
