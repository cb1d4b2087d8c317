/-
  System/LoopEnd.lean --- a worker of the loop that is left to itself.

  Source: `control/ControlLoop.cpp` (`run`, `update`).

  A worker that has not ended can always take its next step, whatever the other threads do.
  The accesses it has left in its loop are counted, and so are the steps of a cycle; so it
  ends after a bounded number of its own steps.
-/
import RobotController.Control.LifecycleLiveness
import RobotController.System.Progress

set_option autoImplicit false

namespace RobotController.System

open RobotController.Foundation RobotController.Core RobotController.Communication
open RobotController.Control RobotController.Synchronization

/-- Whether an event is a step of a worker. -/
def ControllerEvent.isWork {R τ : Type} : ControllerEvent R τ → Bool
  | .lifecycle (.work _) | .beginCycle _ | .accessCommand | .steer | .publishState => true
  | .writeState | .publishSnapshot | .writeSnapshot | .endCycle _ => true
  | _ => false

/-- Whether an event is a step of a worker, or one of a call of `run` or `wait` after it has
been called. -/
def ControllerEvent.isLoopStep {R τ : Type} : ControllerEvent R τ → Bool
  | .lifecycle event => event.isInternal
  | event => event.isWork

/-- Whether an event is a call of `run` or `wait`. -/
def ControllerEvent.isLoopCall {R τ : Type} : ControllerEvent R τ → Bool
  | .lifecycle (.call _ _) => true
  | _ => false

theorem ControllerEvent.isLoopStep_of_isWork {R τ : Type} {event : ControllerEvent R τ}
    (h : event.isWork = true) : event.isLoopStep = true := by
  cases event with
  | lifecycle access => cases access <;> first | rfl | cases h
  | _ => exact h

namespace Controller

section Worker

variable {R τ : Type} [Double R] [IntConversion R] [DecidableEq τ] {s s' : Controller R τ}
  {event : ControllerEvent R τ} {k : Nat}

/-- Whatever the others do, a worker that has not ended can take a step, as long as its cycle
can be counted. -/
theorem exists_isWork (hs : s.Reached) {i : Nat} {w : Worker}
    (hw : s.loop.members.workers[i]? = some w) (hlive : w.stage ≠ .ended)
    (hroom : s.cycle ≠ .outside → s.loop.members.measuredCycles + 1 < 2 ^ 31) :
    ∃ event s', event.isWork = true ∧ Step s event s' := by
  by_cases hopen : s.cycle = .outside
  · cases hupdating : s.loop.members.isUpdating i with
    | true =>
        obtain ⟨event, s', hbegins, hstep⟩ := exists_begin .cycle hs ⟨hopen, i, hupdating⟩
        refine ⟨event, s', ?_, hstep⟩
        cases event <;> first | rfl | cases hbegins
    | false =>
        obtain ⟨members, hmembers⟩ := Members.exists_work s.loop.requests hw hlive
        have hwork : Lifecycle.Step s.loop (.work i) { s.loop with members := members } :=
          Option.map_eq_some_iff.mpr ⟨members, hmembers, rfl⟩
        exact ⟨.lifecycle (.work i), _, rfl, .lifecycle hupdating hwork⟩
  · obtain ⟨event, s', hcontinues, hstep⟩ := exists_continue_cycle hs hopen (hroom hopen)
    refine ⟨event, s', ?_, hstep⟩
    cases event <;> first | rfl | cases hcontinues

/-- So many steps suffice for the calls to return and the workers to end: an access takes no
more than 64, the rest being for the cycles between those of a worker. -/
def LoopDue (s : Controller R τ) (k : Nat) : Prop :=
  ∃ credit left, s.loop.Credit credit ∧ s.CycleDue left ∧
    64 * credit + (if s.cycle = .outside then 32 else 0) + left ≤ k

theorem Reached.exists_loopDue (h : s.Reached) : ∃ k, s.LoopDue k := by
  obtain ⟨left, hdue, -⟩ := h.exists_due_le .cycle
  obtain ⟨start, trace, rfl, hexec⟩ := h.lifecycle
  obtain ⟨credit, hcredit, -⟩ := Lifecycle.amortizes.execution hexec Lifecycle.credit_initial
  exact ⟨_, credit, left, hcredit, hdue, le_rfl⟩

/-- Every step of a call or a worker is one less, and no other step is one more, but for the
calls themselves. -/
theorem LoopDue.step (h : s.LoopDue k) (hstep : Step s event s')
    (hcall : event.isLoopCall = false) :
    ∃ k', s'.LoopDue k' ∧ k' + (if event.isLoopStep = true then 1 else 0) ≤ k := by
  obtain ⟨credit, left, hcredit, hdue, hle⟩ := h
  obtain ⟨left', hdue', hless⟩ := amortizes_cycle s event s' left hdue hstep
  have hloop : ∀ {access : LifecycleEvent τ} {loop : Lifecycle τ},
      Lifecycle.Step s.loop access loop → access.brings = 0 →
        ∃ credit', loop.Credit credit' ∧ credit' + access.spends ≤ credit := by
    intro access loop haccess hbrings
    obtain ⟨credit', hcredit', hfewer⟩ := Lifecycle.amortizes _ _ _ credit hcredit haccess
    exact ⟨credit', hcredit', by omega⟩
  cases hstep with
  | @lifecycle access _ _ haccess =>
      have hbrings : access.brings = 0 := by
        cases access <;> first | rfl | cases hcall
      obtain ⟨credit', hcredit', hfewer⟩ := hloop haccess hbrings
      refine ⟨_, ⟨credit', left', hcredit', hdue', le_rfl⟩, ?_⟩
      change left' + 0 ≤ left + 0 at hless
      change 64 * credit' + (if s.cycle = .outside then 32 else 0) + left' + access.spends ≤ k
      omega
  | beginCycle houtside _ _ =>
      refine ⟨_, ⟨credit, left', hcredit, hdue', le_rfl⟩, ?_⟩
      change left' + 0 ≤ left + 31 at hless
      simp only [houtside, ControllerEvent.isLoopStep, ControllerEvent.isWork, if_true,
        reduceCtorEq, if_false] at hle ⊢
      omega
  | endCycle hphase _ _ _ hwork =>
      obtain ⟨credit', hcredit', hfewer⟩ := hloop hwork rfl
      refine ⟨_, ⟨credit', left', hcredit', hdue', le_rfl⟩, ?_⟩
      change left' + 1 ≤ left + 0 at hless
      change credit' + 1 ≤ credit at hfewer
      simp only [hphase, ControllerEvent.isLoopStep, ControllerEvent.isWork, if_true,
        reduceCtorEq, if_false] at hle ⊢
      omega
  | accessCommand hphase _ | steer hphase _ _ | publishState hphase _ | writeState hphase _
  | publishSnapshot hphase _ _ | writeSnapshot hphase _ =>
      refine ⟨_, ⟨credit, left', hcredit, hdue', le_rfl⟩, ?_⟩
      change left' + 1 ≤ left + 0 at hless
      simp only [Controller.steer, hphase, ControllerEvent.isLoopStep, ControllerEvent.isWork,
        if_true, reduceCtorEq, if_false] at hle ⊢
      omega
  | _ =>
      refine ⟨_, ⟨credit, left', hcredit, hdue', le_rfl⟩, ?_⟩
      change left' + 0 ≤ left + 0 at hless
      change 64 * credit + (if s.cycle = .outside then 32 else 0) + left' + 0 ≤ k
      omega

end Worker

end Controller

end RobotController.System
