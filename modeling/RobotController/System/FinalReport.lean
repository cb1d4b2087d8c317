/-
  System/FinalReport.lean --- polling the cycle count instead of waiting.

  Sources: `main.cpp`, `control/ControlLoop.cpp` (`update`, `run`, `completedCycles`,
  `state`).

  The program does not join the worker before it reports: it polls `completedCycles()`
  until the count is what it has asked for, and then calls `state`.  The worker may still be
  about to leave its loop.  That is enough: a worker whose cycles are all counted updates no
  more, so the robot has come to rest for good.
-/
import RobotController.Control.CycleCounts
import RobotController.System.StateReporting
import RobotController.System.Trajectory

set_option autoImplicit false

namespace RobotController.Control

open RobotController.Foundation

/-! ## When all cycles are counted -/

namespace Lifecycle

variable {τ : Type}

/-- The cycles of the runs accepted so far. -/
def acceptedRuns (s : Lifecycle τ) : List Int := s.members.workers.map Worker.cycleCount

theorem sum_acceptedRuns (s : Lifecycle τ) : s.acceptedRuns.sum = s.members.acceptedCycles := rfl

variable [DecidableEq τ] {s s' : Lifecycle τ} {event : LifecycleEvent τ}

/-- A run that has been accepted stays so. -/
theorem acceptedRuns_of_step (h : Step s event s') : s.acceptedRuns <+: s'.acceptedRuns := by
  cases event with
  | call t caller =>
      obtain rfl := call_cases h
      exact List.prefix_rfl
  | requestStop =>
      obtain rfl := Option.some.inj h
      exact List.prefix_rfl
  | acquire t =>
      obtain ⟨c, -, -, rfl⟩ := acquire_cases h
      exact List.prefix_rfl
  | proceed t =>
      obtain ⟨c, untouched, m', c', -, hadvances, rfl⟩ := proceed_cases h
      rcases Members.map_workers_of_advance (f := Worker.cycleCount) (fun _ => rfl)
        (fun _ => rfl) hadvances with hsame | ⟨n, clearedAt, -, -, hcreated⟩
      · change List.map _ _ <+: List.map _ _
        rw [hsame]
      · exact ⟨_, hcreated.symm⟩
  | release t =>
      obtain ⟨c, untouched, -, ⟨n, found, worker, -, rfl⟩ | ⟨-, rfl⟩⟩ := release_cases h
      · exact List.prefix_rfl
      · exact List.prefix_rfl
  | work i =>
      obtain ⟨m', hm, rfl⟩ := Option.map_eq_some_iff.mp h
      change List.map _ _ <+: List.map _ _
      rw [Members.cycleCounts_of_work hm]

/-- When the cycles counted are those accepted, no worker is within an update. -/
theorem Reached.not_updating (h : s.Reached)
    (hall : s.members.acceptedCycles ≤ s.members.measuredCycles) (i : Nat) :
    s.members.isUpdating i = false := by
  by_contra hupdating
  rw [Bool.not_eq_false] at hupdating
  obtain ⟨w, hw, hstage⟩ := Members.isUpdating_iff.mp hupdating
  have hsound : ∀ v ∈ s.members.workers, v.Sound := by
    intro v hv
    obtain ⟨j, hj⟩ := List.getElem?_of_mem hv
    exact (h.orderly.consistent.worker j v hj).sound
  have hmem := List.mem_of_getElem? hw
  have hless : (w.executed : Int) < w.cycleCount := by
    have hprogress := (hsound w hmem).progress
    cases hplace : w.stage with
    | updating k =>
        rw [Worker.Progress, hplace] at hprogress
        omega
    | _ => simp [Worker.isUpdating, hplace] at hstage
  have hsum := List.sum_lt_sum (fun v : Worker => (v.executed : Int)) Worker.cycleCount
    (fun v hv => (hsound v hv).executed_le) ⟨w, hmem, hless⟩
  have hexecuted : ((s.members.executedCycles : Nat) : Int) =
      (s.members.workers.map fun v : Worker => (v.executed : Int)).sum := by
    rw [Members.executedCycles, Nat.cast_list_sum, List.map_map]
    rfl
  rw [← hexecuted, h.executedCycles_eq] at hsum
  exact absurd hsum (not_lt.mpr hall)

end Lifecycle

end RobotController.Control

namespace RobotController.System

open RobotController.Foundation RobotController.Core RobotController.Communication
open RobotController.Control RobotController.Synchronization

namespace Controller

section Done

variable {R τ : Type} [Double R] [IntConversion R] [DecidableEq τ]
  {s s' : Controller R τ} {event : ControllerEvent R τ} {trace : List (ControllerEvent R τ)}

/-- Every cycle of the runs accepted so far has been counted. -/
structure Done (s : Controller R τ) : Prop where
  reached : s.Reached
  counted : s.loop.members.acceptedCycles ≤ s.loop.members.measuredCycles

theorem Done.outside (h : s.Done) : s.cycle = .outside := by
  by_contra hne
  obtain ⟨i, hi⟩ := h.reached.coordinated.updating hne
  rw [h.reached.lifecycle.not_updating h.counted i] at hi
  cases hi

theorem acceptedRuns_of_step (hstep : Step s event s') :
    s.loop.acceptedRuns <+: s'.loop.acceptedRuns := by
  cases hstep with
  | lifecycle _ hloop => exact Lifecycle.acceptedRuns_of_step hloop
  | endCycle _ _ _ _ hloop => exact Lifecycle.acceptedRuns_of_step hloop
  | _ => exact List.prefix_rfl

theorem acceptedRuns_of_execution (hexec : Execution Step s trace s') :
    s.loop.acceptedRuns <+: s'.loop.acceptedRuns := by
  induction hexec with
  | refl _ => exact List.prefix_rfl
  | cons hstep _ ih => exact (acceptedRuns_of_step hstep).trans ih

/-- Until another run is accepted the worker does nothing to the robot. -/
theorem Done.step (h : s.Done) (hstep : Step s event s')
    (hsame : s'.loop.acceptedRuns = s.loop.acceptedRuns)
    (hevent : ∀ operation, event ≠ .operate operation) :
    s'.Done ∧ event.isRobotOperation = false := by
  refine ⟨⟨h.reached.step hstep, ?_⟩, ?_⟩
  · have hcounted := h.counted
    have hmeasured := measured_of_step hstep
    rw [← Lifecycle.sum_acceptedRuns] at hcounted ⊢
    rw [hsame]
    omega
  · cases hstep with
    | operate operation _ => exact absurd rfl (hevent operation)
    | steer hphase _ _ =>
        rw [h.outside] at hphase
        cases hphase
    | _ => rfl

theorem Done.execution (h : s.Done) (hexec : Execution Step s trace s')
    (hsame : s'.loop.acceptedRuns = s.loop.acceptedRuns)
    (hevents : ∀ event ∈ trace, ∀ operation, event ≠ .operate operation) :
    s'.Done ∧ ∀ event ∈ trace, event.isRobotOperation = false := by
  induction hexec with
  | refl _ => exact ⟨h, by simp⟩
  | cons hstep hrest ih =>
      rw [List.forall_mem_cons] at hevents
      have hfirst := acceptedRuns_of_step hstep
      have hlater := acceptedRuns_of_execution hrest
      rw [hsame] at hlater
      have hmid := hlater.eq_of_length_le hfirst.length_le
      obtain ⟨hdone, hquiet⟩ := h.step hstep hmid hevents.1
      obtain ⟨hend, hothers⟩ := ih hdone (hsame.trans hmid.symm) hevents.2
      exact ⟨hend, List.forall_mem_cons.mpr ⟨hquiet, hothers⟩⟩

/-- The count that callers read is the number of cycles. -/
theorem Reached.completedCycles_eq (h : s.Reached) :
    s.loop.completedCycles = s.loop.members.measuredCycles := by
  have hmeasured := h.coordinated.measured
  have hexecuted := h.lifecycle.executedCycles_eq
  have hfits : s.loop.members.executedCycles ≤ intMax := by
    rw [hexecuted]
    exact Nat.le_pred_of_lt hmeasured
  rw [h.lifecycle.completedCycles_eq hfits, hexecuted]

/-- No more cycles are counted than are accepted. -/
theorem Done.measured_eq (h : s.Done) :
    (s.loop.members.measuredCycles : Int) = s.loop.members.acceptedCycles := by
  have hle := h.reached.lifecycle.executedCycles_le
  rw [h.reached.lifecycle.executedCycles_eq] at hle
  exact le_antisymm hle h.counted

/-- Polling has found every cycle counted. -/
theorem Reached.done (h : s.Reached)
    (hall : s.loop.members.acceptedCycles ≤ s.loop.completedCycles) : s.Done :=
  ⟨h, h.completedCycles_eq ▸ hall⟩

/-- What has been done to the robot is all that will be, and has been published. -/
theorem Done.atRest (h : s.Done) (hruns : s.loop.acceptedRuns ≠ []) (htouched : s.touched = false) :
    s.AtRest s.robot where
  coordinated := h.reached.coordinated
  locked := h.reached.locked
  published := h.reached.reported.2
  settled := by
    refine ⟨rfl, htouched, ?_, .inl h.outside⟩
    have hpositive : ∀ n ∈ s.loop.acceptedRuns, 0 < n := by
      intro n hn
      obtain ⟨w, hw, rfl⟩ := List.mem_map.mp hn
      obtain ⟨i, hi⟩ := List.getElem?_of_mem hw
      exact (h.reached.lifecycle.orderly.consistent.worker i w hi).sound.positive
    have hsum := List.sum_pos s.loop.acceptedRuns hpositive hruns
    have hcounted := h.counted
    rw [← Lifecycle.sum_acceptedRuns] at hcounted
    omega

/-- The robot has followed the reads of one cycle for each that was accepted. -/
theorem Done.follows {start : Controller R τ} (h : s.Done)
    (houtside : start.cycle = .outside) (hnew : start.loop.members.measuredCycles = 0)
    (hexec : Execution Step start trace s)
    (hevents : ∀ event ∈ trace, ∀ operation, event ≠ .operate operation) :
    ∃ n since, (since.length : Int) = s.loop.members.acceptedCycles ∧
      start.Follows n since s := by
  obtain ⟨n, since, -, hfollows⟩ := (follows_refl houtside).execution hexec hevents
  refine ⟨n, since, ?_, hfollows⟩
  have hlength := hfollows.publishes.length
  have hmeasured := hfollows.publishes.measured
  rw [ControlLoop.length_trajectories, h.outside] at hlength
  have hnone : CyclePhase.updates .outside = 0 := rfl
  have hcounted := h.measured_eq
  omega

/-- The robot has been advanced by one update for each cycle accepted. -/
theorem Done.trajectory {start : Controller R τ} (h : s.Done)
    (houtside : start.cycle = .outside) (hnew : start.loop.members.measuredCycles = 0)
    (hexec : Execution Step start trace s)
    (hevents : ∀ event ∈ trace, ∀ operation, event ≠ .operate operation) :
    ∃ outcomes : List (Option (JointCommand R)),
      (outcomes.length : Int) = s.loop.members.acceptedCycles ∧
        s.robot = ControlLoop.trajectory start.robot outcomes := by
  obtain ⟨n, since, hlength, hfollows⟩ := h.follows houtside hnew hexec hevents
  exact ⟨since, hlength, hfollows.robot⟩

/-- The final report is the truth although nobody has waited.  Once a run has been accepted
and a poll of the cycle count has found all the cycles of the runs accepted so far, with
nobody having operated on the robot since the last of them, and until another run is accepted
or the robot is operated on: the robot stays where it is, advanced by exactly one update for
each of these cycles; calls of `state` report its state, and reads of the state of joint 1
obtain that. -/
theorem report_after_polling (hs : s.Reached) (hruns : s.loop.acceptedRuns ≠ [])
    (hall : s.loop.members.acceptedCycles ≤ s.loop.completedCycles) (htouched : s.touched = false) :
    (∀ (start : Controller R τ) (trace : List (ControllerEvent R τ)),
      start.cycle = .outside → start.loop.members.measuredCycles = 0 →
      Execution Step start trace s →
      (∀ event ∈ trace, ∀ operation, event ≠ .operate operation) →
        ∃ outcomes : List (Option (JointCommand R)),
          (outcomes.length : Int) = s.loop.members.acceptedCycles ∧
            s.robot = ControlLoop.trajectory start.robot outcomes) ∧
    (∀ (s' : Controller R τ) (trace : List (ControllerEvent R τ)), Execution Step s trace s' →
      (∀ event ∈ trace, ∀ operation, event ≠ .operate operation) →
      s'.loop.acceptedRuns = s.loop.acceptedRuns →
        s'.robot = s.robot ∧ s'.loop.completedCycles = s.loop.completedCycles) ∧
    (∀ (t : τ) (s₁ s₂ s₃ : Controller R τ) (trace : List (ControllerEvent R τ)),
      Step s (.lockState t) s₁ → Execution Step s₁ trace s₂ →
      (∀ event ∈ trace, ∀ operation, event ≠ .operate operation) →
      s₂.loop.acceptedRuns = s.loop.acceptedRuns → Step s₂ (.returnState t) s₃ →
        s₃.robot = s.robot ∧
          ∃ since, s₃.reports = s₂.reports ++ [⟨since, true, s₃.robot.state⟩]) ∧
    ∀ (reader : Option τ) (event : ControllerEvent R τ) (s₁ s₂ : Controller R τ)
      (trace : List (ControllerEvent R τ)) (call : Call StateCell R (JointState R))
      (read : Bool × JointState R),
      sampler event = some reader → Step s event s₁ → Execution Step s₁ trace s₂ →
      (∀ event ∈ trace, ∀ operation, event ≠ .operate operation) →
      s₂.loop.acceptedRuns = s.loop.acceptedRuns →
      s₂.canState.calls reader = some call → call.result = some read →
        s₂.robot = s.robot ∧ read = (true, s₂.robot.state 0) := by
  have hdone := hs.done hall
  have hrest := hdone.atRest hruns htouched
  refine ⟨?_, ?_, ?_, ?_⟩
  · intro start trace houtside hnew hexec hevents
    exact hdone.trajectory houtside hnew hexec hevents
  · intro s' trace hexec hevents hsame
    obtain ⟨hdone', hquiet⟩ := hdone.execution hexec hsame hevents
    have hrest' : s'.AtRest s.robot :=
      hexec.keeps_of_forall (fun _ _ _ hevent hrest hstep => hrest.step hevent hstep) hquiet hrest
    refine ⟨hrest'.settled.robot, ?_⟩
    rw [hdone'.reached.completedCycles_eq, hs.completedCycles_eq, hdone'.measured_eq,
      hdone.measured_eq, ← Lifecycle.sum_acceptedRuns, hsame, Lifecycle.sum_acceptedRuns]
  · intro t s₁ s₂ s₃ trace hlock hexec hevents hsame hreturn
    obtain ⟨-, hquiet⟩ := hdone.execution (.cons hlock hexec) hsame
      (List.forall_mem_cons.mpr ⟨by simp, hevents⟩)
    exact hrest.report hlock hexec (List.forall_mem_cons.mp hquiet).2 hreturn
  · intro reader event s₁ s₂ trace call read hsampler hbegin hexec hevents hsame hcall hread
    have hevent : ∀ operation, event ≠ .operate operation := by
      intro operation heq
      rw [heq] at hsampler
      cases hsampler
    obtain ⟨-, hquiet⟩ := hdone.execution (.cons hbegin hexec) hsame
      (List.forall_mem_cons.mpr ⟨hevent, hevents⟩)
    exact hrest.sample hsampler hbegin hexec (List.forall_mem_cons.mp hquiet).2 hcall hread

end Done

/-! ## A worker that has not been joined -/

section Unjoined

/-- A run of one cycle, up to the end of the cycle: its worker is about to leave its loop. -/
def cycleUnjoined : List (ControllerEvent ℚ Unit) := startEvents () 1 ++ updateEvents

theorem report_after_polling_unjoined :
    ∃ (s s' : Controller ℚ Unit) (since : Nat), s.Reached ∧
      s.loop.members.allJoined = false ∧ s'.robot = s.robot ∧
      s'.reports = [⟨since, true, s'.robot.state⟩] := by
  have hrun : ∃ s s₁ s₂ s₃ : Controller ℚ Unit,
      cycleUnjoined.foldlM next (initial Robot.initial) = some s ∧
      s.loop.acceptedRuns = [1] ∧ s.loop.completedCycles = 1 ∧ s.touched = false ∧
      s.loop.members.allJoined = false ∧ s.next (.lockState ()) = some s₁ ∧
      readSnapshot.foldlM next s₁ = some s₂ ∧ s₂.loop.acceptedRuns = [1] ∧
      s₂.next (.returnState ()) = some s₃ ∧ s₂.reports = [] :=
    ⟨_, _, _, _, rfl, rfl, rfl, rfl, rfl, rfl, rfl, rfl, rfl, rfl⟩
  obtain ⟨s, s₁, s₂, s₃, hs, hruns, hcount, htouched, hjoined, hlock, hread, hsame, hreturn,
    hnone⟩ := hrun
  have hreached := reached_of_schedule _ _ hs
  have hexec := Execution.of_schedule (fun _ _ _ => step_of_next) _ hread
  have hevents : ∀ event ∈ readSnapshot, ∀ operation, event ≠ .operate operation := by
    intro event hmem operation heq
    simp [heq, readSnapshot] at hmem
  have hall : s.loop.members.acceptedCycles ≤ s.loop.completedCycles := by
    rw [← Lifecycle.sum_acceptedRuns, hruns, hcount]
    decide
  obtain ⟨-, -, hreport, -⟩ := report_after_polling hreached (by simp [hruns]) hall htouched
  obtain ⟨hrobot, since, hreports⟩ := hreport () s₁ s₂ s₃ readSnapshot (step_of_next hlock) hexec
    hevents (hsame.trans hruns.symm) (step_of_next hreturn)
  rw [hnone, List.nil_append] at hreports
  exact ⟨s, s₃, since, hreached, hjoined, hrobot, hreports⟩

end Unjoined

end Controller

end RobotController.System
