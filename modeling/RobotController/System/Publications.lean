/-
  System/Publications.lean --- what the control cycles publish.

  Source: `control/ControlLoop.cpp` (`update`).

  A cycle updates the robot once and then publishes it once to either buffer, and until
  it ends nothing else operates on the robot.  So the publications are the updates, each
  as the robot was when its cycle ended.
-/
import RobotController.System.Coordination

set_option autoImplicit false

namespace RobotController.System

open RobotController.Foundation RobotController.Core RobotController.Communication
open RobotController.Control RobotController.Synchronization

/-- The updates of the robot in a cycle that is in progress. -/
def CyclePhase.updates : CyclePhase → Nat
  | .outside | .readingCommand => 0
  | _ => 1

namespace ControllerEvent

variable {R τ : Type}

/-- The event is the end of a control cycle. -/
def endsCycle : ControllerEvent R τ → Bool
  | .endCycle _ => true
  | _ => false

/-- The robots that the updates have led to, after one more event. -/
def record (event : ControllerEvent R τ) (after : Controller R τ) (updates : List (Robot R)) :
    List (Robot R) :=
  match event with
  | .steer => updates ++ [after.robot]
  | _ => updates

end ControllerEvent

namespace Controller

section Publications

variable {R τ : Type}

/-- Since `start`, `n` cycles have been completed, and the robots `updates` are those that
the cycles have led to: the last of them is still there while its cycle is in progress,
and each is published once to either buffer. -/
structure Publishes (start : Controller R τ) (n : Nat) (updates : List (Robot R))
    (s : Controller R τ) : Prop where
  measured : s.loop.members.measuredCycles = start.loop.members.measuredCycles + n
  length : updates.length = n + s.cycle.updates
  latest : s.cycle.updates = 1 → updates.getLast? = some s.robot
  canState : s.canState.history = start.canState.history ++
    (updates.take (n + s.cycle.states)).map fun robot => robot.state 0
  snapshot : s.snapshot.history = start.snapshot.history ++
    (updates.take (n + s.cycle.snapshots)).map Robot.state

theorem publishes_refl {s : Controller R τ} (houtside : s.cycle = .outside) :
    s.Publishes 0 [] s where
  measured := rfl
  length := by rw [houtside]; rfl
  latest := by simp [houtside, CyclePhase.updates]
  canState := by simp
  snapshot := by simp

variable {start s s' : Controller R τ} {n : Nat} {updates : List (Robot R)}

/-- While a cycle is in progress after its update, what it has not published yet is the
robot. -/
theorem Publishes.take_succ (h : start.Publishes n updates s) (hphase : s.cycle.updates = 1) :
    updates.take (n + 1) = updates.take n ++ [s.robot] := by
  obtain ⟨front, rfl⟩ := List.getLast?_eq_some_iff.mp (h.latest hphase)
  have hlength := h.length
  rw [hphase, List.length_append, List.length_singleton, Nat.add_right_cancel_iff] at hlength
  rw [← hlength, List.take_left, List.take_of_length_le (by simp)]

variable [Double R]

/-- A cycle has updated the robot. -/
theorem Publishes.steer (h : start.Publishes n updates s) (hphase : s.cycle = .readingCommand)
    (since : Nat) (read : Bool × JointCommand R) :
    start.Publishes n (updates ++ [(s.steer since read).robot]) (s.steer since read) := by
  have hlength := h.length
  have hcanState := h.canState
  have hsnapshot := h.snapshot
  rw [hphase] at hlength hcanState hsnapshot
  have hkept : (updates ++ [(s.steer since read).robot]).take n = updates.take n :=
    List.take_append_of_le_length hlength.ge
  refine ⟨h.measured, ?_, fun _ => List.getLast?_concat, ?_, ?_⟩
  · rw [List.length_append, hlength]
    rfl
  · exact hcanState.trans (congrArg (start.canState.history ++ List.map _ ·) hkept.symm)
  · exact hsnapshot.trans (congrArg (start.snapshot.history ++ List.map _ ·) hkept.symm)

variable [IntConversion R] [DecidableEq τ] {event : ControllerEvent R τ}

/-- Only the end of a cycle counts it. -/
theorem measured_of_step (hstep : Step s event s') :
    s'.loop.members.measuredCycles =
      s.loop.members.measuredCycles + event.endsCycle.toNat := by
  cases hstep with
  | lifecycle hends hloop => exact (loop_kept hloop hends).1
  | endCycle _ _ hupdating _ hloop => exact measured_of_endsUpdate hloop hupdating
  | _ => rfl

theorem outside_of_endsCycle (hstep : Step s event s') (hends : event.endsCycle = true) :
    s'.cycle = .outside := by
  cases hstep with
  | endCycle _ _ _ _ _ => rfl
  | _ => simp [ControllerEvent.endsCycle] at hends

/-- Whatever a thread does next, the cycles publish the updates. -/
theorem Publishes.step (h : start.Publishes n updates s)
    (hoperate : ∀ operation, event = .operate operation → s.cycle = .outside)
    (hstep : Step s event s') :
    start.Publishes (n + event.endsCycle.toNat) (event.record s' updates) s' := by
  have hlength := h.length
  have hlatest := h.latest
  have hcanState := h.canState
  have hsnapshot := h.snapshot
  have hmeasured : s'.loop.members.measuredCycles =
      start.loop.members.measuredCycles + (n + event.endsCycle.toNat) := by
    rw [measured_of_step hstep, h.measured, Nat.add_assoc]
  cases hstep with
  | lifecycle _ _ => exact { h with measured := hmeasured }
  | operate operation _ =>
      rw [hoperate operation rfl] at hlatest
      refine { h with latest := fun hphase => ?_ }
      simp only [hoperate operation rfl] at hphase
      exact absurd hphase (by decide)
  | beginCycle houtside _ _ =>
      rw [houtside] at hlength hlatest hcanState hsnapshot
      exact ⟨hmeasured, hlength, hlatest, hcanState, hsnapshot⟩
  | steer hphase _ _ => exact h.steer hphase _ _
  | publishState hphase hbuffer =>
      have htake := h.take_succ (by rw [hphase]; rfl)
      rw [hphase] at hlength hlatest hcanState hsnapshot
      refine ⟨hmeasured, hlength, hlatest, ?_, hsnapshot⟩
      change _ = _ ++ (updates.take (n + 1)).map _
      rw [hbuffer.of_publish.1, hcanState, htake, List.map_append, List.append_assoc]
      rfl
  | writeState _ hbuffer => exact { h with canState := hbuffer.of_write.1.trans hcanState }
  | publishSnapshot hphase _ hbuffer =>
      have htake := h.take_succ (by rw [hphase]; rfl)
      rw [hphase] at hlength hlatest hcanState hsnapshot
      refine ⟨hmeasured, hlength, hlatest, hcanState, ?_⟩
      change _ = _ ++ (updates.take (n + 1)).map _
      rw [hbuffer.of_publish.1, hsnapshot, htake, List.map_append, List.append_assoc]
      rfl
  | writeSnapshot _ hbuffer => exact { h with snapshot := hbuffer.of_write.1.trans hsnapshot }
  | endCycle hphase _ _ _ _ =>
      rw [hphase] at hlength hcanState hsnapshot
      exact ⟨hmeasured, hlength, by simp [CyclePhase.updates], hcanState, hsnapshot⟩
  | sample _ hbuffer => exact { h with canState := (hbuffer.of_isRead trivial).1.trans hcanState }
  | accessState _ hbuffer =>
      exact { h with canState := (hbuffer.of_isRead trivial).1.trans hcanState }
  | lockState _ hbuffer =>
      exact { h with snapshot := (hbuffer.of_isRead trivial).1.trans hsnapshot }
  | accessSnapshot _ hbuffer =>
      exact { h with snapshot := (hbuffer.of_isRead trivial).1.trans hsnapshot }
  | readCanState hbuffer =>
      exact { h with canState := (hbuffer.of_isRead trivial).1.trans hcanState }
  | accessCanState hbuffer =>
      exact { h with canState := (hbuffer.of_isRead trivial).1.trans hcanState }
  | _ => exact { h with }

end Publications

end Controller

end RobotController.System
