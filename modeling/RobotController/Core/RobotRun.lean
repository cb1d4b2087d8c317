/-
  Core/RobotRun.lean --- sequences of robot operations.

  A client drives a `Robot` through four operations, in any order and with any
  arguments.  A run is a finite sequence of them.  Seen from one axis, a run is
  the sequence of the operations that reach it: the updates, and what is
  addressed to it.
-/
import RobotController.Core.Axis

set_option autoImplicit false

namespace RobotController.Core

open RobotController.Foundation RobotController.Control RobotController.Safety
open RobotController.Simulation

/-! ## Operations and runs -/

/-- A call on the public interface of `Robot`. -/
inductive RobotOperation (R : Type) where
  | initializeJointPosition (index : JointIndex) (position : Angle R)
  | setJointTargetPosition (index : JointIndex) (target : Angle R)
  | setJointAcceleration (index : JointIndex) (acceleration : AngularAcceleration R)
  | update (dt : Duration R)
  deriving DecidableEq, Repr

/-- What reaches one axis. -/
inductive AxisOperation (R : Type) where
  | initializePosition (position : Angle R)
  | setTargetPosition (target : Angle R)
  | setAcceleration (acceleration : AngularAcceleration R)
  | update (dt : Duration R)
  deriving DecidableEq, Repr

/-- The part of an operation that axis `i` sees. -/
def RobotOperation.onAxis {R : Type} (i : Fin jointCount) :
    RobotOperation R → Option (AxisOperation R)
  | .initializeJointPosition index position =>
      if index.value = i then some (.initializePosition position) else none
  | .setJointTargetPosition index target =>
      if index.value = i then some (.setTargetPosition target) else none
  | .setJointAcceleration index acceleration =>
      if index.value = i then some (.setAcceleration acceleration) else none
  | .update dt => some (.update dt)

/-- An operation no axis sees names a joint that does not exist. -/
theorem RobotOperation.onAxis_eq_none {R : Type} {operation : RobotOperation R}
    (h : ∀ i, operation.onAxis i = none) :
    (∃ index position, operation = .initializeJointPosition index position ∧
        ¬ index.value < jointCount) ∨
      (∃ index target, operation = .setJointTargetPosition index target ∧
        ¬ index.value < jointCount) ∨
      ∃ index acceleration, operation = .setJointAcceleration index acceleration ∧
        ¬ index.value < jointCount := by
  cases operation with
  | update dt => exact absurd (h 0) (by simp [onAxis])
  | initializeJointPosition index position =>
      refine .inl ⟨index, position, rfl, fun hlt => ?_⟩
      simpa [onAxis] using h ⟨index.value, hlt⟩
  | setJointTargetPosition index target =>
      refine .inr (.inl ⟨index, target, rfl, fun hlt => ?_⟩)
      simpa [onAxis] using h ⟨index.value, hlt⟩
  | setJointAcceleration index acceleration =>
      refine .inr (.inr ⟨index, acceleration, rfl, fun hlt => ?_⟩)
      simpa [onAxis] using h ⟨index.value, hlt⟩

section Runs

variable {R : Type} [Double R]

/-- Perform one operation: what it returns (`update` returns nothing and never
fails) and the robot afterwards. -/
def Robot.apply (robot : Robot R) : RobotOperation R → Bool × Robot R
  | .initializeJointPosition index position => robot.initializeJointPosition index position
  | .setJointTargetPosition index target => robot.setJointTargetPosition index target
  | .setJointAcceleration index acceleration => robot.setJointAcceleration index acceleration
  | .update dt => (true, robot.update dt)

/-- Perform a sequence of operations. -/
def Robot.run (operations : List (RobotOperation R)) (robot : Robot R) : Robot R :=
  operations.foldl (fun current operation => (current.apply operation).2) robot

/-- One operation on one axis. -/
def Axis.apply (controller : PDController R) (axis : Axis R) :
    AxisOperation R → Bool × Axis R
  | .initializePosition position => axis.initializePosition position
  | .setTargetPosition target => (true, axis.setTargetPosition target)
  | .setAcceleration acceleration => axis.setAcceleration acceleration
  | .update dt => (true, axis.update controller dt)

/-- A sequence of operations on one axis. -/
def Axis.run (controller : PDController R) (operations : List (AxisOperation R))
    (axis : Axis R) : Axis R :=
  operations.foldl (fun current operation => (current.apply controller operation).2) axis

@[simp] theorem Robot.run_nil (robot : Robot R) : robot.run [] = robot := rfl

@[simp] theorem Robot.run_cons (operation : RobotOperation R)
    (rest : List (RobotOperation R)) (robot : Robot R) :
    robot.run (operation :: rest) = (robot.apply operation).2.run rest := rfl

theorem Robot.run_append (robot : Robot R) (first second : List (RobotOperation R)) :
    robot.run (first ++ second) = (robot.run first).run second :=
  List.foldl_append ..

@[simp] theorem Axis.run_nil (controller : PDController R) (axis : Axis R) :
    axis.run controller [] = axis := rfl

@[simp] theorem Axis.run_cons (controller : PDController R) (operation : AxisOperation R)
    (rest : List (AxisOperation R)) (axis : Axis R) :
    axis.run controller (operation :: rest) =
      (axis.apply controller operation).2.run controller rest := rfl

/-- What every operation keeps, every run keeps. -/
theorem Axis.run_keeps {controller : PDController R} (Keeps : Axis R → Prop)
    (hstep : ∀ axis operation, Keeps axis → Keeps (axis.apply controller operation).2) :
    ∀ (operations : List (AxisOperation R)) (axis : Axis R),
      Keeps axis → Keeps (axis.run controller operations) := by
  intro operations
  induction operations with
  | nil => exact fun _ h => h
  | cons operation rest ih => exact fun axis h => ih _ (hstep axis operation h)

/-! ## A robot run is six axis runs -/

theorem Joint.initializePosition_own (joint : Joint R (Fin jointCount)) (position : Angle R) :
    (joint.initializePosition position).1 = (joint.own.initializePosition position).1 ∧
      (joint.initializePosition position).2.own = (joint.own.initializePosition position).2 := by
  by_cases h : position.degrees < joint.minPosition.degrees ∨
      joint.maxPosition.degrees < position.degrees
  · have hown : position.degrees < joint.own.minPosition.degrees ∨
        joint.own.maxPosition.degrees < position.degrees := h
    simp only [Joint.initializePosition, if_pos h, if_pos hown, and_self]
  · have hown : ¬ (position.degrees < joint.own.minPosition.degrees ∨
        joint.own.maxPosition.degrees < position.degrees) := h
    simp only [Joint.initializePosition, if_neg h, if_neg hown, true_and]
    rfl

/-- An operation that names an existing joint returns what the joint's own
function returns, and changes that axis alone. -/
theorem Robot.apply_addressed (robot : Robot R) (operation : RobotOperation R)
    {i : Fin jointCount} {seen : AxisOperation R} (hseen : operation.onAxis i = some seen) :
    (robot.apply operation).1 = ((robot.axis i).apply controller seen).1 ∧
      (robot.apply operation).2.axis i = ((robot.axis i).apply controller seen).2 := by
  cases operation with
  | update dt =>
      obtain rfl : AxisOperation.update dt = seen := by simpa [RobotOperation.onAxis] using hseen
      exact ⟨rfl, robot.axis_update dt i⟩
  | initializeJointPosition index position =>
      obtain ⟨hindex, rfl⟩ : index.value = i ∧ .initializePosition position = seen := by
        simpa [RobotOperation.onAxis] using hseen
      obtain ⟨hfst, hsnd⟩ := (robot.joints i).initializePosition_own position
      simp only [Robot.apply, initializeJointPosition, hindex, i.isLt, dite_true, Fin.eta,
        axis_setJoint, if_true]
      exact ⟨hfst, congrArg (Axis.mk · (robot.motors i)) hsnd⟩
  | setJointTargetPosition index target =>
      obtain ⟨hindex, rfl⟩ : index.value = i ∧ .setTargetPosition target = seen := by
        simpa [RobotOperation.onAxis] using hseen
      simp only [Robot.apply, setJointTargetPosition, hindex, i.isLt, dite_true, Fin.eta,
        axis_setJoint, if_true]
      exact ⟨rfl, rfl⟩
  | setJointAcceleration index acceleration =>
      obtain ⟨hindex, rfl⟩ : index.value = i ∧ .setAcceleration acceleration = seen := by
        simpa [RobotOperation.onAxis] using hseen
      have hfst := (robot.joints i).fst_setAcceleration_own robot.motors acceleration
      have hsnd := (robot.joints i).snd_setAcceleration_own robot.motors acceleration
      rw [robot.wired i] at hfst hsnd
      simp only [Robot.apply, setJointAcceleration, hindex, i.isLt, dite_true, Fin.eta]
      exact ⟨hfst, congrArg (Axis.mk (robot.joints i).own) hsnd⟩

/-- An operation addressed elsewhere leaves the axis as it is. -/
theorem Robot.apply_elsewhere (robot : Robot R) (operation : RobotOperation R)
    {i : Fin jointCount} (hseen : operation.onAxis i = none) :
    (robot.apply operation).2.axis i = robot.axis i := by
  cases operation with
  | update dt => simp [RobotOperation.onAxis] at hseen
  | initializeJointPosition index position =>
      have hne : index.value ≠ i := by simpa [RobotOperation.onAxis] using hseen
      simp only [Robot.apply, initializeJointPosition]
      split
      · rw [axis_setJoint, if_neg fun he => hne (congrArg Fin.val he).symm]
      · rfl
  | setJointTargetPosition index target =>
      have hne : index.value ≠ i := by simpa [RobotOperation.onAxis] using hseen
      simp only [Robot.apply, setJointTargetPosition]
      split
      · rw [axis_setJoint, if_neg fun he => hne (congrArg Fin.val he).symm]
      · rfl
  | setJointAcceleration index acceleration =>
      have hne : index.value ≠ i := by simpa [RobotOperation.onAxis] using hseen
      simp only [Robot.apply, setJointAcceleration]
      split
      next hlt =>
        have hmotor : i ≠ (robot.joints ⟨index.value, hlt⟩).motor := by
          rw [robot.wired]
          exact fun he => hne (congrArg Fin.val he).symm
        exact congrArg (Axis.mk (robot.joints i).own)
          ((robot.joints ⟨index.value, hlt⟩).snd_setAcceleration_of_ne _ _ hmotor)
      · rfl

/-- An operation that names no joint is refused, and changes nothing. -/
theorem Robot.apply_of_unaddressed (robot : Robot R) {operation : RobotOperation R}
    (h : ∀ i, operation.onAxis i = none) : robot.apply operation = (false, robot) := by
  obtain ⟨index, position, rfl, hout⟩ | ⟨index, target, rfl, hout⟩ |
    ⟨index, acceleration, rfl, hout⟩ := RobotOperation.onAxis_eq_none h
  · exact dif_neg hout
  · exact dif_neg hout
  · exact dif_neg hout

/-- **Axis `i` of a robot run is the run of what axis `i` sees.** -/
theorem Robot.axis_run (i : Fin jointCount) :
    ∀ (operations : List (RobotOperation R)) (robot : Robot R),
      (robot.run operations).axis i =
        (robot.axis i).run controller (operations.filterMap (RobotOperation.onAxis i)) := by
  intro operations
  induction operations with
  | nil => exact fun _ => rfl
  | cons operation rest ih =>
      intro robot
      rw [run_cons, ih]
      cases hseen : operation.onAxis i with
      | none =>
          rw [List.filterMap_cons_none hseen, robot.apply_elsewhere operation hseen]
      | some seen =>
          rw [List.filterMap_cons_some hseen, (robot.apply_addressed operation hseen).2,
            Axis.run_cons]

end Runs

end RobotController.Core
