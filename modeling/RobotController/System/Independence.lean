/-
  System/Independence.lean --- joints do not influence one another.

  The joints of a robot share one controller, one safety layer, one simulator and an
  array of motors.  Still, what a joint does depends on the updates and on the
  operations addressed to it alone; and since a command frame is addressed to joint 1,
  no traffic on the bus reaches the other five.
-/
import RobotController.System.System

set_option autoImplicit false

namespace RobotController.Core

open RobotController.Foundation RobotController.Control

/-! ## Robots -/

/-- The index an operation names. -/
def RobotOperation.index {R : Type} : RobotOperation R → Option JointIndex
  | .initializeJointPosition index _ => some index
  | .setJointTargetPosition index _ => some index
  | .setJointAcceleration index _ => some index
  | .update _ => none

/-- An axis sees of an operation that names a joint only what names its own. -/
theorem RobotOperation.onAxis_of_index_ne {R : Type} {operation : RobotOperation R}
    {index : JointIndex} {i : Fin jointCount} (hindex : operation.index = some index)
    (hne : index.value ≠ i) : operation.onAxis i = none := by
  cases operation with
  | update dt => simp [RobotOperation.index] at hindex
  | initializeJointPosition other _ =>
      obtain rfl : other = index := Option.some.inj hindex
      exact if_neg hne
  | setJointTargetPosition other _ =>
      obtain rfl : other = index := Option.some.inj hindex
      exact if_neg hne
  | setJointAcceleration other _ =>
      obtain rfl : other = index := Option.some.inj hindex
      exact if_neg hne

/-- To every point of a run corresponds a point of every run that looks the same. -/
theorem RobotOperation.exists_corresponding {R : Type} {i : Fin jointCount}
    {left right front : List (RobotOperation R)}
    (h : left.filterMap (RobotOperation.onAxis i) = right.filterMap (RobotOperation.onAxis i))
    (hfront : front <+: left) :
    ∃ other, other <+: right ∧ front.filterMap (RobotOperation.onAxis i) =
      other.filterMap (RobotOperation.onAxis i) := by
  have hprefix := hfront.filterMap (RobotOperation.onAxis i)
  rw [h] at hprefix
  exact List.prefix_filterMap_iff.mp hprefix

namespace Robot

/-- Joint `i` of both robots moves alike: position, velocity, target and motor
command. -/
structure SameJoint {R : Type} (i : Fin jointCount) (left right : Robot R) : Prop where
  position : (left.joints i).position = (right.joints i).position
  velocity : (left.joints i).velocity = (right.joints i).velocity
  target : (left.joints i).command.targetPosition = (right.joints i).command.targetPosition
  motor : (left.joints i).motorAcceleration left.motors =
    (right.joints i).motorAcceleration right.motors

theorem SameJoint.of_axis {R : Type} {i : Fin jointCount} {left right : Robot R}
    (h : left.axis i = right.axis i) : SameJoint i left right where
  position := congrArg (fun axis => axis.joint.position) h
  velocity := congrArg (fun axis => axis.joint.velocity) h
  target := congrArg (fun axis => axis.joint.command.targetPosition) h
  motor := by
    rw [Joint.motorAcceleration, Joint.motorAcceleration, left.wired i, right.wired i]
    exact congrArg (fun axis => axis.motor.acceleration) h

variable {R : Type} [Double R]

/-- An index beyond the last joint is refused. -/
theorem apply_of_out_of_range (robot : Robot R) {operation : RobotOperation R}
    {index : JointIndex} (hindex : operation.index = some index)
    (hout : jointCount ≤ index.value) : robot.apply operation = (false, robot) := by
  refine robot.apply_of_unaddressed fun i => RobotOperation.onAxis_of_index_ne hindex ?_
  have hlt := i.isLt
  omega

/-- Two runs that axis `i` cannot tell apart leave it in the same state. -/
theorem axis_run_congr {i : Fin jointCount} {left right : List (RobotOperation R)}
    (h : left.filterMap (RobotOperation.onAxis i) = right.filterMap (RobotOperation.onAxis i))
    (robot : Robot R) : (robot.run left).axis i = (robot.run right).axis i := by
  rw [axis_run, axis_run, h]

end Robot

end RobotController.Core

namespace RobotController.System

open RobotController.Foundation RobotController.Core RobotController.Control

/-! ## The control loop -/

/-- The part of an event that an axis other than the first sees: what is done to the
robot from outside, and the step of each control cycle. -/
def ControllerEvent.onAxis {R τ : Type} [Double R] (i : Fin jointCount) :
    ControllerEvent R τ → Option (AxisOperation R)
  | .operate operation => operation.onAxis i
  | .steer => some (.update ControlLoop.dt)
  | _ => none

namespace Controller

variable {R τ : Type} [Double R]

/-- Steering joint 1 leaves the other joints as they are. -/
theorem axis_steer {i : Fin jointCount} (hi : i ≠ 0) (read : Bool × JointCommand R)
    (robot : Robot R) : (ControlLoop.steer read robot).axis i = robot.axis i := by
  have hne : (0 : Nat) ≠ i := fun h => hi (Fin.ext h.symm)
  unfold ControlLoop.steer
  split
  · have hseen : (RobotOperation.setJointTargetPosition ⟨0⟩ read.2.targetPosition).onAxis i =
        none := if_neg hne
    exact robot.apply_elsewhere _ hseen
  · rfl

variable [IntConversion R] [DecidableEq τ] {s s' : Controller R τ}

theorem axis_step {i : Fin jointCount} (hi : i ≠ 0) {event : ControllerEvent R τ}
    (h : Step s event s') :
    s'.robot.axis i = (s.robot.axis i).run Robot.controller (event.onAxis i).toList := by
  cases h with
  | operate operation _ =>
      have hrun := Robot.axis_run i [operation] s.robot
      cases hseen : operation.onAxis i with
      | none => simpa [ControllerEvent.onAxis, hseen] using hrun
      | some seen => simpa [ControllerEvent.onAxis, hseen] using hrun
  | @steer call read _ _ _ =>
      have hupdate := (ControlLoop.steer read s.robot).axis_update ControlLoop.dt i
      rw [axis_steer hi] at hupdate
      exact hupdate
  | _ => rfl

/-- What becomes of an axis other than the first. -/
theorem axis_execution {i : Fin jointCount} (hi : i ≠ 0) {trace : List (ControllerEvent R τ)}
    (h : Execution Step s trace s') :
    s'.robot.axis i =
      (s.robot.axis i).run Robot.controller (trace.filterMap (ControllerEvent.onAxis i)) := by
  induction h with
  | refl s => rfl
  | @cons s t u event trace hstep _ ih =>
      rw [ih, axis_step hi hstep]
      cases hseen : event.onAxis i with
      | none => simp [hseen]
      | some seen => simp [hseen]

/-- Joints do not influence one another.  In two runs of a new robot that look the same
to joint `i`, that is with the same updates and the same operations addressed to it,
the joint is in the same state at corresponding points, and every point of one run has
a corresponding point in the other.  An index beyond the last joint is refused and
changes nothing.  In particular, joints 2 to 6 go through the same states in any two
executions of the control loop with the same cycles and the same operations on them,
whatever frames were received. -/
theorem joints_independent :
    (∀ (i : Fin jointCount) (left right : List (RobotOperation R)),
      left.filterMap (RobotOperation.onAxis i) = right.filterMap (RobotOperation.onAxis i) →
      (∀ front, front <+: left → ∃ other, other <+: right ∧
        front.filterMap (RobotOperation.onAxis i) =
          other.filterMap (RobotOperation.onAxis i)) ∧
      ∀ front other, front <+: left → other <+: right →
        front.filterMap (RobotOperation.onAxis i) =
          other.filterMap (RobotOperation.onAxis i) →
        Robot.SameJoint i (Robot.initial.run front) (Robot.initial.run other)) ∧
    (∀ (robot : Robot R) (operation : RobotOperation R) (index : JointIndex),
      operation.index = some index → jointCount ≤ index.value →
        robot.apply operation = (false, robot)) ∧
    ∀ (i : Fin jointCount), i ≠ 0 →
      ∀ (start other s s' : Controller R τ) (trace events : List (ControllerEvent R τ)),
        Execution Step start trace s → Execution Step other events s' →
        start.robot = other.robot →
        trace.filterMap (ControllerEvent.onAxis i) =
          events.filterMap (ControllerEvent.onAxis i) →
        Robot.SameJoint i s.robot s'.robot := by
  refine ⟨?_, ?_, ?_⟩
  · intro i left right h
    refine ⟨fun front hfront => RobotOperation.exists_corresponding h hfront, ?_⟩
    intro front other _ _ hsame
    exact .of_axis (Robot.axis_run_congr hsame Robot.initial)
  · intro robot operation index hindex hout
    exact robot.apply_of_out_of_range hindex hout
  · intro i hi start other s s' trace events htrace hevents hrobot hsame
    refine .of_axis ?_
    rw [axis_execution hi htrace, axis_execution hi hevents, hrobot, hsame]

/-- Joint 2 does not notice that joint 1 has been aimed. -/
theorem joints_independent_aimed :
    Robot.SameJoint 1
      ((Robot.initial : Robot ℚ).run [.setJointTargetPosition ⟨0⟩ ⟨20⟩, .update ⟨1⟩])
      (Robot.initial.run [.update ⟨1⟩, .setJointTargetPosition ⟨7⟩ ⟨5⟩]) := by
  obtain ⟨hrobot, -, -⟩ := joints_independent (R := ℚ) (τ := Unit)
  exact (hrobot 1 [.setJointTargetPosition ⟨0⟩ ⟨20⟩, .update ⟨1⟩]
    [.update ⟨1⟩, .setJointTargetPosition ⟨7⟩ ⟨5⟩] rfl).2 _ _ List.prefix_rfl List.prefix_rfl rfl

end Controller

end RobotController.System
