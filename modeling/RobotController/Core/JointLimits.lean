/-
  Core/JointLimits.lean --- the safety limits of a joint, over whole runs.

  Position, velocity and motor command of a joint are bounded together: the
  simulator keeps the position by overwriting it at the stops, the velocity by
  clamping it, and the motor command is what `Joint::setAcceleration` admitted
  last.  The invariant is proved for one axis and one operation, lifted to runs
  of one axis, and then carried to the robot by `Robot.axis_run`.
-/
import RobotController.Core.RobotRun
import Mathlib.Algebra.Order.Group.Abs
import Mathlib.Tactic.NormNum

set_option autoImplicit false

namespace RobotController.Core

open RobotController.Foundation RobotController.Control RobotController.Safety
open RobotController.Simulation

section Exact

variable {K : Type} [Field K] [LinearOrder K]

/-! ## The invariant -/

/-- The joint is within its limits. -/
structure Axis.WithinLimits (axis : Axis K) : Prop where
  min_le_position : axis.joint.minPosition.degrees ≤ axis.joint.position.degrees
  position_le_max : axis.joint.position.degrees ≤ axis.joint.maxPosition.degrees
  velocity_le : |axis.joint.velocity.degreesPerSecond| ≤ axis.joint.maxVelocity.degreesPerSecond
  acceleration_le : |axis.motor.acceleration.degreesPerSecondSquared| ≤
    axis.joint.maxAcceleration.degreesPerSecondSquared

/-- The joint is within its limits, its position perhaps not. -/
structure Axis.Moderate (axis : Axis K) : Prop where
  min_le_max : axis.joint.minPosition.degrees ≤ axis.joint.maxPosition.degrees
  velocity_le : |axis.joint.velocity.degreesPerSecond| ≤ axis.joint.maxVelocity.degreesPerSecond
  acceleration_le : |axis.motor.acceleration.degreesPerSecondSquared| ≤
    axis.joint.maxAcceleration.degreesPerSecondSquared

theorem Axis.WithinLimits.moderate {axis : Axis K} (h : axis.WithinLimits) : axis.Moderate :=
  ⟨h.min_le_position.trans h.position_le_max, h.velocity_le, h.acceleration_le⟩

theorem Axis.Moderate.maxVelocity_nonneg [IsStrictOrderedRing K] {axis : Axis K}
    (h : axis.Moderate) : 0 ≤ axis.joint.maxVelocity.degreesPerSecond :=
  (abs_nonneg _).trans h.velocity_le

/-! ## Each operation keeps it -/

namespace Axis

variable {axis : Axis K}

theorem WithinLimits.initializePosition (h : axis.WithinLimits) (position : Angle K) :
    (axis.initializePosition position).2.WithinLimits := by
  unfold Axis.initializePosition Joint.initializePosition
  split
  · exact h
  next hrange =>
    rw [not_or, not_lt, not_lt] at hrange
    exact ⟨hrange.1, hrange.2, h.velocity_le, h.acceleration_le⟩

theorem WithinLimits.setTargetPosition (h : axis.WithinLimits) (target : Angle K) :
    (axis.setTargetPosition target).WithinLimits :=
  ⟨h.min_le_position, h.position_le_max, h.velocity_le, h.acceleration_le⟩

end Axis

variable [IsStrictOrderedRing K]

section Operations

variable {μ : Type}

/-- Whatever is asked of it, the motor holds a command within the limit. -/
theorem Joint.abs_setAcceleration_le [DecidableEq μ] {joint : Joint K μ} {motors : Motors K μ}
    (h : |(motors joint.motor).acceleration.degreesPerSecondSquared| ≤
      joint.maxAcceleration.degreesPerSecondSquared) (acceleration : AngularAcceleration K) :
    |((joint.setAcceleration motors acceleration).2 joint.motor).acceleration.degreesPerSecondSquared| ≤
      joint.maxAcceleration.degreesPerSecondSquared := by
  by_cases hexceeds : joint.Exceeds acceleration
  · rw [setAcceleration_of_exceeds hexceeds]
    exact h
  · rw [setAcceleration_of_not_exceeds hexceeds]
    simpa [Motors.setAcceleration] using not_exceeds_iff.mp hexceeds

end Operations

namespace Axis

variable {axis : Axis K}

theorem Moderate.setAcceleration (h : axis.Moderate) (acceleration : AngularAcceleration K) :
    (axis.setAcceleration acceleration).2.Moderate :=
  ⟨h.min_le_max, h.velocity_le, Joint.abs_setAcceleration_le h.acceleration_le acceleration⟩

theorem WithinLimits.setAcceleration (h : axis.WithinLimits)
    (acceleration : AngularAcceleration K) :
    (axis.setAcceleration acceleration).2.WithinLimits :=
  ⟨h.min_le_position, h.position_le_max, h.velocity_le,
    (h.moderate.setAcceleration acceleration).acceleration_le⟩

theorem WithinLimits.control (h : axis.WithinLimits) (controller : PDController K) :
    (axis.control controller).WithinLimits := by
  refine ⟨h.min_le_position, h.position_le_max, h.velocity_le, ?_⟩
  unfold Axis.control controlJoint
  split <;> exact Joint.abs_setAcceleration_le h.acceleration_le _

/-- A position stop: the position is overwritten by the limit it reached. -/
theorem Moderate.stopAt (h : axis.Moderate) {limit : Angle K}
    (hmin : axis.joint.minPosition.degrees ≤ limit.degrees)
    (hmax : limit.degrees ≤ axis.joint.maxPosition.degrees) :
    (axis.stopAt limit).WithinLimits where
  min_le_position := hmin
  position_le_max := hmax
  velocity_le := by simpa [Axis.stopAt, Joint.simulate] using h.maxVelocity_nonneg
  acceleration_le := (h.setAcceleration ⟨0⟩).acceleration_le

/-- The simulator step, wherever the joint was: the two stops overwrite the position by a
limit, and between them the position has been compared and the velocity clamped. -/
theorem Moderate.simulate (h : axis.Moderate) (dt : Duration K) :
    (axis.simulate dt).WithinLimits := by
  by_cases hmin : newPosition dt axis.joint axis.motor.acceleration.degreesPerSecondSquared ≤
      axis.joint.minPosition.degrees
  · rw [simulate_of_le_min hmin]
    exact h.stopAt (le_refl _) h.min_le_max
  · by_cases hmax : axis.joint.maxPosition.degrees ≤
        newPosition dt axis.joint axis.motor.acceleration.degreesPerSecondSquared
    · rw [simulate_of_max_le hmin hmax]
      exact h.stopAt h.min_le_max (le_refl _)
    · rw [simulate_of_between hmin hmax]
      have hlimits : -axis.joint.maxVelocity.degreesPerSecond ≤
          axis.joint.maxVelocity.degreesPerSecond := neg_le_self h.maxVelocity_nonneg
      exact ⟨(not_le.mp hmin).le, (not_le.mp hmax).le,
        abs_le.mpr ⟨le_stdClamp hlimits, stdClamp_le hlimits⟩, h.acceleration_le⟩

theorem WithinLimits.update (h : axis.WithinLimits) (controller : PDController K)
    (dt : Duration K) : (axis.update controller dt).WithinLimits := by
  unfold Axis.update
  split
  · exact h.control controller
  · exact (h.control controller).moderate.simulate dt

theorem WithinLimits.apply (controller : PDController K) (axis : Axis K)
    (operation : AxisOperation K) (h : axis.WithinLimits) :
    (axis.apply controller operation).2.WithinLimits := by
  cases operation with
  | initializePosition position => exact h.initializePosition position
  | setTargetPosition target => exact h.setTargetPosition target
  | setAcceleration acceleration => exact h.setAcceleration acceleration
  | update dt => exact h.update controller dt

theorem WithinLimits.run (h : axis.WithinLimits) (controller : PDController K)
    (operations : List (AxisOperation K)) : (axis.run controller operations).WithinLimits :=
  Axis.run_keeps Axis.WithinLimits (WithinLimits.apply controller) operations axis h

end Axis

/-! ## Robots -/

/-- The configured position limits: joint `i` moves between `-positionLimit i`
and `positionLimit i` degrees. -/
def Robot.positionLimit : Fin jointCount → ℚ := ![180, 90, 180, 180, 90, 180]

theorem Robot.initialJoints_apply {R : Type} [Double R] : ∀ i : Fin jointCount,
    (Robot.initialJoints i : Joint R (Fin jointCount)) =
      Joint.new ⟨literal (-Robot.positionLimit i)⟩ ⟨literal (Robot.positionLimit i)⟩
        ⟨literal 60⟩ ⟨literal 30⟩ i
  | 0 => rfl
  | 1 => rfl
  | 2 => rfl
  | 3 => rfl
  | 4 => rfl
  | 5 => rfl

theorem Robot.positionLimit_pos : ∀ i : Fin jointCount, 0 < Robot.positionLimit i := by
  decide

/-- Every joint of a new robot starts within its limits. -/
theorem Robot.withinLimits_initial (i : Fin jointCount) :
    ((Robot.initial : Robot K).axis i).WithinLimits := by
  have hpos : (0 : K) ≤ (Robot.positionLimit i : K) := by
    exact_mod_cast (Robot.positionLimit_pos i).le
  simp only [Robot.axis, Robot.initial, Robot.initialJoints_apply, Joint.new, Joint.own,
    SimulatedMotor.initial, literal_exact]
  constructor <;> simp [hpos]

/-- The invariant over every run of a new robot. -/
theorem Robot.withinLimits_run (operations : List (RobotOperation K)) (i : Fin jointCount) :
    (((Robot.initial : Robot K).run operations).axis i).WithinLimits := by
  rw [Robot.axis_run]
  exact (Robot.withinLimits_initial i).run _ _

end Exact

/-- A time step that is not positive moves no joint. -/
theorem Robot.joints_update_of_nonpos {R : Type} [Double R] (robot : Robot R) {dt : Duration R}
    (h : dt.seconds ≤ 0) : (robot.update dt).joints = robot.joints := by
  simp only [Robot.update, RobotSimulator.update, if_pos h]

/-- Joint safety over whole runs: after every sequence of operations on a new
robot, every joint is within its position, velocity and acceleration limits, and
an update with a non-positive time step moves none of them. -/
theorem Robot.safety_limits_hold (operations : List (RobotOperation ℚ)) :
    let robot := (Robot.initial : Robot ℚ).run operations
    (∀ i, (robot.joints i).minPosition.degrees ≤ (robot.joints i).position.degrees ∧
      (robot.joints i).position.degrees ≤ (robot.joints i).maxPosition.degrees ∧
      |(robot.joints i).velocity.degreesPerSecond| ≤
        (robot.joints i).maxVelocity.degreesPerSecond ∧
      |((robot.joints i).motorAcceleration robot.motors).degreesPerSecondSquared| ≤
        (robot.joints i).maxAcceleration.degreesPerSecondSquared) ∧
    ∀ dt : Duration ℚ, dt.seconds ≤ 0 → ∀ i,
      ((robot.update dt).joints i).position = (robot.joints i).position ∧
        ((robot.update dt).joints i).velocity = (robot.joints i).velocity := by
  intro robot
  refine ⟨?_, ?_⟩
  · intro i
    have h : (robot.axis i).WithinLimits := Robot.withinLimits_run operations i
    refine ⟨h.min_le_position, h.position_le_max, h.velocity_le, ?_⟩
    rw [Joint.motorAcceleration, robot.wired i]
    exact h.acceleration_le
  · intro dt hdt i
    rw [robot.joints_update_of_nonpos hdt]
    exact ⟨rfl, rfl⟩

end RobotController.Core
