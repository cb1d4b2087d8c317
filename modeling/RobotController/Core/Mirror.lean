/-
  Core/Mirror.lean --- the mirror image of a run.

  The sources treat positive and negative motion in separately written branches: the
  checks of the joint, the clamp of the controller, the safety check, the velocity
  limit and the two position stops.  In exact arithmetic these branches are mirror
  images of one another: a run with every angle and every acceleration negated is the
  run itself with every position, velocity, target and motor command negated.
-/
import RobotController.Core.Configuration
import RobotController.Simulation.Displacement

set_option autoImplicit false

namespace RobotController.Core

open RobotController.Foundation RobotController.Control RobotController.Safety
open RobotController.Simulation

/-! ## Mirror images -/

section Images

variable {R : Type} [Neg R]

def Angle.mirror (angle : Angle R) : Angle R := ⟨-angle.degrees⟩

def AngularVelocity.mirror (velocity : AngularVelocity R) : AngularVelocity R :=
  ⟨-velocity.degreesPerSecond⟩

def AngularAcceleration.mirror (acceleration : AngularAcceleration R) :
    AngularAcceleration R :=
  ⟨-acceleration.degreesPerSecondSquared⟩

def JointState.mirror (state : JointState R) : JointState R :=
  ⟨state.position.mirror, state.velocity.mirror⟩

def JointCommand.mirror (command : JointCommand R) : JointCommand R :=
  ⟨command.targetPosition.mirror⟩

/-- The limits of a joint do not move with it. -/
def Joint.mirror {μ : Type} (joint : Joint R μ) : Joint R μ :=
  { joint with
    position := joint.position.mirror
    command := joint.command.mirror
    velocity := joint.velocity.mirror }

def Axis.mirror (axis : Axis R) : Axis R where
  joint := axis.joint.mirror
  motor := ⟨axis.motor.acceleration.mirror⟩

def AxisOperation.mirror : AxisOperation R → AxisOperation R
  | .initializePosition position => .initializePosition position.mirror
  | .setTargetPosition target => .setTargetPosition target.mirror
  | .setAcceleration acceleration => .setAcceleration acceleration.mirror
  | .update dt => .update dt

/-- The same call with its angle or its acceleration negated. -/
def RobotOperation.mirror : RobotOperation R → RobotOperation R
  | .initializeJointPosition index position => .initializeJointPosition index position.mirror
  | .setJointTargetPosition index target => .setJointTargetPosition index target.mirror
  | .setJointAcceleration index acceleration => .setJointAcceleration index acceleration.mirror
  | .update dt => .update dt

/-- An axis sees the mirror image of what it would see. -/
theorem RobotOperation.onAxis_mirror (i : Fin jointCount) (operation : RobotOperation R) :
    operation.mirror.onAxis i = (operation.onAxis i).map AxisOperation.mirror := by
  cases operation with
  | update dt => rfl
  | _ =>
      simp only [RobotOperation.mirror, RobotOperation.onAxis]
      split <;> rfl

theorem RobotOperation.filterMap_onAxis_mirror (i : Fin jointCount)
    (operations : List (RobotOperation R)) :
    (operations.map RobotOperation.mirror).filterMap (RobotOperation.onAxis i) =
      (operations.filterMap (RobotOperation.onAxis i)).map AxisOperation.mirror := by
  rw [List.filterMap_map, List.map_filterMap]
  congr 1
  funext operation
  exact operation.onAxis_mirror i

end Images

/-! ## One axis -/

section Exact

variable {K : Type} [Field K] [LinearOrder K]

/-- The limits of the joint are symmetric about zero. -/
structure Joint.Symmetric {μ : Type} (joint : Joint K μ) : Prop where
  minPosition : joint.minPosition.degrees = -joint.maxPosition.degrees
  maxPosition : 0 ≤ joint.maxPosition.degrees
  maxVelocity : 0 ≤ joint.maxVelocity.degreesPerSecond

theorem Joint.Symmetric.of_limits {μ : Type} {joint joint' : Joint K μ} (h : joint.Symmetric)
    (hlimits : joint'.limits = joint.limits) : joint'.Symmetric := by
  simp only [Joint.limits, Limits.mk.injEq] at hlimits
  obtain ⟨hmin, hmax, hvelocity, -⟩ := hlimits
  exact ⟨by rw [hmin, hmax]; exact h.minPosition, by rw [hmax]; exact h.maxPosition,
    by rw [hvelocity]; exact h.maxVelocity⟩

/-- A new robot is its own mirror image. -/
theorem Robot.mirror_axis_initial (i : Fin jointCount) :
    ((Robot.initial : Robot K).axis i).mirror = (Robot.initial : Robot K).axis i := by
  simp only [Axis.mirror, Robot.axis, Robot.initial, Robot.initialJoints_apply, Joint.new,
    Joint.own, Joint.mirror, JointCommand.mirror, JointCommand.default, SimulatedMotor.initial,
    Angle.mirror, AngularVelocity.mirror, AngularAcceleration.mirror, neg_zero]

variable [IsStrictOrderedRing K]

/-- A controller whose limit is a magnitude answers the mirror image of a request with
the mirror image of its answer. -/
theorem calculate_mirror {controller : PDController K}
    (hA : 0 ≤ controller.maxAcceleration.degreesPerSecondSquared) (command : JointCommand K)
    (state : JointState K) :
    controller.calculate command.mirror state.mirror =
      (controller.calculate command state).mirror := by
  have hrequest : controller.positionGain *
        (-command.targetPosition.degrees - -state.position.degrees) -
      controller.velocityGain * -state.velocity.degreesPerSecond =
      -(controller.positionGain * (command.targetPosition.degrees - state.position.degrees) -
        controller.velocityGain * state.velocity.degreesPerSecond) := by ring
  simp only [PDController.calculate, JointCommand.mirror, JointState.mirror, Angle.mirror,
    AngularVelocity.mirror, AngularAcceleration.mirror, hrequest, AngularAcceleration.mk.injEq]
  split_ifs <;> linarith

theorem Joint.exceeds_mirror {μ : Type} {joint : Joint K μ}
    {acceleration : AngularAcceleration K} :
    joint.mirror.Exceeds acceleration.mirror ↔ joint.Exceeds acceleration := by
  unfold Joint.Exceeds
  simp only [Joint.mirror, AngularAcceleration.mirror, neg_lt_neg_iff]
  rw [lt_neg, or_comm]

namespace Axis

variable {axis : Axis K}

theorem mirror_initializePosition (h : axis.joint.Symmetric) (position : Angle K) :
    axis.mirror.initializePosition position.mirror =
      ((axis.initializePosition position).1, (axis.initializePosition position).2.mirror) := by
  have hrange : (position.mirror.degrees < axis.joint.mirror.minPosition.degrees ∨
      axis.joint.mirror.maxPosition.degrees < position.mirror.degrees) ↔
      (position.degrees < axis.joint.minPosition.degrees ∨
        axis.joint.maxPosition.degrees < position.degrees) := by
    simp only [Joint.mirror, Angle.mirror, h.minPosition, neg_lt_neg_iff]
    rw [lt_neg, or_comm]
  simp only [Axis.initializePosition, Joint.initializePosition, Axis.mirror, hrange]
  split_ifs <;> rfl

theorem mirror_setAcceleration (acceleration : AngularAcceleration K) :
    axis.mirror.setAcceleration acceleration.mirror =
      ((axis.setAcceleration acceleration).1, (axis.setAcceleration acceleration).2.mirror) := by
  by_cases h : axis.joint.Exceeds acceleration
  · have hmirror : axis.joint.mirror.Exceeds acceleration.mirror := Joint.exceeds_mirror.mpr h
    simp only [Axis.setAcceleration, Axis.mirror, Joint.setAcceleration_of_exceeds h,
      Joint.setAcceleration_of_exceeds hmirror]
  · have hmirror : ¬ axis.joint.mirror.Exceeds acceleration.mirror := fun he =>
      h (Joint.exceeds_mirror.mp he)
    simp only [Axis.setAcceleration, Axis.mirror, Joint.setAcceleration_of_not_exceeds h,
      Joint.setAcceleration_of_not_exceeds hmirror, Motors.setAcceleration,
      Function.update_self]

/-- The safety check does not tell a request from its mirror image. -/
theorem mirror_granted {controller : PDController K}
    (hA : 0 ≤ controller.maxAcceleration.degreesPerSecondSquared) :
    axis.mirror.granted controller = (axis.granted controller).mirror := by
  have hrequest : controller.calculate axis.mirror.joint.command axis.mirror.joint.state =
      (controller.calculate axis.joint.command axis.joint.state).mirror :=
    calculate_mirror hA axis.joint.command axis.joint.state
  have hvalid : SafetyLayer.validate axis.mirror.joint
        (controller.calculate axis.joint.command axis.joint.state).mirror = true ↔
      SafetyLayer.validate axis.joint
        (controller.calculate axis.joint.command axis.joint.state) = true := by
    rw [SafetyLayer.validate_iff, SafetyLayer.validate_iff]
    simp only [Axis.mirror, Joint.mirror, AngularAcceleration.mirror, neg_le_neg_iff]
    rw [neg_le, and_comm]
  simp only [granted, hrequest, hvalid]
  split_ifs
  · rfl
  · simp [AngularAcceleration.mirror]

theorem mirror_control {controller : PDController K}
    (hA : 0 ≤ controller.maxAcceleration.degreesPerSecondSquared) :
    axis.mirror.control controller = (axis.control controller).mirror := by
  rw [control_eq, control_eq, mirror_granted hA, mirror_setAcceleration]

theorem mirror_stopAt (limit : Angle K) :
    axis.mirror.stopAt limit.mirror = (axis.stopAt limit).mirror := by
  have hzero : (⟨0⟩ : AngularAcceleration K) = AngularAcceleration.mirror ⟨0⟩ := by
    simp [AngularAcceleration.mirror]
  have hmotor := congrArg (fun stopped => stopped.2.motor) (axis.mirror_setAcceleration ⟨0⟩)
  rw [← hzero] at hmotor
  simp only [stopAt, hmotor]
  simp [Axis.mirror, Joint.mirror, Joint.simulate, AngularVelocity.mirror]

theorem mirror_newPosition (h : axis.joint.Symmetric) (dt : Duration K) :
    newPosition dt axis.mirror.joint axis.mirror.motor.acceleration.degreesPerSecondSquared =
      -newPosition dt axis.joint axis.motor.acceleration.degreesPerSecondSquared := by
  have hvelocity : initialVelocity axis.mirror.joint = -initialVelocity axis.joint :=
    stdClamp_neg h.maxVelocity
  simp only [newPosition, hvelocity]
  simp only [Axis.mirror, Joint.mirror, Angle.mirror, AngularAcceleration.mirror]
  rw [displacement_neg h.maxVelocity]
  ring

theorem mirror_finalVelocity (h : axis.joint.Symmetric) (dt : Duration K) :
    finalVelocity dt axis.mirror.joint axis.mirror.motor.acceleration.degreesPerSecondSquared =
      -finalVelocity dt axis.joint axis.motor.acceleration.degreesPerSecondSquared := by
  have hvelocity : initialVelocity axis.mirror.joint = -initialVelocity axis.joint :=
    stdClamp_neg h.maxVelocity
  simp only [finalVelocity, hvelocity]
  simp only [Axis.mirror, Joint.mirror, AngularAcceleration.mirror]
  rw [← stdClamp_neg h.maxVelocity]
  ring_nf

/-- The mirror image is stopped at the minimum when the axis would be at the maximum. -/
theorem mirror_le_min_iff (h : axis.joint.Symmetric) (dt : Duration K) :
    newPosition dt axis.mirror.joint axis.mirror.motor.acceleration.degreesPerSecondSquared ≤
        axis.mirror.joint.minPosition.degrees ↔
      axis.joint.maxPosition.degrees ≤
        newPosition dt axis.joint axis.motor.acceleration.degreesPerSecondSquared := by
  rw [mirror_newPosition h]
  change _ ≤ axis.joint.minPosition.degrees ↔ _
  rw [h.minPosition, neg_le_neg_iff]

theorem mirror_max_le_iff (h : axis.joint.Symmetric) (dt : Duration K) :
    axis.mirror.joint.maxPosition.degrees ≤
        newPosition dt axis.mirror.joint axis.mirror.motor.acceleration.degreesPerSecondSquared ↔
      newPosition dt axis.joint axis.motor.acceleration.degreesPerSecondSquared ≤
        axis.joint.minPosition.degrees := by
  rw [mirror_newPosition h]
  change axis.joint.maxPosition.degrees ≤ _ ↔ _
  rw [h.minPosition, le_neg]

/-- The simulator step: the two position stops exchange their parts. -/
theorem mirror_simulate (h : axis.joint.Symmetric) (dt : Duration K) :
    axis.mirror.simulate dt = (axis.simulate dt).mirror := by
  have hmin : axis.joint.minPosition = axis.joint.maxPosition.mirror := Angle.ext h.minPosition
  have hmax : axis.joint.maxPosition = axis.joint.minPosition.mirror := by
    rw [hmin]
    simp [Angle.mirror]
  have hlimit := h.minPosition
  have hpositive := h.maxPosition
  by_cases hlow : newPosition dt axis.joint axis.motor.acceleration.degreesPerSecondSquared ≤
      axis.joint.minPosition.degrees
  · rw [simulate_of_le_min hlow, ← mirror_stopAt, ← hmax]
    by_cases hhigh : axis.joint.maxPosition.degrees ≤
        newPosition dt axis.joint axis.motor.acceleration.degreesPerSecondSquared
    · -- Both stops apply: the joint cannot move at all.
      have hsame : axis.mirror.joint.minPosition = axis.joint.maxPosition := by
        ext1
        change axis.joint.minPosition.degrees = _
        linarith
      rw [simulate_of_le_min ((mirror_le_min_iff h dt).mpr hhigh), hsame]
    · exact simulate_of_max_le (mt (mirror_le_min_iff h dt).mp hhigh)
        ((mirror_max_le_iff h dt).mpr hlow)
  · by_cases hhigh : axis.joint.maxPosition.degrees ≤
        newPosition dt axis.joint axis.motor.acceleration.degreesPerSecondSquared
    · rw [simulate_of_max_le hlow hhigh, ← mirror_stopAt, ← hmin]
      exact simulate_of_le_min ((mirror_le_min_iff h dt).mpr hhigh)
    · rw [simulate_of_between hlow hhigh,
        simulate_of_between (mt (mirror_le_min_iff h dt).mp hhigh)
          (mt (mirror_max_le_iff h dt).mp hlow),
        mirror_newPosition h, mirror_finalVelocity h]
      rfl

theorem mirror_update {controller : PDController K}
    (hA : 0 ≤ controller.maxAcceleration.degreesPerSecondSquared) (h : axis.joint.Symmetric)
    (dt : Duration K) :
    axis.mirror.update controller dt = (axis.update controller dt).mirror := by
  unfold Axis.update
  split
  · exact mirror_control hA
  · have hcontrol : (axis.control controller).joint.Symmetric := h
    rw [mirror_control hA]
    exact mirror_simulate hcontrol dt

/-- Every operation on the mirror image of an axis answers as the operation itself does,
and leaves the mirror image. -/
theorem mirror_apply {controller : PDController K}
    (hA : 0 ≤ controller.maxAcceleration.degreesPerSecondSquared) (h : axis.joint.Symmetric)
    (operation : AxisOperation K) :
    axis.mirror.apply controller operation.mirror =
      ((axis.apply controller operation).1, (axis.apply controller operation).2.mirror) := by
  cases operation with
  | initializePosition position => exact mirror_initializePosition h position
  | setTargetPosition target => rfl
  | setAcceleration acceleration => exact mirror_setAcceleration acceleration
  | update dt => exact congrArg (Prod.mk true) (mirror_update hA h dt)

theorem mirror_run {controller : PDController K}
    (hA : 0 ≤ controller.maxAcceleration.degreesPerSecondSquared) :
    ∀ (operations : List (AxisOperation K)) {axis : Axis K}, axis.joint.Symmetric →
      axis.mirror.run controller (operations.map AxisOperation.mirror) =
        (axis.run controller operations).mirror := by
  intro operations
  induction operations with
  | nil =>
      intro axis _
      rfl
  | cons operation rest ih =>
      intro axis h
      rw [List.map_cons, Axis.run_cons, Axis.run_cons, mirror_apply hA h]
      exact ih (h.of_limits (axis.limits_apply controller operation))

end Axis

/-! ## Robots -/

namespace Robot

theorem maxAcceleration_controller :
    0 ≤ (controller : PDController K).maxAcceleration.degreesPerSecondSquared := by
  simp [controller, PDController.new]

/-- The joints of a robot are symmetric. -/
theorem Configured.symmetric {robot : Robot K} (h : robot.Configured) (i : Fin jointCount) :
    (robot.axis i).joint.Symmetric := by
  have hlimits : (robot.axis i).joint.limits = limits K i := h i
  simp only [Joint.limits, limits, Limits.mk.injEq] at hlimits
  obtain ⟨hmin, hmax, hvelocity, -⟩ := hlimits
  have hpos : (0 : K) ≤ (positionLimit i : K) := by
    exact_mod_cast (positionLimit_pos i).le
  exact ⟨by simp [hmin, hmax], by simpa [hmax] using hpos, by simp [hvelocity]⟩

/-- One axis of the mirrored run. -/
theorem axis_run_mirror (operations : List (RobotOperation K)) (i : Fin jointCount) :
    ((initial : Robot K).run (operations.map RobotOperation.mirror)).axis i =
      (((initial : Robot K).run operations).axis i).mirror := by
  have hsymmetric : ((initial : Robot K).axis i).joint.Symmetric :=
    Configured.symmetric (configured_run []) i
  rw [axis_run, axis_run, RobotOperation.filterMap_onAxis_mirror, ← mirror_axis_initial i,
    Axis.mirror_run maxAcceleration_controller _ hsymmetric, mirror_axis_initial i]

/-- An operation on the mirrored run answers as it does on the run. -/
theorem fst_apply_mirror (operations : List (RobotOperation K)) (operation : RobotOperation K) :
    (((initial : Robot K).run (operations.map RobotOperation.mirror)).apply
        operation.mirror).1 = (((initial : Robot K).run operations).apply operation).1 := by
  by_cases haddressed : ∃ i, operation.onAxis i ≠ none
  · obtain ⟨i, hne⟩ := haddressed
    obtain ⟨seen, hseen⟩ := Option.ne_none_iff_exists'.mp hne
    have hmirror : operation.mirror.onAxis i = some seen.mirror := by
      rw [operation.onAxis_mirror, hseen]
      rfl
    have hsymmetric := Configured.symmetric (configured_run (R := K) operations) i
    rw [(apply_addressed _ _ hseen).1, (apply_addressed _ _ hmirror).1, axis_run_mirror,
      Axis.mirror_apply maxAcceleration_controller hsymmetric]
  · have hnone : ∀ i, operation.onAxis i = none := by simpa using haddressed
    have hmirror : ∀ i, operation.mirror.onAxis i = none := by
      intro i
      rw [operation.onAxis_mirror, hnone i]
      rfl
    rw [apply_of_unaddressed _ hnone, apply_of_unaddressed _ hmirror]

/-- Mirror symmetry of whole runs: the run with every angle and acceleration negated
gives the same answers, and after every operation the negated positions, velocities,
targets and motor commands. -/
theorem run_mirror (operations : List (RobotOperation K)) :
    let robot := (initial : Robot K).run operations
    let image := (initial : Robot K).run (operations.map RobotOperation.mirror)
    (∀ operation, (image.apply operation.mirror).1 = (robot.apply operation).1) ∧
      ∀ i, (image.joints i).position.degrees = -(robot.joints i).position.degrees ∧
        (image.joints i).velocity.degreesPerSecond =
          -(robot.joints i).velocity.degreesPerSecond ∧
        (image.joints i).targetPosition.degrees = -(robot.joints i).targetPosition.degrees ∧
        ((image.joints i).motorAcceleration image.motors).degreesPerSecondSquared =
          -((robot.joints i).motorAcceleration robot.motors).degreesPerSecondSquared := by
  intro robot image
  refine ⟨fst_apply_mirror operations, fun i => ?_⟩
  have haxis : image.axis i = (robot.axis i).mirror := axis_run_mirror operations i
  have hjoint := congrArg Axis.joint haxis
  have hmotor := congrArg (fun axis => axis.motor.acceleration.degreesPerSecondSquared) haxis
  refine ⟨congrArg (fun joint => joint.position.degrees) hjoint,
    congrArg (fun joint => joint.velocity.degreesPerSecond) hjoint,
    congrArg (fun joint => joint.command.targetPosition.degrees) hjoint, ?_⟩
  rw [Joint.motorAcceleration, Joint.motorAcceleration, image.wired i, robot.wired i]
  exact hmotor

/-- A joint that is started at ten degrees, aimed at twenty and advanced for a second. -/
theorem run_mirror_aimed :
    let operations : List (RobotOperation ℚ) := [.initializeJointPosition ⟨1⟩ ⟨10⟩,
      .setJointTargetPosition ⟨1⟩ ⟨20⟩, .update ⟨1⟩]
    (((initial : Robot ℚ).run (operations.map RobotOperation.mirror)).joints 1).position.degrees =
      -(((initial : Robot ℚ).run operations).joints 1).position.degrees := by
  intro operations
  exact ((run_mirror operations).2 1).1

end Robot

end Exact

end RobotController.Core
