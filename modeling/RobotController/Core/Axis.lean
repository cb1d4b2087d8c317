/-
  Core/Axis.lean --- the robot as six independent axes.

  The two loops of `Robot::update` thread one state through all joints: they
  share the controller, the safety layer, the simulator's span and an array of
  motors that is written through references.  An `Axis` is one joint with the
  motor it alone drives.  The results of this file say that the robot is nothing
  more than six of them: every operation of the robot acts on the axis it
  addresses as the joint's own code does, and on no other.
-/
import RobotController.Core.Robot
import Mathlib.Algebra.Order.Group.Abs

set_option autoImplicit false

namespace RobotController.Core

open RobotController.Foundation RobotController.Control RobotController.Safety
open RobotController.Simulation

/-! ## Axes -/

/-- A joint and the one motor it drives. -/
@[ext] structure Axis (R : Type) where
  joint : Joint R Unit
  motor : SimulatedMotor R
  deriving DecidableEq, Repr

/-- The joint, forgetting which motor of many its reference names. -/
def Joint.own {R μ : Type} (joint : Joint R μ) : Joint R Unit where
  position := joint.position
  command := joint.command
  velocity := joint.velocity
  minPosition := joint.minPosition
  maxPosition := joint.maxPosition
  maxVelocity := joint.maxVelocity
  maxAcceleration := joint.maxAcceleration
  motor := ()

namespace Axis

variable {R : Type}

variable [Double R]

/-- `Joint::initializePosition`. -/
def initializePosition (axis : Axis R) (position : Angle R) : Bool × Axis R :=
  ((axis.joint.initializePosition position).1,
    { axis with joint := (axis.joint.initializePosition position).2 })

/-- `Joint::setTargetPosition`. -/
def setTargetPosition (axis : Axis R) (target : Angle R) : Axis R :=
  { axis with joint := axis.joint.setTargetPosition target }

/-- `Joint::setAcceleration`. -/
def setAcceleration (axis : Axis R) (acceleration : AngularAcceleration R) : Bool × Axis R :=
  ((axis.joint.setAcceleration (fun _ => axis.motor) acceleration).1,
    { axis with motor := (axis.joint.setAcceleration (fun _ => axis.motor) acceleration).2 () })

/-- The body of the controller loop. -/
def control (controller : PDController R) (axis : Axis R) : Axis R :=
  { axis with motor := controlJoint controller axis.joint (fun _ => axis.motor) () }

/-- The body of the simulator loop. -/
def simulate (dt : Duration R) (axis : Axis R) : Axis R where
  joint := (updateJoint dt axis.joint (fun _ => axis.motor)).1
  motor := (updateJoint dt axis.joint (fun _ => axis.motor)).2 ()

/-- What one `Robot::update` does to one axis. -/
def update (controller : PDController R) (dt : Duration R) (axis : Axis R) : Axis R :=
  if dt.seconds ≤ 0 then
    axis.control controller
  else
    (axis.control controller).simulate dt

/-- The command the controller loop gives the joint: the request if it is safe, and zero
otherwise. -/
def granted (controller : PDController R) (axis : Axis R) : AngularAcceleration R :=
  let requested := controller.calculate axis.joint.command axis.joint.state
  if SafetyLayer.validate axis.joint requested then requested else ⟨0⟩

theorem control_eq (controller : PDController R) (axis : Axis R) :
    axis.control controller = (axis.setAcceleration (axis.granted controller)).2 := by
  simp only [control, granted, controlJoint]
  split_ifs <;> rfl

end Axis

@[simp] theorem Joint.own_maxAcceleration {R μ : Type} (joint : Joint R μ) :
    joint.own.maxAcceleration = joint.maxAcceleration := rfl

namespace Axis

variable {R : Type} [Double R]

/-- What a position stop does: the joint rests at the limit and the motor command
is cleared. -/
def stopAt (axis : Axis R) (limit : Angle R) : Axis R where
  joint := axis.joint.simulate ⟨0⟩ limit
  motor := (axis.setAcceleration ⟨0⟩).2.motor

variable {axis : Axis R} {dt : Duration R}

theorem simulate_of_le_min
    (h : newPosition dt axis.joint axis.motor.acceleration.degreesPerSecondSquared ≤
      axis.joint.minPosition.degrees) :
    axis.simulate dt = axis.stopAt axis.joint.minPosition := by
  have hstep : updateJoint dt axis.joint (fun _ => axis.motor) = _ :=
    updateJoint_of_le_min h
  exact Axis.ext (congrArg Prod.fst hstep) (congrFun (congrArg Prod.snd hstep) ())

theorem simulate_of_max_le
    (hmin : ¬ newPosition dt axis.joint axis.motor.acceleration.degreesPerSecondSquared ≤
      axis.joint.minPosition.degrees)
    (hmax : axis.joint.maxPosition.degrees ≤
      newPosition dt axis.joint axis.motor.acceleration.degreesPerSecondSquared) :
    axis.simulate dt = axis.stopAt axis.joint.maxPosition := by
  have hstep : updateJoint dt axis.joint (fun _ => axis.motor) = _ :=
    updateJoint_of_max_le hmin hmax
  exact Axis.ext (congrArg Prod.fst hstep) (congrFun (congrArg Prod.snd hstep) ())

theorem simulate_of_between
    (hmin : ¬ newPosition dt axis.joint axis.motor.acceleration.degreesPerSecondSquared ≤
      axis.joint.minPosition.degrees)
    (hmax : ¬ axis.joint.maxPosition.degrees ≤
      newPosition dt axis.joint axis.motor.acceleration.degreesPerSecondSquared) :
    axis.simulate dt =
      { axis with
        joint := axis.joint.simulate
          ⟨finalVelocity dt axis.joint axis.motor.acceleration.degreesPerSecondSquared⟩
          ⟨newPosition dt axis.joint axis.motor.acceleration.degreesPerSecondSquared⟩ } := by
  have hstep : updateJoint dt axis.joint (fun _ => axis.motor) = _ :=
    updateJoint_of_between hmin hmax
  exact Axis.ext (congrArg Prod.fst hstep) (congrFun (congrArg Prod.snd hstep) ())

end Axis

/-! ## Joint functions reach only their own motor -/

section Local

variable {R μ : Type} [Double R] [DecidableEq μ]

/-- A command beyond the limit of the joint: the test of `Joint::setAcceleration`. -/
def Joint.Exceeds (joint : Joint R μ) (acceleration : AngularAcceleration R) : Prop :=
  joint.maxAcceleration.degreesPerSecondSquared < acceleration.degreesPerSecondSquared ∨
    acceleration.degreesPerSecondSquared < -joint.maxAcceleration.degreesPerSecondSquared

theorem Joint.setAcceleration_of_exceeds {joint : Joint R μ}
    {acceleration : AngularAcceleration R} (h : joint.Exceeds acceleration)
    (motors : Motors R μ) : joint.setAcceleration motors acceleration = (false, motors) :=
  if_pos h

theorem Joint.setAcceleration_of_not_exceeds {joint : Joint R μ}
    {acceleration : AngularAcceleration R} (h : ¬ joint.Exceeds acceleration)
    (motors : Motors R μ) :
    joint.setAcceleration motors acceleration =
      (true, motors.setAcceleration joint.motor acceleration) :=
  if_neg h

theorem Joint.fst_setAcceleration_own (joint : Joint R μ) (motors : Motors R μ)
    (acceleration : AngularAcceleration R) :
    (joint.setAcceleration motors acceleration).1 =
      (joint.own.setAcceleration (fun _ => motors joint.motor) acceleration).1 := by
  by_cases h : joint.Exceeds acceleration
  · have hown : joint.own.Exceeds acceleration := h
    rw [setAcceleration_of_exceeds h, setAcceleration_of_exceeds hown]
  · have hown : ¬ joint.own.Exceeds acceleration := h
    rw [setAcceleration_of_not_exceeds h, setAcceleration_of_not_exceeds hown]

theorem Joint.snd_setAcceleration_own (joint : Joint R μ) (motors : Motors R μ)
    (acceleration : AngularAcceleration R) :
    (joint.setAcceleration motors acceleration).2 joint.motor =
      (joint.own.setAcceleration (fun _ => motors joint.motor) acceleration).2 () := by
  by_cases h : joint.Exceeds acceleration
  · have hown : joint.own.Exceeds acceleration := h
    rw [setAcceleration_of_exceeds h, setAcceleration_of_exceeds hown]
  · have hown : ¬ joint.own.Exceeds acceleration := h
    rw [setAcceleration_of_not_exceeds h, setAcceleration_of_not_exceeds hown]
    simp [Motors.setAcceleration, own]

theorem Joint.snd_setAcceleration_of_ne (joint : Joint R μ) (motors : Motors R μ)
    (acceleration : AngularAcceleration R) {m : μ} (h : m ≠ joint.motor) :
    (joint.setAcceleration motors acceleration).2 m = motors m := by
  by_cases hexceeds : joint.Exceeds acceleration
  · rw [setAcceleration_of_exceeds hexceeds]
  · rw [setAcceleration_of_not_exceeds hexceeds]
    exact Function.update_of_ne h _ _

theorem controlJoint_own (controller : PDController R) (joint : Joint R μ)
    (motors : Motors R μ) :
    controlJoint controller joint motors joint.motor =
      controlJoint controller joint.own (fun _ => motors joint.motor) () := by
  by_cases h : SafetyLayer.validate joint (controller.calculate joint.command joint.state) = true
  · have hown : SafetyLayer.validate joint.own
        (controller.calculate joint.own.command joint.own.state) = true := h
    simp only [controlJoint, if_pos h, if_pos hown]
    exact joint.snd_setAcceleration_own motors _
  · have hown : ¬ SafetyLayer.validate joint.own
        (controller.calculate joint.own.command joint.own.state) = true := h
    simp only [controlJoint, if_neg h, if_neg hown]
    exact joint.snd_setAcceleration_own motors _

theorem controlJoint_of_ne (controller : PDController R) (joint : Joint R μ)
    (motors : Motors R μ) {m : μ} (h : m ≠ joint.motor) :
    controlJoint controller joint motors m = motors m := by
  unfold controlJoint
  split <;> exact joint.snd_setAcceleration_of_ne motors _ h

/-- The three cases of the write-back, for a joint and for the same joint alone
with its motor. -/
theorem updateJoint_own_cases (dt : Duration R) (joint : Joint R μ) (motors : Motors R μ) :
    (∃ position,
      updateJoint dt joint motors =
        (joint.simulate ⟨0⟩ position, (joint.setAcceleration motors ⟨0⟩).2) ∧
      updateJoint dt joint.own (fun _ => motors joint.motor) =
        (joint.own.simulate ⟨0⟩ position,
          (joint.own.setAcceleration (fun _ => motors joint.motor) ⟨0⟩).2)) ∨
    (∃ velocity position,
      updateJoint dt joint motors = (joint.simulate velocity position, motors) ∧
      updateJoint dt joint.own (fun _ => motors joint.motor) =
        (joint.own.simulate velocity position, fun _ => motors joint.motor)) := by
  by_cases hmin : newPosition dt joint (joint.motorAcceleration motors).degreesPerSecondSquared ≤
      joint.minPosition.degrees
  · exact .inl ⟨_, updateJoint_of_le_min hmin, updateJoint_of_le_min hmin⟩
  · by_cases hmax : joint.maxPosition.degrees ≤
        newPosition dt joint (joint.motorAcceleration motors).degreesPerSecondSquared
    · exact .inl ⟨_, updateJoint_of_max_le hmin hmax, updateJoint_of_max_le hmin hmax⟩
    · exact .inr ⟨_, _, updateJoint_of_between hmin hmax, updateJoint_of_between hmin hmax⟩

theorem fst_updateJoint_own (dt : Duration R) (joint : Joint R μ) (motors : Motors R μ) :
    (updateJoint dt joint motors).1.own =
      (updateJoint dt joint.own (fun _ => motors joint.motor)).1 := by
  obtain ⟨_, h, hown⟩ | ⟨_, _, h, hown⟩ := updateJoint_own_cases dt joint motors
  · rw [h, hown]
    rfl
  · rw [h, hown]
    rfl

theorem snd_updateJoint_own (dt : Duration R) (joint : Joint R μ) (motors : Motors R μ) :
    (updateJoint dt joint motors).2 joint.motor =
      (updateJoint dt joint.own (fun _ => motors joint.motor)).2 () := by
  obtain ⟨_, h, hown⟩ | ⟨_, _, h, hown⟩ := updateJoint_own_cases dt joint motors
  · rw [h, hown]
    exact joint.snd_setAcceleration_own motors _
  · rw [h, hown]

theorem snd_updateJoint_of_ne (dt : Duration R) (joint : Joint R μ) (motors : Motors R μ)
    {m : μ} (h : m ≠ joint.motor) : (updateJoint dt joint motors).2 m = motors m := by
  obtain ⟨_, hstep, _⟩ | ⟨_, _, hstep, _⟩ := updateJoint_own_cases dt joint motors
  · rw [hstep]
    exact joint.snd_setAcceleration_of_ne motors _ h
  · rw [hstep]

end Local

/-! ## The acceleration limit in exact arithmetic -/

section Exact

variable {K μ : Type} [Field K] [LinearOrder K] [IsStrictOrderedRing K]

/-- In exact arithmetic the test of `Joint::setAcceleration` rejects exactly the
commands whose magnitude exceeds the limit. -/
theorem Joint.not_exceeds_iff {joint : Joint K μ} {acceleration : AngularAcceleration K} :
    ¬ joint.Exceeds acceleration ↔
      |acceleration.degreesPerSecondSquared| ≤
        joint.maxAcceleration.degreesPerSecondSquared := by
  unfold Joint.Exceeds
  rw [not_or, not_lt, not_lt, abs_le]
  exact and_comm

/-- The zero command is never rejected by a joint with a sensible limit. -/
theorem Joint.not_exceeds_zero {joint : Joint K μ}
    (h : 0 ≤ joint.maxAcceleration.degreesPerSecondSquared) : ¬ joint.Exceeds ⟨0⟩ := by
  rw [Joint.not_exceeds_iff]
  simpa using h

end Exact

/-! ## The two loops act axis by axis -/

section Loops

variable {R μ : Type} [Double R] [DecidableEq μ] {n : Nat}

/-- The axis of joint `i` in a span. -/
def axisOf (i : Fin n) (s : (Fin n → Joint R μ) × Motors R μ) : Axis R :=
  ⟨(s.1 i).own, s.2 (s.1 i).motor⟩

/-- No two joints of the span drive the same motor. -/
def DistinctMotors (s : (Fin n → Joint R μ) × Motors R μ) : Prop :=
  Function.Injective fun i => (s.1 i).motor

theorem localBody_updateAt (dt : Duration R) :
    LocalBody (DistinctMotors (R := R) (μ := μ) (n := n)) axisOf
      (fun _ => Axis.simulate dt) (updateAt dt) where
  good i s h := by
    intro j k hjk
    simp only [motor_updateAt] at hjk
    exact h hjk
  own i s _ := by
    ext1
    · simp [axisOf, updateAt, Axis.simulate, fst_updateJoint_own]
    · simp [axisOf, updateAt, Axis.simulate, snd_updateJoint_own]
  other i j s h hne := by
    have hmotor : (s.1 j).motor ≠ (s.1 i).motor := fun he => hne (h he).symm
    simp [axisOf, updateAt, Function.update_of_ne (Ne.symm hne),
      snd_updateJoint_of_ne dt _ _ hmotor]

theorem localBody_controlJoint (controller : PDController R) (joints : Fin n → Joint R μ)
    (h : Function.Injective fun i => (joints i).motor) :
    LocalBody (fun _ : Motors R μ => True) (fun i motors => motors (joints i).motor)
      (fun i motor => controlJoint controller (joints i).own (fun _ => motor) ())
      (fun i motors => controlJoint controller (joints i) motors) where
  good _ _ _ := trivial
  own i motors _ := controlJoint_own controller (joints i) motors
  other i _ motors _ hne :=
    controlJoint_of_ne controller (joints i) motors fun he => hne (h he).symm

/-- One step of the simulator on a span, joint by joint. -/
theorem axisOf_update (dt : Duration R) {joints : Fin n → Joint R μ} {motors : Motors R μ}
    (h : Function.Injective fun i => (joints i).motor) (i : Fin n) :
    axisOf i (RobotSimulator.update dt joints motors) =
      if dt.seconds ≤ 0 then axisOf i (joints, motors)
      else (axisOf i (joints, motors)).simulate dt := by
  have hdistinct : DistinctMotors (joints, motors) := h
  unfold RobotSimulator.update
  split
  · rfl
  · exact (localBody_updateAt dt).view_sweep_finRange hdistinct i

/-- The controller loop, joint by joint. -/
theorem axisOf_controlJoints (controller : PDController R) {joints : Fin n → Joint R μ}
    {motors : Motors R μ} (h : Function.Injective fun i => (joints i).motor) (i : Fin n) :
    axisOf i (joints, controlJoints controller joints motors) =
      (axisOf i (joints, motors)).control controller := by
  ext1
  · rfl
  · exact (localBody_controlJoint controller joints h).view_sweep_finRange trivial i

end Loops

/-! ## The axes of a robot -/

namespace Robot

variable {R : Type}

/-- Axis `i` of the robot. -/
def axis (robot : Robot R) (i : Fin jointCount) : Axis R :=
  ⟨(robot.joints i).own, robot.motors i⟩

theorem axis_eq_axisOf (robot : Robot R) (i : Fin jointCount) :
    robot.axis i = axisOf i (robot.joints, robot.motors) := by
  simp [axis, axisOf, robot.wired i]

theorem motors_injective (robot : Robot R) :
    Function.Injective fun i => (robot.joints i).motor := by
  intro i j h
  simpa [robot.wired] using h

theorem axis_setJoint (robot : Robot R) (i j : Fin jointCount)
    (joint : Joint R (Fin jointCount)) (h : joint.motor = (robot.joints i).motor) :
    (robot.setJoint i joint h).axis j =
      if j = i then { robot.axis i with joint := joint.own } else robot.axis j := by
  rcases eq_or_ne j i with rfl | hne
  · simp [setJoint, axis]
  · simp [setJoint, axis, hne]

variable [Double R]

/-- **The robot is six axes**: one `Robot::update` is one axis update each. -/
theorem axis_update (robot : Robot R) (dt : Duration R) (i : Fin jointCount) :
    (robot.update dt).axis i = (robot.axis i).update controller dt := by
  have hinj := robot.motors_injective
  calc (robot.update dt).axis i
      = axisOf i (RobotSimulator.update dt robot.joints
          (controlJoints controller robot.joints robot.motors)) :=
        (robot.update dt).axis_eq_axisOf i
    _ = (robot.axis i).update controller dt := by
        rw [axisOf_update dt hinj, axisOf_controlJoints controller hinj,
          ← robot.axis_eq_axisOf i]
        rfl

end Robot

end RobotController.Core
