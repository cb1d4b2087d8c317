/-
  Simulation/ControlledMotion.lean --- what drives a joint of the robot.

  In exact arithmetic one update of the robot moves every joint along its track, driven
  by the request of its own controller in that update.  So a joint rests only where the
  controller has nothing to ask for, or asks to go on against a limit; and an acceleration
  that was commanded by hand counts only where it leads to the same place.
-/
import RobotController.Simulation.StepSize

set_option autoImplicit false

namespace RobotController.Simulation

open RobotController.Foundation RobotController.Core RobotController.Control
open RobotController.Safety

/-! ## The command given -/

section Request

variable {K : Type} [Field K] [LinearOrder K]

theorem limits_exact {axis : Axis K} {i : Fin jointCount}
    (h : axis.joint.limits = Robot.limits K i) :
    axis.joint.minPosition.degrees = -(Robot.positionLimit i : K) ∧
      axis.joint.maxPosition.degrees = (Robot.positionLimit i : K) ∧
      axis.joint.maxVelocity.degreesPerSecond = 60 ∧
      axis.joint.maxAcceleration.degreesPerSecondSquared = 30 := by
  simp only [Joint.limits, Robot.limits, Limits.mk.injEq, literal_exact] at h
  obtain ⟨hmin, hmax, hvelocity, hacceleration⟩ := h
  rw [hmin, hmax, hvelocity, hacceleration]
  simp

variable [IsStrictOrderedRing K]

/-- The PD law with its two limits is one clamped expression. -/
theorem calculate_eq_clamped {controller : PDController K} {command : JointCommand K}
    {state : JointState K} (h : 0 ≤ controller.maxAcceleration.degreesPerSecondSquared) :
    controller.calculate command state =
      ⟨max (-controller.maxAcceleration.degreesPerSecondSquared)
        (min (controller.positionGain *
              (command.targetPosition.degrees - state.position.degrees) -
            controller.velocityGain * state.velocity.degreesPerSecond)
          controller.maxAcceleration.degreesPerSecondSquared)⟩ := by
  simp only [PDController.calculate]
  generalize controller.positionGain *
      (command.targetPosition.degrees - state.position.degrees) -
    controller.velocityGain * state.velocity.degreesPerSecond = request
  have hlimits := neg_le_self h
  rcases lt_or_ge controller.maxAcceleration.degreesPerSecondSquared request with hhigh | hhigh
  · rw [if_pos hhigh, if_neg (not_lt.mpr hlimits), min_eq_right hhigh.le, max_eq_right hlimits]
  · rw [if_neg (not_lt.mpr hhigh), min_eq_left hhigh]
    rcases lt_or_ge request (-controller.maxAcceleration.degreesPerSecondSquared) with hlow | hlow
    · rw [if_pos hlow, max_eq_left hlow.le]
    · rw [if_neg (not_lt.mpr hlow), max_eq_right hlow]

/-- What the controller of the robot asks of a joint. -/
def request {μ : Type} (joint : Joint K μ) : K :=
  (Robot.controller.calculate joint.command joint.state).degreesPerSecondSquared

theorem request_eq {μ : Type} (joint : Joint K μ) :
    request joint = max (-30) (min (joint.targetPosition.degrees - joint.position.degrees -
      joint.velocity.degreesPerSecond / 2) 30) := by
  have hlimit : (Robot.controller : PDController K).maxAcceleration.degreesPerSecondSquared =
      30 := by
    simp [Robot.controller, PDController.new]
  have hlaw : (Robot.controller : PDController K).positionGain *
      (joint.command.targetPosition.degrees - joint.state.position.degrees) -
      (Robot.controller : PDController K).velocityGain *
        joint.state.velocity.degreesPerSecond =
      joint.targetPosition.degrees - joint.position.degrees -
        joint.velocity.degreesPerSecond / 2 := by
    simp only [Robot.controller, PDController.new, literal_exact, Joint.state,
      Joint.targetPosition]
    push_cast
    ring
  rw [request, calculate_eq_clamped (by rw [hlimit]; norm_num), hlimit, hlaw]

theorem abs_request_le {μ : Type} (joint : Joint K μ) : |request joint| ≤ 30 := by
  rw [request_eq, abs_le]
  exact ⟨le_max_left _ _, max_le (by norm_num) (min_le_right _ _)⟩

/-- A joint at rest is asked towards its target. -/
theorem request_nonpos_iff {μ : Type} {joint : Joint K μ}
    (h : joint.velocity.degreesPerSecond = 0) :
    request joint ≤ 0 ↔ joint.targetPosition.degrees ≤ joint.position.degrees := by
  rw [request_eq, h, zero_div, sub_zero, max_le_iff, min_le_iff]
  constructor
  · rintro ⟨-, hle | hle⟩
    · linarith
    · norm_num at hle
  · intro hle
    exact ⟨by norm_num, .inl (by linarith)⟩

theorem request_nonneg_iff {μ : Type} {joint : Joint K μ}
    (h : joint.velocity.degreesPerSecond = 0) :
    0 ≤ request joint ↔ joint.position.degrees ≤ joint.targetPosition.degrees := by
  rw [request_eq, h, zero_div, sub_zero, le_max_iff, le_min_iff]
  constructor
  · rintro (hle | ⟨hle, -⟩)
    · norm_num at hle
    · linarith
  · intro hle
    exact .inr ⟨by linarith, by norm_num⟩

variable {axis : Axis K} {i : Fin jointCount}

/-- The controller loop leaves the request on the motor. -/
theorem control_eq_request (h : axis.joint.limits = Robot.limits K i) :
    axis.control Robot.controller = { axis with motor := ⟨⟨request axis.joint⟩⟩ } := by
  obtain ⟨-, -, -, hlimit⟩ := limits_exact h
  obtain ⟨hlow, hhigh⟩ := abs_le.mp (abs_request_le axis.joint)
  have hvalid : SafetyLayer.validate axis.joint ⟨request axis.joint⟩ = true := by
    rw [SafetyLayer.validate_iff, hlimit]
    exact ⟨hhigh, hlow⟩
  have hgranted : axis.granted Robot.controller = ⟨request axis.joint⟩ := by
    rw [Axis.granted]
    exact if_pos hvalid
  have hadmitted : ¬ axis.joint.Exceeds ⟨request axis.joint⟩ := by
    rw [Joint.not_exceeds_iff, hlimit]
    exact abs_request_le axis.joint
  rw [Axis.control_eq, hgranted, Axis.setAcceleration,
    Joint.setAcceleration_of_not_exceeds hadmitted]
  simp [Motors.setAcceleration]

end Request

/-! ## One update of one joint -/

section Track

variable {axis : Axis ℝ} {i : Fin jointCount} {dt : Duration ℝ}

/-- The track of joint `i`. -/
def jointTrack (i : Fin jointCount) : Track where
  lo := -(Robot.positionLimit i : ℝ)
  hi := (Robot.positionLimit i : ℝ)
  speed := 60
  lo_le_hi := neg_le_self (by exact_mod_cast (Robot.positionLimit_pos i).le)
  speed_nonneg := by norm_num

theorem jointTrack_lo_lt_hi (i : Fin jointCount) : (jointTrack i).lo < (jointTrack i).hi :=
  neg_lt_self (by exact_mod_cast Robot.positionLimit_pos i)

theorem follows_jointTrack (h : axis.joint.limits = Robot.limits ℝ i) :
    Follows (jointTrack i) axis := by
  obtain ⟨hmin, hmax, hvelocity, hacceleration⟩ := limits_exact h
  exact ⟨hmin, hmax, hvelocity, by rw [hacceleration]; norm_num⟩

/-- The body of an axis under another motor command. -/
def drivenBy (axis : Axis ℝ) (acceleration : ℝ) : Body :=
  { bodyOf axis with acceleration := acceleration }

/-- An update moves the joint along its track, driven by the request. -/
theorem bodyOf_update (h : axis.joint.limits = Robot.limits ℝ i)
    (hon : (jointTrack i).On (bodyOf axis)) (hdt : 0 < dt.seconds) :
    bodyOf (axis.update Robot.controller dt) =
      (jointTrack i).advance dt.seconds (drivenBy axis (request axis.joint)) := by
  rw [Axis.update, if_neg (not_le.mpr hdt), control_eq_request h]
  exact bodyOf_simulate (follows_jointTrack h) ⟨hon.lo_le, hon.le_hi, hon.speed_le⟩ hdt

/-- Where an update leaves the joint as it is. -/
theorem update_rests_iff (h : axis.joint.limits = Robot.limits ℝ i)
    (hon : (jointTrack i).On (bodyOf axis)) (hdt : 0 < dt.seconds) :
    ((axis.update Robot.controller dt).joint.position = axis.joint.position ∧
        (axis.update Robot.controller dt).joint.velocity = axis.joint.velocity) ↔
      axis.joint.velocity.degreesPerSecond = 0 ∧
        axis.joint.position.degrees =
          clamp (jointTrack i).lo (jointTrack i).hi axis.joint.targetPosition.degrees := by
  have hbody := bodyOf_update h hon hdt
  have hdriven : (jointTrack i).On (drivenBy axis (request axis.joint)) :=
    ⟨hon.lo_le, hon.le_hi, hon.speed_le⟩
  have hrests := Track.rests_iff hdriven (by norm_num [jointTrack]) hdt
  rw [← hbody] at hrests
  have hlow : (jointTrack i).lo ≤ axis.joint.position.degrees := hon.lo_le
  have hhigh : axis.joint.position.degrees ≤ (jointTrack i).hi := hon.le_hi
  have hends := jointTrack_lo_lt_hi i
  rw [Angle.ext_iff, AngularVelocity.ext_iff]
  refine hrests.trans (and_congr_right fun hvelocity => ?_)
  have hback := request_nonpos_iff hvelocity
  have hforward := request_nonneg_iff hvelocity
  change request axis.joint = 0 ∨ axis.joint.position.degrees = _ ∧ request axis.joint ≤ 0 ∨
    axis.joint.position.degrees = _ ∧ 0 ≤ request axis.joint ↔ _
  rw [hback, hforward, le_antisymm_iff (a := request axis.joint), hback, hforward]
  constructor
  · rintro (⟨hle, hge⟩ | ⟨hposition, hle⟩ | ⟨hposition, hge⟩)
    · have htarget := le_antisymm hle hge
      rw [htarget, clamp_of_mem hlow hhigh]
    · rw [hposition, clamp_of_le_lo (hposition ▸ hle)]
    · rw [hposition, clamp_of_hi_le hends.le (hposition ▸ hge)]
  · intro hclamp
    rcases le_total axis.joint.targetPosition.degrees (jointTrack i).lo with hbelow | habove
    · rw [clamp_of_le_lo hbelow] at hclamp
      exact .inr (.inl ⟨hclamp, hclamp ▸ hbelow⟩)
    · rcases le_total (jointTrack i).hi axis.joint.targetPosition.degrees with hbeyond | hwithin
      · rw [clamp_of_hi_le hends.le hbeyond] at hclamp
        exact .inr (.inr ⟨hclamp, hclamp ▸ hbeyond⟩)
      · rw [clamp_of_mem habove hwithin] at hclamp
        exact .inl ⟨hclamp.ge, hclamp.le⟩

end Track

/-! ## The robot -/

/-- The body of axis `i` is within the limits of its joint. -/
theorem on_jointTrack {axis : Axis ℝ} {i : Fin jointCount}
    (h : axis.joint.limits = Robot.limits ℝ i)
    (hp : axis.joint.minPosition.degrees ≤ axis.joint.position.degrees ∧
      axis.joint.position.degrees ≤ axis.joint.maxPosition.degrees)
    (hv : |axis.joint.velocity.degreesPerSecond| ≤ axis.joint.maxVelocity.degreesPerSecond) :
    (jointTrack i).On (bodyOf axis) := by
  have hfollows := follows_jointTrack h
  rw [hfollows.lo, hfollows.hi] at hp
  rw [hfollows.speed] at hv
  exact ⟨hp.1, hp.2, hv⟩

/-- A joint rests only where it should.  An update of a robot as configured leaves position
and velocity of a joint within its limits as they are if and only if the velocity is zero
and the position is the target limited to the range of the joint: a joint that rests is at
its target if the target can be reached, and at the limit on its side otherwise. -/
theorem Robot.joint_rests_iff (robot : Robot ℝ) (hconfigured : robot.Configured)
    (i : Fin jointCount) (dt : Duration ℝ)
    (hp : (robot.joints i).minPosition.degrees ≤ (robot.joints i).position.degrees ∧
      (robot.joints i).position.degrees ≤ (robot.joints i).maxPosition.degrees)
    (hv : |(robot.joints i).velocity.degreesPerSecond| ≤
      (robot.joints i).maxVelocity.degreesPerSecond)
    (hdt : 0 < dt.seconds) :
    let joint := robot.joints i
    let after := (robot.update dt).joints i
    let rests := after.position = joint.position ∧ after.velocity = joint.velocity
    (rests ↔ joint.velocity.degreesPerSecond = 0 ∧
      joint.position.degrees = clamp joint.minPosition.degrees joint.maxPosition.degrees
        joint.targetPosition.degrees) ∧
    (rests → joint.minPosition.degrees ≤ joint.targetPosition.degrees →
      joint.targetPosition.degrees ≤ joint.maxPosition.degrees →
        joint.position = joint.targetPosition) ∧
    (rests → joint.targetPosition.degrees ≤ joint.minPosition.degrees →
      joint.position = joint.minPosition) ∧
    (rests → joint.maxPosition.degrees ≤ joint.targetPosition.degrees →
      joint.position = joint.maxPosition) := by
  intro joint after rests
  have hlimits : (robot.axis i).joint.limits = Robot.limits ℝ i := hconfigured i
  have hfollows := follows_jointTrack hlimits
  have haxis : (robot.update dt).axis i = (robot.axis i).update Robot.controller dt :=
    robot.axis_update dt i
  have hiff : rests ↔ joint.velocity.degreesPerSecond = 0 ∧
      joint.position.degrees = clamp joint.minPosition.degrees joint.maxPosition.degrees
        joint.targetPosition.degrees := by
    have hrests := update_rests_iff hlimits (on_jointTrack hlimits hp hv) hdt
    rw [← haxis, ← hfollows.lo, ← hfollows.hi] at hrests
    exact hrests
  refine ⟨hiff, ?_, ?_, ?_⟩
  · intro hrests hlow hhigh
    have hposition := (hiff.mp hrests).2
    rw [clamp_of_mem hlow hhigh] at hposition
    exact Angle.ext hposition
  · intro hrests hbelow
    have hposition := (hiff.mp hrests).2
    rw [clamp_of_le_lo hbelow] at hposition
    exact Angle.ext hposition
  · intro hrests hbeyond
    have hposition := (hiff.mp hrests).2
    rw [clamp_of_hi_le (hp.1.trans hp.2) hbeyond] at hposition
    exact Angle.ext hposition

/-- Joint 1 at its upper limit with a target ninety degrees beyond it. -/
theorem Robot.joint_rests_atLimit :
    let robot : Robot ℝ := Robot.initial.run
      [.initializeJointPosition ⟨0⟩ ⟨180⟩, .setJointTargetPosition ⟨0⟩ ⟨270⟩]
    ((robot.update ⟨1 / 1000⟩).joints 0).position = (robot.joints 0).maxPosition ∧
      (robot.joints 0).targetPosition = ⟨270⟩ := by
  intro robot
  have hconfigured : robot.Configured := Robot.configured_run _
  have hwithin : (robot.axis 0).WithinLimits := Robot.withinLimits_run _ 0
  have hlimits : (robot.axis 0).joint.limits = Robot.limits ℝ 0 := hconfigured 0
  obtain ⟨-, hmax, -, -⟩ := limits_exact hlimits
  have hstate : (robot.joints 0).state = ⟨⟨180⟩, ⟨0⟩⟩ := by
    norm_num [robot, Robot.run, Robot.apply, Robot.initializeJointPosition, Robot.initial,
      Robot.initialJoints, Joint.initializePosition, Joint.new, Joint.state,
      Robot.setJointTargetPosition, Robot.setJoint, Joint.setTargetPosition, jointCount]
  have hposition : (robot.joints 0).position = ⟨180⟩ := congrArg JointState.position hstate
  have hvelocity : (robot.joints 0).velocity = ⟨0⟩ := congrArg JointState.velocity hstate
  have htarget : (robot.joints 0).targetPosition = ⟨270⟩ := rfl
  have hlimit : (Robot.positionLimit 0 : ℝ) = 180 := by norm_num [Robot.positionLimit]
  have hmax' : (robot.joints 0).maxPosition.degrees = 180 := hmax.trans hlimit
  have hclamped : clamp (robot.joints 0).minPosition.degrees (robot.joints 0).maxPosition.degrees
      (robot.joints 0).targetPosition.degrees = (robot.joints 0).maxPosition.degrees := by
    refine clamp_of_hi_le (hwithin.min_le_position.trans hwithin.position_le_max) ?_
    rw [hmax', htarget]
    norm_num
  have hrests := (Robot.joint_rests_iff robot hconfigured 0 ⟨1 / 1000⟩
    ⟨hwithin.min_le_position, hwithin.position_le_max⟩ hwithin.velocity_le (by norm_num)).1.mpr
    ⟨by rw [hvelocity], by rw [hclamped, hmax', hposition]⟩
  exact ⟨hrests.1.trans (hposition.trans (Angle.ext hmax'.symm)), htarget⟩

/-! ## Acceleration by hand -/

/-- An accepted command is on the motor, and nothing else has changed. -/
theorem axis_setJointAcceleration {robot : Robot ℝ} {i : Fin jointCount} {a : ℝ}
    (h : (robot.setJointAcceleration ⟨i⟩ ⟨a⟩).1 = true) :
    (robot.setJointAcceleration ⟨i⟩ ⟨a⟩).2.axis i = { robot.axis i with motor := ⟨⟨a⟩⟩ } := by
  rw [Robot.setJointAcceleration, dif_pos i.isLt] at h ⊢
  by_cases hexceeds : (robot.joints i).Exceeds ⟨a⟩
  · rw [Joint.setAcceleration_of_exceeds hexceeds] at h
    exact absurd h Bool.false_ne_true
  · rw [Joint.setAcceleration_of_not_exceeds hexceeds]
    simp [Robot.axis, Motors.setAcceleration, robot.wired i]

/-- Whether an update and a simulator step under another command leave the joint in the same
state. -/
theorem state_update_eq_iff {axis : Axis ℝ} {i : Fin jointCount} {dt : Duration ℝ}
    (h : axis.joint.limits = Robot.limits ℝ i) (hon : (jointTrack i).On (bodyOf axis))
    (hdt : 0 < dt.seconds) (a : ℝ) :
    (axis.update Robot.controller dt).joint.state =
        (Axis.simulate dt { axis with motor := ⟨⟨a⟩⟩ }).joint.state ↔
      SameDrive 60 axis.joint.velocity.degreesPerSecond a (request axis.joint) ∨
        ((jointTrack i).free dt.seconds (drivenBy axis a) ≤ (jointTrack i).lo ∧
          (jointTrack i).free dt.seconds (drivenBy axis (request axis.joint)) ≤
            (jointTrack i).lo) ∨
        ((jointTrack i).hi ≤ (jointTrack i).free dt.seconds (drivenBy axis a) ∧
          (jointTrack i).hi ≤
            (jointTrack i).free dt.seconds (drivenBy axis (request axis.joint))) := by
  let commanded : Axis ℝ := { axis with motor := ⟨⟨a⟩⟩ }
  have hdriven : (jointTrack i).On (drivenBy axis a) := ⟨hon.lo_le, hon.le_hi, hon.speed_le⟩
  have hupdate := bodyOf_update h hon hdt
  have hstep : bodyOf (commanded.simulate dt) =
      (jointTrack i).advance dt.seconds (drivenBy axis a) := by
    have hfollows : Follows (jointTrack i) commanded := follows_jointTrack h
    exact bodyOf_simulate hfollows hdriven hdt
  have hposition : (drivenBy axis (request axis.joint)).position = (drivenBy axis a).position :=
    rfl
  have hsame := Track.same_state_iff hdriven (by norm_num [jointTrack]) (jointTrack_lo_lt_hi i)
    hdt hposition rfl
  rw [← hupdate, ← hstep] at hsame
  rw [eq_comm, JointState.ext_iff, Angle.ext_iff, AngularVelocity.ext_iff]
  exact hsame

section Commanded

variable {robot : Robot ℝ} {i : Fin jointCount} {a : ℝ} {dt : Duration ℝ}

theorem accepted_of_abs_le (hconfigured : robot.Configured) (h : |a| ≤ 30) :
    (robot.setJointAcceleration ⟨i⟩ ⟨a⟩).1 = true := by
  have hlimits : (robot.axis i).joint.limits = Robot.limits ℝ i := hconfigured i
  obtain ⟨-, -, -, hlimit⟩ := limits_exact hlimits
  have hadmitted : ¬ (robot.joints i).Exceeds ⟨a⟩ := by
    rw [Joint.not_exceeds_iff]
    exact h.trans_eq hlimit.symm
  rw [Robot.setJointAcceleration, dif_pos i.isLt]
  exact congrArg Prod.fst (Joint.setAcceleration_of_not_exceeds hadmitted _)

/-- The update is driven by the request, with or without the command. -/
theorem state_update_commanded (hconfigured : robot.Configured)
    (haccepted : (robot.setJointAcceleration ⟨i⟩ ⟨a⟩).1 = true) (hdt : 0 < dt.seconds) :
    (((robot.setJointAcceleration ⟨i⟩ ⟨a⟩).2.update dt).joints i).state =
      ((robot.axis i).update Robot.controller dt).joint.state := by
  have haxis := axis_setJointAcceleration haccepted
  have hlimits : (robot.axis i).joint.limits = Robot.limits ℝ i := hconfigured i
  have hcommanded : ((robot.setJointAcceleration ⟨i⟩ ⟨a⟩).2.axis i).joint.limits =
      Robot.limits ℝ i := by
    rw [haxis]
    exact hlimits
  change (((robot.setJointAcceleration ⟨i⟩ ⟨a⟩).2.update dt).axis i).joint.state = _
  rw [Robot.axis_update, Axis.update, Axis.update, if_neg (not_le.mpr hdt),
    if_neg (not_le.mpr hdt), control_eq_request hcommanded, control_eq_request hlimits, haxis]

/-- The simulator step is driven by the command. -/
theorem state_step_commanded (haccepted : (robot.setJointAcceleration ⟨i⟩ ⟨a⟩).1 = true)
    (hdt : 0 < dt.seconds) :
    ((RobotSimulator.update dt (robot.setJointAcceleration ⟨i⟩ ⟨a⟩).2.joints
        (robot.setJointAcceleration ⟨i⟩ ⟨a⟩).2.motors).1 i).state =
      (Axis.simulate dt { robot.axis i with motor := ⟨⟨a⟩⟩ }).joint.state := by
  change (axisOf i (RobotSimulator.update dt _ _)).joint.state = _
  rw [axisOf_update_of_pos (Robot.motors_injective _) hdt, ← Robot.axis_eq_axisOf,
    axis_setJointAcceleration haccepted]

end Commanded

/-- When an acceleration accepted by hand drives the joint.  For every state a new robot
reaches, every joint and every accepted acceleration `a`: the next update advances the joint
as a simulator step under `a` if and only if the request of the controller is the same drive
(equal to `a`, or both push on a joint that moves at its speed limit), or under both the
joint would end at or beyond the same position limit. -/
theorem Robot.manual_acceleration_drives_iff (operations : List (RobotOperation ℝ))
    (i : Fin jointCount) (a : ℝ) (dt : Duration ℝ) (hdt : 0 < dt.seconds)
    (haccepted :
      (((Robot.initial : Robot ℝ).run operations).setJointAcceleration ⟨i⟩ ⟨a⟩).1 = true) :
    let robot := (Robot.initial : Robot ℝ).run operations
    let commanded := (robot.setJointAcceleration ⟨i⟩ ⟨a⟩).2
    let joint := robot.joints i
    let p := joint.position.degrees
    let v := joint.velocity.degreesPerSecond
    let g := max (-30) (min (joint.targetPosition.degrees - p - v / 2) 30)
    ((commanded.update dt).joints i).state =
        ((RobotSimulator.update dt commanded.joints commanded.motors).1 i).state ↔
      (a = g ∨ (v = 60 ∧ 0 ≤ a ∧ 0 ≤ g) ∨ (v = -60 ∧ a ≤ 0 ∧ g ≤ 0)) ∨
        (p + travel 60 v a dt.seconds ≤ joint.minPosition.degrees ∧
          p + travel 60 v g dt.seconds ≤ joint.minPosition.degrees) ∨
        (joint.maxPosition.degrees ≤ p + travel 60 v a dt.seconds ∧
          joint.maxPosition.degrees ≤ p + travel 60 v g dt.seconds) := by
  intro robot commanded joint p v g
  have hlimits : (robot.axis i).joint.limits = Robot.limits ℝ i :=
    Robot.configured_run operations i
  have hwithin : (robot.axis i).WithinLimits := Robot.withinLimits_run operations i
  have hon := on_jointTrack hlimits ⟨hwithin.min_le_position, hwithin.position_le_max⟩
    hwithin.velocity_le
  have hfollows := follows_jointTrack hlimits
  have hiff := state_update_eq_iff hlimits hon hdt a
  rw [← state_update_commanded (Robot.configured_run operations) haccepted hdt,
    ← state_step_commanded haccepted hdt, ← hfollows.lo, ← hfollows.hi, request_eq] at hiff
  exact hiff

/-- Ten degrees from its target the controller asks for ten degrees per second squared. -/
theorem Robot.manual_ten_drives :
    let robot : Robot ℝ := Robot.initial.run [.setJointTargetPosition ⟨0⟩ ⟨10⟩]
    let commanded := (robot.setJointAcceleration ⟨0⟩ ⟨10⟩).2
    ((commanded.update ⟨1 / 10⟩).joints 0).state =
      ((RobotSimulator.update ⟨1 / 10⟩ commanded.joints commanded.motors).1 0).state := by
  intro robot commanded
  have haccepted : (robot.setJointAcceleration ⟨0⟩ ⟨10⟩).1 = true :=
    accepted_of_abs_le (i := 0) (Robot.configured_run _) (by norm_num)
  refine (Robot.manual_acceleration_drives_iff [.setJointTargetPosition ⟨0⟩ ⟨10⟩] 0 10 ⟨1 / 10⟩
    (by norm_num) haccepted).mpr ?_
  left
  left
  have htarget : (robot.joints 0).targetPosition.degrees = 10 := rfl
  have hposition : (robot.joints 0).position.degrees = 0 := rfl
  have hvelocity : (robot.joints 0).velocity.degreesPerSecond = 0 := rfl
  rw [htarget, hposition, hvelocity]
  norm_num

/-- A new robot accepts 10 degrees per second squared for its first joint, and the next update
leaves the joint at rest. -/
theorem Robot.manual_acceleration_overwritten :
    let called := (Robot.initial : Robot ℝ).setJointAcceleration ⟨0⟩ ⟨10⟩
    called.1 = true ∧
      ((called.2.update ⟨1 / 10⟩).joints 0).state = ⟨⟨0⟩, ⟨0⟩⟩ ∧
      ((called.2.update ⟨1 / 10⟩).joints 0).state ≠
        ((RobotSimulator.update ⟨1 / 10⟩ called.2.joints called.2.motors).1 0).state := by
  intro called
  have hdt : (0 : ℝ) < (⟨1 / 10⟩ : Duration ℝ).seconds := by norm_num
  have hconfigured : (Robot.initial : Robot ℝ).Configured := Robot.limits_initial
  have haccepted : called.1 = true := accepted_of_abs_le (i := 0) hconfigured (by norm_num)
  have hlimits : ((Robot.initial : Robot ℝ).axis 0).joint.limits = Robot.limits ℝ 0 :=
    hconfigured 0
  have hwithin := Robot.withinLimits_initial (K := ℝ) 0
  have hon := on_jointTrack hlimits ⟨hwithin.min_le_position, hwithin.position_le_max⟩
    hwithin.velocity_le
  have hrequest : request ((Robot.initial : Robot ℝ).axis 0).joint = 0 := by
    norm_num [request_eq, Robot.axis, Joint.own, Robot.initial, Robot.initialJoints, Joint.new,
      Joint.targetPosition, JointCommand.default]
  have hstate : ((called.2.update ⟨1 / 10⟩).joints 0).state =
      (((Robot.initial : Robot ℝ).axis 0).update Robot.controller ⟨1 / 10⟩).joint.state :=
    state_update_commanded (i := 0) hconfigured haccepted hdt
  have hstep : ((RobotSimulator.update ⟨1 / 10⟩ called.2.joints called.2.motors).1 0).state =
      (Axis.simulate ⟨1 / 10⟩
        { (Robot.initial : Robot ℝ).axis 0 with motor := ⟨⟨10⟩⟩ }).joint.state :=
    state_step_commanded (i := 0) haccepted hdt
  refine ⟨haccepted, ?_, ?_⟩
  · have htarget : ((Robot.initial : Robot ℝ).axis 0).joint.targetPosition.degrees =
        ((Robot.initial : Robot ℝ).axis 0).joint.position.degrees := rfl
    obtain ⟨hposition, hvelocity⟩ := (update_rests_iff hlimits hon hdt).mpr
      ⟨rfl, by rw [htarget]; exact (clamp_of_mem hon.lo_le hon.le_hi).symm⟩
    rw [hstate]
    exact JointState.ext hposition hvelocity
  · intro heq
    rw [hstate, hstep, state_update_eq_iff hlimits hon hdt, hrequest] at heq
    -- Undriven, the joint stays between its limits.
    have hfree : (jointTrack 0).free (1 / 10) (drivenBy ((Robot.initial : Robot ℝ).axis 0) 0) = 0 :=
      (jointTrack 0).free_rest hdt.le 0
    have hlimit : (0 : ℝ) < (Robot.positionLimit 0 : ℝ) := by
      exact_mod_cast Robot.positionLimit_pos 0
    have hvelocity : ((Robot.initial : Robot ℝ).axis 0).joint.velocity.degreesPerSecond = 0 := rfl
    rw [hvelocity, hfree] at heq
    rcases heq with (h | ⟨h, -⟩ | ⟨h, -⟩) | ⟨-, h⟩ | ⟨-, h⟩
    · norm_num at h
    · norm_num at h
    · norm_num at h
    · exact absurd h (not_le.mpr (neg_neg_of_pos hlimit))
    · exact absurd h (not_le.mpr hlimit)

end RobotController.Simulation
