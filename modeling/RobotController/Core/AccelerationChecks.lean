/-
  Core/AccelerationChecks.lean --- two checks of one limit.

  `SafetyLayer::validate` accepts what is finite and within the limit of the joint;
  `Joint::setAcceleration` rejects what is outside it.  On numbers this is the same; the
  results of this file follow NaN and the infinities through both, as the request and as
  the limit, and through the controller loop that relies on their agreement.
-/
import RobotController.Core.FiniteArguments

set_option autoImplicit false

namespace RobotController.Core

open RobotController.Foundation RobotController.Control RobotController.Safety
open RobotController.Simulation Extended

/-! ## Both predicates -/

section Checks

variable {μ : Type} {joint : Joint Extended μ} {requested : AngularAcceleration Extended}

/-- The request is a number within a limit that is a number. -/
def Joint.Within (joint : Joint Extended μ) (requested : AngularAcceleration Extended) : Prop :=
  ∃ q limit : ℚ, requested.degreesPerSecondSquared = fin q ∧
    joint.maxAcceleration.degreesPerSecondSquared = fin limit ∧ |q| ≤ limit

/-- What the safety layer accepts. -/
theorem validate_iff_within :
    SafetyLayer.validate joint requested = true ↔ joint.Within requested := by
  unfold Joint.Within
  obtain ⟨value⟩ := requested
  cases value with
  | fin q =>
      cases hlimit : joint.maxAcceleration.degreesPerSecondSquared with
      | fin limit => simp [SafetyLayer.validate, hlimit, abs_le, and_comm]
      | _ => simp [SafetyLayer.validate, hlimit]
  | _ => simp [SafetyLayer.validate]

/-- What the joint accepts: a request within the limit, and whatever the two comparisons
cannot tell from one. -/
theorem not_exceeds_iff_within_or :
    ¬ joint.Exceeds requested ↔ joint.Within requested ∨
      requested.degreesPerSecondSquared = nan ∨
      joint.maxAcceleration.degreesPerSecondSquared = nan ∨
      joint.maxAcceleration.degreesPerSecondSquared = posInf := by
  obtain ⟨value⟩ := requested
  have hposInf : -posInf = negInf := rfl
  have hnegInf : -negInf = posInf := rfl
  have hnan : -nan = nan := rfl
  have hlt : negInf < posInf := rfl
  unfold Joint.Exceeds Joint.Within
  cases value <;> cases hlimit : joint.maxAcceleration.degreesPerSecondSquared <;>
    simp [hposInf, hnegInf, hnan, hlt, abs_le, and_comm]

variable [DecidableEq μ]

/-- The two checks agree on a request: the joint forwards to its motor what the safety layer
accepts, and refuses everything else with the motors unchanged. -/
def Joint.ChecksAgree (joint : Joint Extended μ) (motors : Motors Extended μ)
    (requested : AngularAcceleration Extended) : Prop :=
  joint.setAcceleration motors requested =
    if SafetyLayer.validate joint requested then
      (true, motors.setAcceleration joint.motor requested)
    else
      (false, motors)

/-- They disagree only where a comparison with NaN or with an infinite limit says nothing. -/
theorem Joint.checksAgree_iff {motors : Motors Extended μ} :
    joint.ChecksAgree motors requested ↔
      requested.degreesPerSecondSquared ≠ nan ∧
        joint.maxAcceleration.degreesPerSecondSquared ≠ nan ∧
        joint.maxAcceleration.degreesPerSecondSquared ≠ posInf := by
  unfold Joint.ChecksAgree
  by_cases hexceeds : joint.Exceeds requested
  · have hspecial := hexceeds
    rw [← not_not (a := joint.Exceeds requested), not_exceeds_iff_within_or] at hspecial
    obtain ⟨hwithin, hrequested, hnan, hinf⟩ : ¬ joint.Within requested ∧ _ ∧ _ ∧ _ := by
      simpa only [not_or] using hspecial
    rw [setAcceleration_of_exceeds hexceeds, if_neg (mt validate_iff_within.mp hwithin)]
    exact iff_of_true rfl ⟨hrequested, hnan, hinf⟩
  · rw [setAcceleration_of_not_exceeds hexceeds]
    by_cases hwithin : joint.Within requested
    · rw [if_pos (validate_iff_within.mpr hwithin)]
      refine iff_of_true rfl ?_
      obtain ⟨q, limit, hq, hlimit, -⟩ := hwithin
      rw [hq, hlimit]
      simp
    · -- Accepted by the joint alone.
      rw [if_neg (mt validate_iff_within.mp hwithin)]
      refine iff_of_false (fun h => Bool.noConfusion (congrArg Prod.fst h)) ?_
      rintro ⟨hrequested, hnan, hinf⟩
      rcases not_exceeds_iff_within_or.mp hexceeds with h | h | h | h
      · exact hwithin h
      · exact hrequested h
      · exact hnan h
      · exact hinf h

/-- A joint that refuses what the safety layer refuses agrees with it. -/
theorem Joint.validate_of_accepted_iff {motors : Motors Extended μ} :
    ((joint.setAcceleration motors requested).1 = true →
      SafetyLayer.validate joint requested = true) ↔ joint.ChecksAgree motors requested := by
  unfold Joint.ChecksAgree
  by_cases hvalid : SafetyLayer.validate joint requested = true
  · have hwithin := validate_iff_within.mp hvalid
    rw [if_pos hvalid,
      setAcceleration_of_not_exceeds (not_exceeds_iff_within_or.mpr (.inl hwithin))]
    exact iff_of_true (fun _ => hvalid) rfl
  · rw [if_neg hvalid]
    by_cases hexceeds : joint.Exceeds requested
    · rw [setAcceleration_of_exceeds hexceeds]
      exact iff_of_true (fun h => absurd h Bool.false_ne_true) rfl
    · rw [setAcceleration_of_not_exceeds hexceeds]
      refine iff_of_false (fun h => hvalid (h rfl)) ?_
      exact fun h => Bool.noConfusion (congrArg Prod.fst h)

end Checks

/-- Where the two acceleration checks agree, for every joint and request: exactly where
the request is not NaN and the limit is neither NaN nor infinite upwards.  The direct path
to the motor of a robot is as strict as the controlled one for the same requests. -/
theorem acceleration_checks_agree_iff {μ : Type} [DecidableEq μ] (joint : Joint Extended μ)
    (motors : Motors Extended μ) (robot : Robot Extended) (i : Fin jointCount)
    (requested : AngularAcceleration Extended) :
    (joint.ChecksAgree motors requested ↔
      requested.degreesPerSecondSquared ≠ nan ∧
        joint.maxAcceleration.degreesPerSecondSquared ≠ nan ∧
        joint.maxAcceleration.degreesPerSecondSquared ≠ posInf) ∧
    (((robot.setJointAcceleration ⟨i⟩ requested).1 = true →
        SafetyLayer.validate (robot.joints i) requested = true) ↔
      requested.degreesPerSecondSquared ≠ nan ∧
        (robot.joints i).maxAcceleration.degreesPerSecondSquared ≠ nan ∧
        (robot.joints i).maxAcceleration.degreesPerSecondSquared ≠ posInf) := by
  refine ⟨Joint.checksAgree_iff, ?_⟩
  have hcall : (robot.setJointAcceleration ⟨i⟩ requested).1 =
      ((robot.joints i).setAcceleration robot.motors requested).1 := by
    rw [Robot.setJointAcceleration, dif_pos i.isLt]
  rw [hcall, Joint.validate_of_accepted_iff, Joint.checksAgree_iff]

/-- A new robot accepts NaN for its first joint and forwards it to the motor; the safety
layer rejects it for the same joint. -/
theorem nan_acceleration_forwarded :
    ((Robot.initial : Robot Extended).setJointAcceleration ⟨0⟩ ⟨nan⟩).1 = true ∧
      ((Robot.initial : Robot Extended).setJointAcceleration ⟨0⟩ ⟨nan⟩).2.motors 0 = ⟨⟨nan⟩⟩ ∧
      SafetyLayer.validate ((Robot.initial : Robot Extended).joints 0) ⟨nan⟩ = false ∧
      ¬ ((Robot.initial : Robot Extended).joints 0).ChecksAgree Robot.initial.motors ⟨nan⟩ := by
  refine ⟨rfl, rfl, rfl, ?_⟩
  rw [Joint.checksAgree_iff]
  exact fun h => h.1 rfl

/-! ## The controller loop -/

namespace Axis

variable {axis : Axis Extended}

/-- The command given is never refused: an accepted request is within the limit, and zero is
within every limit that is not negative. -/
theorem not_exceeds_granted (controller : PDController Extended)
    (h : 0 ≤ axis.joint.maxAcceleration.degreesPerSecondSquared) :
    ¬ axis.joint.Exceeds (axis.granted controller) := by
  rw [not_exceeds_iff_within_or]
  unfold granted
  dsimp only
  split_ifs with hvalid
  · exact .inl (validate_iff_within.mp hvalid)
  · cases hlimit : axis.joint.maxAcceleration.degreesPerSecondSquared with
    | fin limit =>
        rw [hlimit, zero_eq, fin_le] at h
        exact .inl ⟨0, limit, rfl, hlimit, by rwa [abs_zero]⟩
    | posInf => exact .inr (.inr (.inr rfl))
    | nan => exact absurd (hlimit ▸ h) not_le_nan
    | negInf => exact absurd (hlimit ▸ h) not_fin_le_negInf

/-- After the loop the motor holds the command given, whatever it held before. -/
theorem motor_control (controller : PDController Extended)
    (h : 0 ≤ axis.joint.maxAcceleration.degreesPerSecondSquared) :
    (axis.control controller).motor = ⟨axis.granted controller⟩ := by
  rw [control_eq, setAcceleration,
    Joint.setAcceleration_of_not_exceeds (not_exceeds_granted controller h)]
  simp [Motors.setAcceleration]

end Axis

/-- A number that comes out of the two limits of the controller is between them. -/
theorem abs_le_of_limited {x : Extended} {q bound : ℚ} (hbound : 0 ≤ bound)
    (h : (if (if fin bound < x then fin bound else x) < -fin bound then -fin bound
      else if fin bound < x then fin bound else x) = fin q) : |q| ≤ bound := by
  rw [abs_le]
  rw [fin_neg] at h
  split_ifs at h with hhigh hlow hlow
  · exact absurd (fin_lt.mp hlow) (not_lt.mpr (neg_le_self hbound))
  · obtain rfl := fin.inj h
    exact ⟨neg_le_self hbound, le_refl bound⟩
  · obtain rfl := fin.inj h
    exact ⟨le_refl _, neg_le_self hbound⟩
  · subst h
    rw [fin_lt, not_lt] at hhigh hlow
    exact ⟨hlow, hhigh⟩

/-- A finite request of the controller of a robot is within its limit. -/
theorem abs_le_of_calculate {command : JointCommand Extended} {state : JointState Extended}
    {q : ℚ} (h : (Robot.controller.calculate command state).degreesPerSecondSquared = fin q) :
    |q| ≤ 30 :=
  abs_le_of_limited (by norm_num) h

namespace Robot

variable {robot : Robot Extended} {i : Fin jointCount}

theorem motor_controlJoints (controller : PDController Extended) (robot : Robot Extended)
    (i : Fin jointCount) :
    controlJoints controller robot.joints robot.motors i =
      ((robot.axis i).control controller).motor := by
  have haxis : axisOf i (robot.joints, controlJoints controller robot.joints robot.motors) =
      (robot.axis i).control controller := by
    rw [axisOf_controlJoints controller robot.motors_injective, robot.axis_eq_axisOf i]
  rw [← haxis, axisOf, robot.wired i]

/-- The safety layer accepts the requests of the controller of a robot that are finite. -/
theorem validate_calculate (h : robot.Configured)
    (hfinite : isFinite (controller.calculate (robot.joints i).command
      (robot.joints i).state).degreesPerSecondSquared = true) :
    SafetyLayer.validate (robot.joints i)
      (controller.calculate (robot.joints i).command (robot.joints i).state) = true := by
  obtain ⟨q, hq⟩ := isFinite_iff.mp hfinite
  have hlimit : (robot.joints i).maxAcceleration.degreesPerSecondSquared = fin 30 :=
    congrArg (fun limits => limits.maxAcceleration.degreesPerSecondSquared) (h i)
  exact validate_iff_within.mpr ⟨q, 30, hq, hlimit, abs_le_of_calculate hq⟩

/-- Finite targets and states are answered by finite requests. -/
theorem validate_calculate_of_finite (h : robot.Configured)
    (htarget : isFinite (robot.joints i).targetPosition.degrees = true)
    (hstate : (robot.joints i).state.Finite) :
    SafetyLayer.validate (robot.joints i)
      (controller.calculate (robot.joints i).command (robot.joints i).state) = true := by
  obtain ⟨t, ht⟩ := isFinite_iff.mp htarget
  obtain ⟨p, hp⟩ := isFinite_iff.mp hstate.position
  obtain ⟨v, hv⟩ := isFinite_iff.mp hstate.velocity
  have hcommand : (robot.joints i).command = ⟨⟨fin t⟩⟩ := JointCommand.ext (Angle.ext ht)
  have hactual : (robot.joints i).state = ⟨⟨fin p⟩, ⟨fin v⟩⟩ :=
    JointState.ext (Angle.ext hp) (AngularVelocity.ext hv)
  refine validate_calculate h ?_
  rw [hcommand, hactual, Axis.calculate_fin]
  rfl

/-- Every control update issues a fresh, safe motor command to every joint.  For every
controller and every limit that is not negative, each motor holds the request of the
controller if that is a number within a limit that is a number, and zero otherwise; the call
made for the joint is never refused.  On a robot as configured a request is rejected only if
it is not finite, and finite targets and states are answered by accepted requests. -/
theorem control_loop_issues_fresh_commands :
    (∀ (controller : PDController Extended) (robot : Robot Extended) (i : Fin jointCount),
      0 ≤ (robot.joints i).maxAcceleration.degreesPerSecondSquared →
        let joint := robot.joints i
        let requested := controller.calculate joint.command joint.state
        let issued := if SafetyLayer.validate joint requested then requested else ⟨0⟩
        let motors := controlJoints controller robot.joints robot.motors
        (joint.Within requested → (motors i).acceleration = requested) ∧
          (¬ joint.Within requested → (motors i).acceleration = ⟨0⟩) ∧
          ∀ current : Motors Extended (Fin jointCount),
            controlJoint controller joint current = (joint.setAcceleration current issued).2 ∧
              (joint.setAcceleration current issued).1 = true) ∧
    ∀ (robot : Robot Extended) (i : Fin jointCount), robot.Configured →
      let joint := robot.joints i
      let requested := Robot.controller.calculate joint.command joint.state
      (SafetyLayer.validate joint requested = false →
          isFinite requested.degreesPerSecondSquared = false) ∧
        (isFinite joint.targetPosition.degrees = true → joint.state.Finite →
          SafetyLayer.validate joint requested = true) := by
  refine ⟨?_, ?_⟩
  · intro controller robot i h joint requested issued motors
    have hlimit : 0 ≤ (robot.axis i).joint.maxAcceleration.degreesPerSecondSquared := h
    have hissued : (robot.axis i).granted controller = issued := rfl
    have hmotor : (motors i).acceleration = issued := by
      have hloop := motor_controlJoints controller robot i
      rw [Axis.motor_control controller hlimit, hissued] at hloop
      exact congrArg SimulatedMotor.acceleration hloop
    refine ⟨?_, ?_, ?_⟩
    · intro hwithin
      rw [hmotor]
      exact if_pos (validate_iff_within.mpr hwithin)
    · intro hwithin
      rw [hmotor]
      exact if_neg (mt validate_iff_within.mp hwithin)
    · intro current
      have hadmitted : ¬ joint.Exceeds issued := Axis.not_exceeds_granted controller hlimit
      refine ⟨?_, ?_⟩
      · simp only [controlJoint, issued, requested]
        split_ifs <;> rfl
      · rw [Joint.setAcceleration_of_not_exceeds hadmitted]
  · intro robot i h joint requested
    refine ⟨?_, ?_⟩
    · intro hrejected
      by_contra hfinite
      rw [Bool.not_eq_false] at hfinite
      have hvalid := validate_calculate h hfinite
      exact absurd (hrejected.symm.trans hvalid) Bool.false_ne_true
    · intro htarget hstate
      exact validate_calculate_of_finite h htarget hstate

/-- A new robot under a controller whose gain is NaN, and under its own. -/
theorem control_loop_of_new_robot :
    (controlJoints (PDController.new ⟨nan, fin 1, ⟨posInf⟩⟩) (initial : Robot Extended).joints
        (fun _ => ⟨⟨nan⟩⟩) 0).acceleration = ⟨0⟩ ∧
      SafetyLayer.validate ((initial : Robot Extended).joints 0)
        (controller.calculate ((initial : Robot Extended).joints 0).command
          ((initial : Robot Extended).joints 0).state) = true := by
  let stale : Robot Extended := { (initial : Robot Extended) with motors := fun _ => ⟨⟨nan⟩⟩ }
  refine ⟨?_, ?_⟩
  · refine (control_loop_issues_fresh_commands.1 _ stale 0 rfl).2.1 ?_
    rintro ⟨q, limit, hq, -⟩
    exact absurd hq (by simp [PDController.calculate, PDController.new])
  · exact (control_loop_issues_fresh_commands.2 initial 0 limits_initial).2 rfl ⟨rfl, rfl⟩

end Robot

end RobotController.Core
