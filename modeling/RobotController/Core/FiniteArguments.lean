/-
  Core/FiniteArguments.lean --- arguments that are not finite.

  The safety layer rejects accelerations that are not finite; the other entry points
  compare their arguments with limits, and a comparison with NaN is false.  This file
  follows NaN and the infinities through every operation of a robot and says exactly
  which calls leave positions or velocities that are not finite.
-/
import RobotController.Core.Configuration
import RobotController.Foundation.Extended
import Mathlib.Tactic.Ring

set_option autoImplicit false

namespace RobotController.Core

open RobotController.Foundation RobotController.Control RobotController.Safety
open RobotController.Simulation Extended

/-! ## Distances -/

section Displacement

variable {V v a T : ℚ}

/-- On finite values the arithmetic is exact. -/
theorem displacement_fin :
    displacement (fin V) (fin v) (fin a) (fin T) = fin (displacement V v a T) := by
  by_cases ha : a = 0
  · subst ha
    simp [displacement, stdClamp_fin]
  · have htarget : (if 0 < a then fin V else fin (-V)) = fin (if 0 < a then V else -V) :=
      (apply_ite fin _ _ _).symm
    simp only [displacement, zero_eq, literal_eq, literal_exact, Rat.cast_id, fin_add, fin_mul,
      fin_neg, fin_lt, fin_le, stdClamp_fin, ne_eq, fin.injEq, htarget, fin_sub, fin_div ha]
    split_ifs <;> rfl

/-- In an unbounded time an accelerated joint covers an unbounded distance. -/
theorem displacement_posInf_of_pos (hV : 0 < V) (ha : 0 < a) :
    displacement (fin V) (fin v) (fin a) posInf = posInf := by
  have hreach : fin v + fin a * posInf = posInf := by
    rw [fin_mul_posInf, infinity_of_pos ha, fin_add_posInf]
  have hcruise : fin V * posInf = posInf := by
    rw [fin_mul_posInf, infinity_of_pos hV]
  by_cases hlimit : V ≤ v
  · simp [displacement, ha, ha.ne', hlimit, hcruise]
  · have htime : 0 < (V - v) / a := div_pos (sub_pos.mpr (not_le.mp hlimit)) ha
    simp [displacement, hreach, ha, ha.ne', ha.le, hlimit, hcruise, fin_div ha.ne', htime,
      not_lt.mpr]

theorem displacement_posInf_of_neg (hV : 0 < V) (ha : a < 0) :
    displacement (fin V) (fin v) (fin a) posInf = negInf := by
  have hreach : fin v + fin a * posInf = negInf := by
    rw [fin_mul_posInf, infinity_of_neg ha, fin_add_negInf]
  have hcruise : fin (-V) * posInf = negInf := by
    rw [fin_mul_posInf, infinity_of_neg (neg_neg_of_pos hV)]
  by_cases hlimit : v ≤ -V
  · simp [displacement, ha, ha.ne, ha.le, hlimit, hcruise, not_lt.mpr]
  · have htime : 0 < (-V - v) / a := div_pos_of_neg_of_neg (sub_neg.mpr (not_le.mp hlimit)) ha
    simp [displacement, hreach, ha, ha.ne, ha.le, hlimit, hcruise, fin_div ha.ne, htime, not_lt.mpr]

/-- Without acceleration infinity is multiplied by zero. -/
theorem displacement_zero_posInf : displacement (fin V) (fin v) (fin 0) posInf = nan := by
  simp [displacement, fin_mul_posInf, stdClamp_nan]

theorem displacement_nan (V v a : Extended) : displacement V v a nan = nan := by
  simp [displacement, stdClamp_nan]

end Displacement

/-! ## One axis -/

/-- Position and velocity are finite. -/
structure JointState.Finite (state : JointState Extended) : Prop where
  position : isFinite state.position.degrees = true
  velocity : isFinite state.velocity.degreesPerSecond = true

/-- The controller asks for no acceleration, or for none that is finite: the target is
NaN, or it differs from the position by half the velocity. -/
def Joint.Balanced {μ : Type} (joint : Joint Extended μ) : Prop :=
  joint.targetPosition.degrees = nan ∨
    ∃ t p v : ℚ, joint.targetPosition.degrees = fin t ∧ joint.position.degrees = fin p ∧
      joint.velocity.degreesPerSecond = fin v ∧ t - p = v / 2

/-- Whether the argument of an operation is finite. -/
def AxisOperation.finiteArgument : AxisOperation Extended → Bool
  | .initializePosition position => isFinite position.degrees
  | .setTargetPosition target => isFinite target.degrees
  | .setAcceleration acceleration => isFinite acceleration.degreesPerSecondSquared
  | .update dt => isFinite dt.seconds

namespace Axis

variable {axis : Axis Extended} {i : Fin jointCount}

/-- The limits of an axis of a robot, as numbers. -/
theorem limits_degrees (h : axis.joint.limits = Robot.limits Extended i) :
    axis.joint.minPosition.degrees = fin (-Robot.positionLimit i) ∧
      axis.joint.maxPosition.degrees = fin (Robot.positionLimit i) ∧
      axis.joint.maxVelocity.degreesPerSecond = fin 60 ∧
      axis.joint.maxAcceleration.degreesPerSecondSquared = fin 30 := by
  simp only [Joint.limits, Robot.limits, Limits.mk.injEq] at h
  obtain ⟨hmin, hmax, hvelocity, hacceleration⟩ := h
  rw [hmin, hmax, hvelocity, hacceleration]
  exact ⟨rfl, rfl, rfl, rfl⟩

/-- What the safety layer accepts is finite and within the limit. -/
theorem exists_of_validate (h : axis.joint.limits = Robot.limits Extended i)
    {requested : AngularAcceleration Extended}
    (hvalid : SafetyLayer.validate axis.joint requested = true) :
    ∃ a : ℚ, requested = ⟨fin a⟩ ∧ a ≤ 30 ∧ -30 ≤ a := by
  obtain ⟨-, -, -, hlimit⟩ := limits_degrees h
  obtain ⟨value⟩ := requested
  cases value with
  | fin a =>
      refine ⟨a, rfl, ?_⟩
      simpa [SafetyLayer.validate, hlimit] using hvalid
  | _ => simp [SafetyLayer.validate] at hvalid

/-- The command given is a finite one within the limit. -/
theorem exists_granted (h : axis.joint.limits = Robot.limits Extended i) :
    ∃ a : ℚ, axis.granted Robot.controller = ⟨fin a⟩ ∧ a ≤ 30 ∧ -30 ≤ a := by
  unfold granted
  simp only
  split_ifs with hvalid
  · exact exists_of_validate h hvalid
  · exact ⟨0, rfl, by norm_num, by norm_num⟩

/-- The motor takes the command given. -/
theorem control_of_limits (h : axis.joint.limits = Robot.limits Extended i) :
    axis.control Robot.controller =
      { axis with motor := ⟨axis.granted Robot.controller⟩ } := by
  obtain ⟨-, -, -, hlimit⟩ := limits_degrees h
  obtain ⟨a, ha, hle, hge⟩ := exists_granted h
  have hadmitted : ¬ axis.joint.Exceeds ⟨fin a⟩ := by
    simp only [Joint.Exceeds, hlimit, fin_neg, fin_lt, not_or, not_lt]
    exact ⟨hle, hge⟩
  rw [control_eq, ha, setAcceleration, Joint.setAcceleration_of_not_exceeds hadmitted]
  simp [Motors.setAcceleration]

/-- A finite target is answered by a finite request. -/
theorem calculate_fin (t p v : ℚ) :
    (Robot.controller : PDController Extended).calculate ⟨⟨fin t⟩⟩ ⟨⟨fin p⟩, ⟨fin v⟩⟩ =
      ⟨fin (max (-30) (min (t - p - v / 2) 30))⟩ := by
  have hrequest : 1 * (t - p) - 1 / 2 * v = t - p - v / 2 := by ring
  simp only [PDController.calculate, Robot.controller, PDController.new, literal_eq, fin_sub,
    fin_mul, fin_lt, fin_neg, hrequest, AngularAcceleration.mk.injEq]
  rcases lt_or_ge 30 (t - p - v / 2) with hhigh | hhigh
  · rw [if_pos hhigh, if_neg (by simp), min_eq_right hhigh.le, max_eq_right (by norm_num)]
  · rw [if_neg (not_lt.mpr hhigh), min_eq_left hhigh]
    rcases lt_or_ge (t - p - v / 2) (-30) with hlow | hlow
    · rw [if_pos (fin_lt.mpr hlow), max_eq_left hlow.le]
    · rw [if_neg (by simpa using hlow), max_eq_right hlow]

theorem validate_fin (h : axis.joint.limits = Robot.limits Extended i) {a : ℚ} (hle : a ≤ 30)
    (hge : -30 ≤ a) : SafetyLayer.validate axis.joint ⟨fin a⟩ = true := by
  obtain ⟨-, -, -, hlimit⟩ := limits_degrees h
  simp [SafetyLayer.validate, hlimit, hle, hge]

/-- A NaN target is answered by NaN. -/
theorem calculate_nan (p v : ℚ) :
    (Robot.controller : PDController Extended).calculate ⟨⟨nan⟩⟩ ⟨⟨fin p⟩, ⟨fin v⟩⟩ = ⟨nan⟩ := by
  simp [PDController.calculate, Robot.controller, PDController.new]

/-- An infinite target is answered by the limit. -/
theorem calculate_posInf (p v : ℚ) :
    (Robot.controller : PDController Extended).calculate ⟨⟨posInf⟩⟩ ⟨⟨fin p⟩, ⟨fin v⟩⟩ =
      ⟨fin 30⟩ := by
  have hgain : fin 1 * posInf = posInf := infinity_of_pos one_pos
  simp [PDController.calculate, Robot.controller, PDController.new, hgain]

theorem calculate_negInf (p v : ℚ) :
    (Robot.controller : PDController Extended).calculate ⟨⟨negInf⟩⟩ ⟨⟨fin p⟩, ⟨fin v⟩⟩ =
      ⟨fin (-30)⟩ := by
  have hgain : fin 1 * negInf = negInf := by
    change infinity (-1) = negInf
    exact infinity_of_neg (by norm_num)
  simp [PDController.calculate, Robot.controller, PDController.new, hgain]

theorem clamped_eq_zero_iff {request : ℚ} : max (-30) (min request 30) = 0 ↔ request = 0 := by
  constructor
  · intro h
    rcases max_choice (-30) (min request 30) with hmax | hmax <;> rw [hmax] at h
    · norm_num at h
    · rcases min_choice request 30 with hmin | hmin <;> rw [hmin] at h
      · exact h
      · norm_num at h
  · rintro rfl
    norm_num

/-- When the command given is zero. -/
theorem granted_eq_zero_iff (h : axis.joint.limits = Robot.limits Extended i)
    (hfinite : axis.joint.state.Finite) :
    axis.granted Robot.controller = ⟨fin 0⟩ ↔ axis.joint.Balanced := by
  obtain ⟨p, hp⟩ := isFinite_iff.mp hfinite.position
  obtain ⟨v, hv⟩ := isFinite_iff.mp hfinite.velocity
  have hstate : axis.joint.state = ⟨⟨fin p⟩, ⟨fin v⟩⟩ :=
    JointState.ext (Angle.ext hp) (AngularVelocity.ext hv)
  have hgranted (target : Extended) (htarget : axis.joint.targetPosition.degrees = target) :
      axis.granted Robot.controller =
        let requested := Robot.controller.calculate ⟨⟨target⟩⟩ ⟨⟨fin p⟩, ⟨fin v⟩⟩
        if SafetyLayer.validate axis.joint requested then requested else ⟨fin 0⟩ := by
    have hcommand : axis.joint.command = ⟨⟨target⟩⟩ := JointCommand.ext (Angle.ext htarget)
    rw [granted, hcommand, hstate]
    rfl
  unfold Joint.Balanced
  cases htarget : axis.joint.targetPosition.degrees with
  | nan =>
      rw [hgranted nan htarget, calculate_nan]
      simp [SafetyLayer.validate]
  | posInf =>
      rw [hgranted posInf htarget, calculate_posInf]
      simp [validate_fin h]
  | negInf =>
      rw [hgranted negInf htarget, calculate_negInf]
      simp [validate_fin h]
  | fin t =>
      rw [hgranted (fin t) htarget, calculate_fin]
      have hvalid : SafetyLayer.validate axis.joint
          ⟨fin (max (-30) (min (t - p - v / 2) 30))⟩ = true :=
        validate_fin h (max_le (by norm_num) (min_le_right _ _)) (le_max_left _ _)
      simp only [hvalid, if_true, AngularAcceleration.mk.injEq, fin.injEq, clamped_eq_zero_iff,
        reduceCtorEq, false_or]
      constructor
      · intro hzero
        exact ⟨t, p, v, rfl, hp, hv, by linarith⟩
      · rintro ⟨t', p', v', ht, hp', hv', hbalance⟩
        subst ht
        obtain rfl : p = p' := fin.inj (hp.symm.trans hp')
        obtain rfl : v = v' := fin.inj (hv.symm.trans hv')
        linarith

/-! ## One step -/

/-- A step leaves a finite state if it covers a finite distance, or an infinite one. -/
theorem finite_simulate {dt : Duration Extended} (h : axis.joint.limits = Robot.limits Extended i)
    (hposition : newPosition dt axis.joint axis.motor.acceleration.degreesPerSecondSquared ≠ nan)
    (hvelocity : isFinite (newPosition dt axis.joint
        axis.motor.acceleration.degreesPerSecondSquared) = true →
      isFinite (finalVelocity dt axis.joint
        axis.motor.acceleration.degreesPerSecondSquared) = true) :
    (axis.simulate dt).joint.state.Finite := by
  obtain ⟨hmin, hmax, -, -⟩ := limits_degrees h
  by_cases hlow : newPosition dt axis.joint axis.motor.acceleration.degreesPerSecondSquared ≤
      axis.joint.minPosition.degrees
  · rw [simulate_of_le_min hlow]
    exact ⟨congrArg isFinite hmin, rfl⟩
  · by_cases hhigh : axis.joint.maxPosition.degrees ≤
        newPosition dt axis.joint axis.motor.acceleration.degreesPerSecondSquared
    · rw [simulate_of_max_le hlow hhigh]
      exact ⟨congrArg isFinite hmax, rfl⟩
    · rw [simulate_of_between hlow hhigh]
      have hfinite : isFinite (newPosition dt axis.joint
          axis.motor.acceleration.degreesPerSecondSquared) = true := by
        rw [hmin] at hlow
        rw [hmax] at hhigh
        cases hnew : newPosition dt axis.joint
            axis.motor.acceleration.degreesPerSecondSquared with
        | fin q => rfl
        | nan => exact absurd hnew hposition
        | negInf => exact absurd (hnew ▸ negInf_le_fin) hlow
        | posInf => exact absurd (hnew ▸ fin_le_posInf) hhigh
      exact ⟨hfinite, hvelocity hfinite⟩

/-- The position after a step, for a finite state. -/
theorem newPosition_eq (h : axis.joint.limits = Robot.limits Extended i) {p v : ℚ}
    (hp : axis.joint.position.degrees = fin p)
    (hv : axis.joint.velocity.degreesPerSecond = fin v) (dt : Duration Extended)
    (acceleration : Extended) :
    newPosition dt axis.joint acceleration =
      fin p + displacement (fin 60) (fin (stdClamp v (-60) 60)) acceleration dt.seconds := by
  obtain ⟨-, -, hlimit, -⟩ := limits_degrees h
  simp only [newPosition, initialVelocity, hp, hv, hlimit, fin_neg, stdClamp_fin]

/-- A finite step leaves a finite state. -/
theorem finite_simulate_fin (h : axis.joint.limits = Robot.limits Extended i)
    (hfinite : axis.joint.state.Finite) {a t : ℚ}
    (ha : axis.motor.acceleration.degreesPerSecondSquared = fin a) :
    (axis.simulate ⟨fin t⟩).joint.state.Finite := by
  obtain ⟨p, hp⟩ := isFinite_iff.mp hfinite.position
  obtain ⟨v, hv⟩ := isFinite_iff.mp hfinite.velocity
  obtain ⟨-, -, hlimit, -⟩ := limits_degrees h
  refine finite_simulate h ?_ fun _ => ?_
  · rw [newPosition_eq h hp hv, ha, displacement_fin, fin_add]
    exact fun hnan => nomatch hnan
  · have hvelocity : axis.joint.velocity.degreesPerSecond = fin v := hv
    simp only [finalVelocity, initialVelocity, hvelocity, hlimit, ha, fin_neg, stdClamp_fin,
      fin_mul, fin_add, isFinite_fin]

/-- In an unbounded step the joint is stopped at a limit if it is accelerated. -/
theorem finite_simulate_posInf (h : axis.joint.limits = Robot.limits Extended i)
    (hfinite : axis.joint.state.Finite) {a : ℚ}
    (ha : axis.motor.acceleration.degreesPerSecondSquared = fin a) (hne : a ≠ 0) :
    (axis.simulate ⟨posInf⟩).joint.state.Finite := by
  obtain ⟨p, hp⟩ := isFinite_iff.mp hfinite.position
  obtain ⟨v, hv⟩ := isFinite_iff.mp hfinite.velocity
  have hnew := newPosition_eq h hp hv ⟨posInf⟩ (fin a)
  rcases lt_or_gt_of_ne hne with hneg | hpos
  · rw [displacement_posInf_of_neg (by norm_num) hneg, fin_add_negInf] at hnew
    refine finite_simulate h ?_ ?_ <;> rw [ha, hnew] <;> simp
  · rw [displacement_posInf_of_pos (by norm_num) hpos, fin_add_posInf] at hnew
    refine finite_simulate h ?_ ?_ <;> rw [ha, hnew] <;> simp

/-- A step over a distance that is NaN leaves NaN. -/
theorem not_finite_simulate {dt : Duration Extended}
    (hnew : newPosition dt axis.joint axis.motor.acceleration.degreesPerSecondSquared = nan) :
    ¬ (axis.simulate dt).joint.state.Finite := by
  have hlow : ¬ newPosition dt axis.joint axis.motor.acceleration.degreesPerSecondSquared ≤
      axis.joint.minPosition.degrees := by
    rw [hnew]
    exact not_nan_le
  have hhigh : ¬ axis.joint.maxPosition.degrees ≤
      newPosition dt axis.joint axis.motor.acceleration.degreesPerSecondSquared := by
    rw [hnew]
    exact not_le_nan
  intro hfinite
  have hposition := hfinite.position
  rw [simulate_of_between hlow hhigh] at hposition
  simp [Joint.state, Joint.simulate, hnew] at hposition

/-! ## One operation -/

/-- A finite time step leaves a finite state. -/
theorem finite_update (h : axis.joint.limits = Robot.limits Extended i)
    (hfinite : axis.joint.state.Finite) {dt : Duration Extended}
    (hdt : isFinite dt.seconds = true) :
    (axis.update Robot.controller dt).joint.state.Finite := by
  obtain ⟨t, ht⟩ := isFinite_iff.mp hdt
  obtain rfl : dt = ⟨fin t⟩ := Duration.ext ht
  obtain ⟨a, ha, -⟩ := exists_granted h
  unfold Axis.update
  split_ifs
  · exact hfinite
  · rw [control_of_limits h, ha]
    refine finite_simulate_fin (i := i) (a := a) ?_ ?_ rfl
    · exact h
    · exact hfinite

/-- When a time step that is not finite leaves a finite state. -/
theorem finite_update_special_iff (h : axis.joint.limits = Robot.limits Extended i)
    (hfinite : axis.joint.state.Finite) {dt : Duration Extended}
    (hdt : isFinite dt.seconds = false) :
    (axis.update Robot.controller dt).joint.state.Finite ↔
      ¬ (dt.seconds = nan ∨ dt.seconds = posInf ∧ axis.joint.Balanced) := by
  obtain ⟨p, hp⟩ := isFinite_iff.mp hfinite.position
  obtain ⟨v, hv⟩ := isFinite_iff.mp hfinite.velocity
  obtain ⟨a, ha, -⟩ := exists_granted h
  have hzero := granted_eq_zero_iff h hfinite
  rw [ha] at hzero
  obtain ⟨seconds⟩ := dt
  unfold Axis.update
  rw [control_of_limits h, ha]
  cases seconds with
  | fin t => simp at hdt
  | negInf =>
      rw [if_pos (by simp)]
      simp only [reduceCtorEq, false_and, or_self, not_false_eq_true, iff_true]
      exact hfinite
  | nan =>
      rw [if_neg (by simp)]
      refine iff_of_false (not_finite_simulate ?_) (by simp)
      have hnew := newPosition_eq h hp hv ⟨nan⟩ (fin a)
      rw [displacement_nan, add_nan] at hnew
      exact hnew
  | posInf =>
      rw [if_neg (by simp)]
      simp only [reduceCtorEq, true_and, false_or, ← hzero, AngularAcceleration.mk.injEq,
        fin.injEq]
      constructor
      · rintro hafter rfl
        refine not_finite_simulate ?_ hafter
        have hnew := newPosition_eq h hp hv ⟨posInf⟩ (fin 0)
        rw [displacement_zero_posInf, add_nan] at hnew
        exact hnew
      · intro hne
        refine finite_simulate_posInf (i := i) ?_ ?_ rfl hne
        · exact h
        · exact hfinite

/-- The operations that leave a state that is not finite. -/
def Poisons (axis : Axis Extended) : AxisOperation Extended → Prop
  | .initializePosition position => position.degrees = nan
  | .update dt => dt.seconds = nan ∨ dt.seconds = posInf ∧ axis.joint.Balanced
  | _ => False

/-- Only NaN passes the range check of `initializePosition` without being a number. -/
theorem finite_initializePosition_iff (h : axis.joint.limits = Robot.limits Extended i)
    (hfinite : axis.joint.state.Finite) (position : Angle Extended) :
    (axis.initializePosition position).2.joint.state.Finite ↔ ¬ position.degrees = nan := by
  obtain ⟨hmin, hmax, -, -⟩ := limits_degrees h
  obtain ⟨value⟩ := position
  simp only [initializePosition, Joint.initializePosition, hmin, hmax]
  cases value with
  | fin q =>
      refine iff_of_true ?_ (by simp)
      split_ifs
      · exact hfinite
      · exact ⟨rfl, hfinite.velocity⟩
  | nan =>
      refine iff_of_false ?_ (by simp)
      rw [if_neg (by simp)]
      intro hafter
      exact absurd hafter.position Bool.false_ne_true
  | negInf =>
      refine iff_of_true ?_ (by simp)
      rw [if_pos (by simp)]
      exact hfinite
  | posInf =>
      refine iff_of_true ?_ (by simp)
      rw [if_pos (by simp)]
      exact hfinite

theorem finite_apply (h : axis.joint.limits = Robot.limits Extended i)
    (hfinite : axis.joint.state.Finite) {operation : AxisOperation Extended}
    (hargument : operation.finiteArgument = true) :
    (axis.apply Robot.controller operation).2.joint.state.Finite := by
  cases operation with
  | initializePosition position =>
      refine (finite_initializePosition_iff h hfinite position).mpr ?_
      intro hnan
      simp [AxisOperation.finiteArgument, hnan] at hargument
  | setTargetPosition target => exact hfinite
  | setAcceleration acceleration => exact hfinite
  | update dt => exact finite_update h hfinite hargument

theorem finite_apply_special_iff (h : axis.joint.limits = Robot.limits Extended i)
    (hfinite : axis.joint.state.Finite) {operation : AxisOperation Extended}
    (hargument : operation.finiteArgument = false) :
    (axis.apply Robot.controller operation).2.joint.state.Finite ↔ ¬ axis.Poisons operation := by
  cases operation with
  | initializePosition position => exact finite_initializePosition_iff h hfinite position
  | setTargetPosition target => exact iff_of_true hfinite not_false
  | setAcceleration acceleration => exact iff_of_true hfinite not_false
  | update dt => exact finite_update_special_iff h hfinite hargument

end Axis

/-! ## Robots -/

/-- Whether the argument of an operation is finite. -/
def RobotOperation.finiteArgument : RobotOperation Extended → Bool
  | .initializeJointPosition _ position => isFinite position.degrees
  | .setJointTargetPosition _ target => isFinite target.degrees
  | .setJointAcceleration _ acceleration => isFinite acceleration.degreesPerSecondSquared
  | .update dt => isFinite dt.seconds

theorem RobotOperation.finiteArgument_onAxis {operation : RobotOperation Extended}
    {i : Fin jointCount} {seen : AxisOperation Extended}
    (hseen : operation.onAxis i = some seen) :
    seen.finiteArgument = operation.finiteArgument := by
  cases operation with
  | update dt =>
      obtain rfl := Option.some.inj hseen
      rfl
  | _ =>
      simp only [RobotOperation.onAxis] at hseen
      split_ifs at hseen
      obtain rfl := Option.some.inj hseen
      rfl

namespace Robot

/-- All positions and velocities are finite. -/
def Finite (robot : Robot Extended) : Prop := ∀ i, (robot.state i).Finite

/-- The calls that poison the state: a joint is initialized to NaN, the robot is updated
with NaN, or with infinity while some joint is balanced. -/
def Poisons (robot : Robot Extended) : RobotOperation Extended → Prop
  | .initializeJointPosition index position =>
      index.value < jointCount ∧ position.degrees = nan
  | .update dt => dt.seconds = nan ∨ dt.seconds = posInf ∧ ∃ i, (robot.joints i).Balanced
  | _ => False

variable {robot : Robot Extended} {operation : RobotOperation Extended}

theorem Configured.apply (h : robot.Configured) (operation : RobotOperation Extended) :
    (robot.apply operation).2.Configured := by
  intro i
  cases hseen : operation.onAxis i with
  | none => exact (congrArg (fun axis => axis.joint.limits) (apply_elsewhere _ _ hseen)).trans (h i)
  | some seen =>
      have haxis := congrArg (fun axis => axis.joint.limits) (robot.apply_addressed _ hseen).2
      exact haxis.trans (((robot.axis i).limits_apply controller seen).trans (h i))

/-- Finite arguments leave finite states. -/
theorem Finite.apply (hfinite : robot.Finite) (h : robot.Configured)
    (hargument : operation.finiteArgument = true) : (robot.apply operation).2.Finite := by
  intro i
  change ((robot.apply operation).2.axis i).joint.state.Finite
  have hbefore : (robot.axis i).joint.state.Finite := hfinite i
  cases hseen : operation.onAxis i with
  | none =>
      rw [robot.apply_elsewhere operation hseen]
      exact hbefore
  | some seen =>
      rw [(robot.apply_addressed operation hseen).2]
      exact Axis.finite_apply (h i) hbefore
        ((RobotOperation.finiteArgument_onAxis hseen).trans hargument)

theorem Finite.run :
    ∀ (operations : List (RobotOperation Extended)) {robot : Robot Extended},
      robot.Finite → robot.Configured →
      (∀ operation ∈ operations, operation.finiteArgument = true) →
        (robot.run operations).Finite := by
  intro operations
  induction operations with
  | nil =>
      intro robot hfinite _ _
      exact hfinite
  | cons operation rest ih =>
      intro robot hfinite h harguments
      rw [List.forall_mem_cons] at harguments
      exact ih (hfinite.apply h harguments.1) (h.apply operation) harguments.2

/-- A call poisons the robot if it poisons an axis that sees it. -/
theorem poisons_iff :
    robot.Poisons operation ↔
      ∃ i seen, operation.onAxis i = some seen ∧ (robot.axis i).Poisons seen := by
  cases operation with
  | initializeJointPosition index position =>
      constructor
      · rintro ⟨hlt, hnan⟩
        exact ⟨⟨index.value, hlt⟩, .initializePosition position, if_pos rfl, hnan⟩
      · rintro ⟨i, seen, hseen, hpoisons⟩
        obtain ⟨hindex, rfl⟩ : index.value = i ∧ .initializePosition position = seen := by
          simpa [RobotOperation.onAxis] using hseen
        exact ⟨hindex.trans_lt i.isLt, hpoisons⟩
  | setJointTargetPosition index target =>
      refine iff_of_false id ?_
      rintro ⟨i, seen, hseen, hpoisons⟩
      obtain ⟨-, rfl⟩ : index.value = i ∧ .setTargetPosition target = seen := by
        simpa [RobotOperation.onAxis] using hseen
      exact hpoisons
  | setJointAcceleration index acceleration =>
      refine iff_of_false id ?_
      rintro ⟨i, seen, hseen, hpoisons⟩
      obtain ⟨-, rfl⟩ : index.value = i ∧ .setAcceleration acceleration = seen := by
        simpa [RobotOperation.onAxis] using hseen
      exact hpoisons
  | update dt =>
      constructor
      · rintro (hnan | ⟨hinf, i, hbalanced⟩)
        · exact ⟨0, .update dt, rfl, .inl hnan⟩
        · exact ⟨i, .update dt, rfl, .inr ⟨hinf, hbalanced⟩⟩
      · rintro ⟨i, seen, hseen, hpoisons⟩
        obtain rfl := Option.some.inj hseen
        rcases hpoisons with hnan | ⟨hinf, hbalanced⟩
        · exact .inl hnan
        · exact .inr ⟨hinf, i, hbalanced⟩

/-- When a call with an argument that is not finite leaves a finite state. -/
theorem Finite.apply_special_iff (hfinite : robot.Finite) (h : robot.Configured)
    (hargument : operation.finiteArgument = false) :
    (robot.apply operation).2.Finite ↔ ¬ robot.Poisons operation := by
  rw [poisons_iff]
  constructor
  · rintro hafter ⟨i, seen, hseen, hpoisons⟩
    have hbefore : (robot.axis i).joint.state.Finite := hfinite i
    have hi : ((robot.apply operation).2.axis i).joint.state.Finite := hafter i
    rw [(robot.apply_addressed operation hseen).2] at hi
    exact (Axis.finite_apply_special_iff (h i) hbefore
      ((RobotOperation.finiteArgument_onAxis hseen).trans hargument)).mp hi hpoisons
  · intro hnone i
    change ((robot.apply operation).2.axis i).joint.state.Finite
    have hbefore : (robot.axis i).joint.state.Finite := hfinite i
    cases hseen : operation.onAxis i with
    | none =>
        rw [robot.apply_elsewhere operation hseen]
        exact hbefore
    | some seen =>
        rw [(robot.apply_addressed operation hseen).2]
        exact (Axis.finite_apply_special_iff (h i) hbefore
          ((RobotOperation.finiteArgument_onAxis hseen).trans hargument)).mpr
            fun hpoisons => hnone ⟨i, seen, hseen, hpoisons⟩

theorem finite_initial : (initial : Robot Extended).Finite := by
  intro i
  simp only [state, initial, initialJoints_apply]
  exact ⟨rfl, rfl⟩

/-- Which arguments that are not finite a robot survives.  From every state a new robot
reaches in which positions and velocities are finite, and for every call whose argument
is NaN or infinite: the state is finite after the call and after all further operations
with finite arguments, if and only if the call is none of these: a joint initialized to
NaN, an update with NaN, an update with infinity while some joint is balanced. -/
theorem stays_finite_iff (operations : List (RobotOperation Extended))
    (operation : RobotOperation Extended)
    (hfinite : ((initial : Robot Extended).run operations).Finite)
    (hargument : operation.finiteArgument = false) :
    let robot := (initial : Robot Extended).run operations
    (∀ further : List (RobotOperation Extended),
      (∀ next ∈ further, next.finiteArgument = true) →
        ((robot.apply operation).2.run further).Finite) ↔
      ¬ robot.Poisons operation := by
  intro robot
  have hconfigured : robot.Configured := configured_run operations
  rw [← hfinite.apply_special_iff hconfigured hargument]
  constructor
  · intro hall
    exact hall [] (by simp)
  · intro hafter further harguments
    exact .run further hafter (hconfigured.apply operation) harguments

/-- A new robot survives a NaN target. -/
theorem stays_finite_target :
    (((initial : Robot Extended).apply (.setJointTargetPosition ⟨0⟩ ⟨nan⟩)).2.run
      [.update ⟨fin 1⟩]).Finite := by
  exact (stays_finite_iff [] _ finite_initial rfl).mpr id [.update ⟨fin 1⟩]
    (by simp [RobotOperation.finiteArgument])

/-- A joint of a new robot that is initialized to NaN accepts it. -/
theorem initialize_nan_poisons :
    let called := (initial : Robot Extended).apply (.initializeJointPosition ⟨0⟩ ⟨nan⟩)
    (initial : Robot Extended).Finite ∧ called.1 = true ∧
      called.2.state 0 = ⟨⟨nan⟩, ⟨fin 0⟩⟩ ∧
      ¬ ∀ further : List (RobotOperation Extended),
        (∀ next ∈ further, next.finiteArgument = true) → (called.2.run further).Finite := by
  intro called
  refine ⟨finite_initial, rfl, rfl, ?_⟩
  intro hall
  have hposition := (hall [] (by simp) 0).position
  exact absurd hposition Bool.false_ne_true

end Robot

end RobotController.Core
