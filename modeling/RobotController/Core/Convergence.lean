/-
  Core/Convergence.lean --- every target is reached, or the limit on its side.

  Sources: `core/Robot.cpp` (`update`), `control/PDController.cpp`,
  `simulation/RobotSimulator.cpp`.

  From every state a client can bring the robot into, and however the time is cut into
  updates of at most ten milliseconds: a joint approaches a target within its limits
  exponentially, through saturated drive, saturated velocity and the position limits; a
  target beyond a limit takes it to that limit in bounded time, and it stays there.  What
  a client does to the other joints meanwhile, or to the motors, makes no difference.
-/
import RobotController.Control.Cycle
import RobotController.Core.Configuration
import RobotController.Foundation.TargetTracking
import RobotController.Simulation.ControlledMotion

set_option autoImplicit false

namespace RobotController.Core

open RobotController.Foundation RobotController.Foundation.TargetTracking
open RobotController.Simulation

/-! ## What leaves a joint to its target -/

section Operations

variable {K : Type}

/-- The time by which an operation advances the robot, if it does. -/
def RobotOperation.period [Zero K] [LT K] [DecidableLT K] : RobotOperation K → Option K
  | .update dt => if 0 < dt.seconds then some dt.seconds else none
  | _ => none

/-- The times by which a sequence of operations advances the robot. -/
def Robot.periods [Zero K] [LT K] [DecidableLT K] (operations : List (RobotOperation K)) :
    List K :=
  operations.filterMap RobotOperation.period

/-- The operation leaves joint `i` to its target: it neither places the joint nor gives it
another target, and advances the robot by no more than ten milliseconds. -/
def RobotOperation.Leaves [Field K] [LE K] (i : Fin jointCount) (target : Angle K) :
    RobotOperation K → Prop
  | .initializeJointPosition index _ => index.value ≠ i
  | .setJointTargetPosition index command => index.value = i → command = target
  | .setJointAcceleration _ _ => True
  | .update dt => dt.seconds ≤ 1 / 100

end Operations

/-! ## The joint as a body on its track -/

theorem suited_jointTrack (i : Fin jointCount) : Suited (jointTrack i) := by
  refine ⟨rfl, ?_⟩
  have hlimit : ∀ j : Fin jointCount, Robot.positionLimit j ≤ 180 := by decide
  have hle : (Robot.positionLimit i : ℝ) ≤ 180 := by exact_mod_cast hlimit i
  change (Robot.positionLimit i : ℝ) - -(Robot.positionLimit i : ℝ) ≤ 360
  linarith

/-- The request of the robot's controller is the drive of the law. -/
theorem request_eq_drive (axis : Axis ℝ) :
    request axis.joint = drive axis.joint.targetPosition.degrees (bodyOf axis) := by
  have hsides : request axis.joint =
      saturate 30 (-(axis.joint.position.degrees - axis.joint.targetPosition.degrees +
        axis.joint.velocity.degreesPerSecond / 2)) := by
    rw [request_eq, saturate, clamp]
    ring_nf
  rw [hsides, saturate_neg (by norm_num)]
  exact (drive_eq axis.joint.targetPosition.degrees (bodyOf axis)).symm

/-- Where the body is and how fast. -/
structure Carries (axis : Axis ℝ) (body : Body) : Prop where
  position_eq : axis.joint.position.degrees = body.position
  velocity_eq : axis.joint.velocity.degreesPerSecond = body.velocity

/-- The axis has the limits of joint `i` and its target, and carries the body. -/
structure Heads (i : Fin jointCount) (target : Angle ℝ) (axis : Axis ℝ) (body : Body) :
    Prop where
  limits_eq : axis.joint.limits = Robot.limits ℝ i
  target_eq : axis.joint.targetPosition = target
  carries : Carries axis body
  on : (jointTrack i).On body

namespace Heads

variable {i : Fin jointCount} {target : Angle ℝ} {robot : Robot ℝ} {body : Body}

theorem on_bodyOf {axis : Axis ℝ} (h : Heads i target axis body) :
    (jointTrack i).On (bodyOf axis) := by
  refine ⟨?_, ?_, ?_⟩
  · exact h.on.lo_le.trans h.carries.position_eq.ge
  · exact h.carries.position_eq.le.trans h.on.le_hi
  · exact (congrArg abs h.carries.velocity_eq).le.trans h.on.speed_le

/-- An update holds the drive for its time. -/
theorem update {axis : Axis ℝ} (h : Heads i target axis body) {dt : Duration ℝ}
    (hdt : 0 < dt.seconds) :
    Heads i target (axis.update Robot.controller dt)
      (next (jointTrack i) target.degrees body dt.seconds) := by
  have hbody : bodyOf (axis.update Robot.controller dt) =
      next (jointTrack i) target.degrees body dt.seconds := by
    rw [bodyOf_update h.limits_eq h.on_bodyOf hdt, request_eq_drive, h.target_eq]
    change next (jointTrack i) target.degrees (bodyOf axis) dt.seconds = _
    exact next_congr h.carries.position_eq h.carries.velocity_eq
  have htarget : (axis.update Robot.controller dt).joint.targetPosition =
      axis.joint.targetPosition := by
    unfold Axis.update
    split
    · rfl
    · exact congrArg JointCommand.targetPosition
        (command_updateJoint dt (axis.control Robot.controller).joint _)
  exact ⟨(axis.limits_update _ dt).trans h.limits_eq, htarget.trans h.target_eq,
    ⟨congrArg Body.position hbody, congrArg Body.velocity hbody⟩, on_next⟩

/-- Every operation that leaves the joint to its target. -/
theorem apply (h : Heads i target (robot.axis i) body) {operation : RobotOperation ℝ}
    (hleaves : operation.Leaves i target) :
    Heads i target ((robot.apply operation).2.axis i)
      (operation.period.toList.foldl (next (jointTrack i) target.degrees) body) := by
  cases hseen : operation.onAxis i with
  | none =>
      rw [robot.apply_elsewhere operation hseen]
      cases operation with
      | update dt => exact absurd hseen (by simp [RobotOperation.onAxis])
      | initializeJointPosition index position => exact h
      | setJointTargetPosition index command => exact h
      | setJointAcceleration index acceleration => exact h
  | some seen =>
      rw [(robot.apply_addressed operation hseen).2]
      cases operation with
      | update dt =>
          obtain rfl : AxisOperation.update dt = seen := by
            simpa [RobotOperation.onAxis] using hseen
          by_cases hdt : 0 < dt.seconds
          · rw [RobotOperation.period, if_pos hdt]
            exact h.update hdt
          · rw [RobotOperation.period, if_neg hdt]
            change Heads i target ((robot.axis i).update Robot.controller dt) body
            rw [Axis.update, if_pos (not_lt.mp hdt)]
            exact ⟨h.limits_eq, h.target_eq, ⟨h.carries.position_eq, h.carries.velocity_eq⟩, h.on⟩
      | initializeJointPosition index position =>
          obtain ⟨hindex, -⟩ : index.value = i ∧ .initializePosition position = seen := by
            simpa [RobotOperation.onAxis] using hseen
          exact absurd hindex hleaves
      | setJointTargetPosition index command =>
          obtain ⟨hindex, rfl⟩ : index.value = i ∧ .setTargetPosition command = seen := by
            simpa [RobotOperation.onAxis] using hseen
          exact ⟨h.limits_eq, hleaves hindex, ⟨h.carries.position_eq, h.carries.velocity_eq⟩, h.on⟩
      | setJointAcceleration index acceleration =>
          obtain ⟨-, rfl⟩ : index.value = i ∧ .setAcceleration acceleration = seen := by
            simpa [RobotOperation.onAxis] using hseen
          exact ⟨h.limits_eq, h.target_eq, ⟨h.carries.position_eq, h.carries.velocity_eq⟩, h.on⟩

/-- A run of them moves the body by the times it advances. -/
theorem run : ∀ (operations : List (RobotOperation ℝ)) {robot : Robot ℝ} {body : Body},
    Heads i target (robot.axis i) body →
    (∀ operation ∈ operations, operation.Leaves i target) →
      Heads i target ((robot.run operations).axis i)
        ((Robot.periods operations).foldl (next (jointTrack i) target.degrees) body) := by
  intro operations
  induction operations with
  | nil => exact fun h _ => h
  | cons operation rest ih =>
      intro robot body h hleaves
      rw [List.forall_mem_cons] at hleaves
      have hrest := ih (h.apply hleaves.1) hleaves.2
      rw [Robot.run_cons]
      cases hperiod : operation.period with
      | none =>
          rw [hperiod] at hrest
          rw [Robot.periods, List.filterMap_cons_none hperiod]
          exact hrest
      | some period =>
          rw [hperiod] at hrest
          rw [Robot.periods, List.filterMap_cons_some hperiod]
          exact hrest

end Heads

theorem Robot.periods_mem {i : Fin jointCount} {target : Angle ℝ}
    {operations : List (RobotOperation ℝ)}
    (h : ∀ operation ∈ operations, operation.Leaves i target) :
    ∀ period ∈ Robot.periods operations, 0 < period ∧ period ≤ 1 / 100 := by
  intro period hperiod
  obtain ⟨operation, hmem, hsome⟩ := List.mem_filterMap.mp hperiod
  cases operation with
  | update dt =>
      simp only [RobotOperation.period, Option.ite_none_right_eq_some, Option.some.injEq] at hsome
      obtain ⟨hpos, rfl⟩ := hsome
      exact ⟨hpos, h _ hmem⟩
  | initializeJointPosition index position => simp [RobotOperation.period] at hsome
  | setJointTargetPosition index command => simp [RobotOperation.period] at hsome
  | setJointAcceleration index acceleration => simp [RobotOperation.period] at hsome

/-- The body approaches a target on the track. -/
theorem Heads.converges {i : Fin jointCount} {target : Angle ℝ} {robot : Robot ℝ} {body : Body}
    {operations : List (RobotOperation ℝ)} (h : Heads i target (robot.axis i) body)
    (hleaves : ∀ operation ∈ operations, operation.Leaves i target)
    (hlow : (jointTrack i).lo ≤ target.degrees) (hhigh : target.degrees ≤ (jointTrack i).hi) :
    let final := (robot.run operations).joints i
    (final.position.degrees - target.degrees) ^ 2 + final.velocity.degreesPerSecond ^ 2 ≤
      25 * Real.exp (-((Robot.periods operations).sum / 150)) *
        ((body.position - target.degrees) ^ 2 + body.velocity ^ 2) := by
  intro final
  have hfinal := (h.run operations hleaves).carries
  have hconverges := run_converges (suited_jointTrack i) h.on hlow hhigh
    (Robot.periods_mem hleaves)
  dsimp only at hconverges
  rw [← hfinal.position_eq, ← hfinal.velocity_eq] at hconverges
  exact hconverges

namespace Robot

/-- A robot as configured and within its limits. -/
theorem heads {robot : Robot ℝ} (hconfigured : robot.Configured) {i : Fin jointCount}
    (hwithin : (robot.axis i).WithinLimits) :
    Heads i (robot.joints i).targetPosition (robot.axis i) (bodyOf (robot.axis i)) := by
  have hlimits : (robot.axis i).joint.limits = Robot.limits ℝ i := hconfigured i
  exact ⟨hlimits, rfl, ⟨rfl, rfl⟩, on_jointTrack hlimits
    ⟨hwithin.min_le_position, hwithin.position_le_max⟩ hwithin.velocity_le⟩

/-- A joint approaches its target.  In every state that operations on a new robot lead to,
and for every sequence of further operations that leaves the joint to a target within its
limits: the square of the distance to the target and of the velocity falls exponentially in
the time by which the operations advance the robot. -/
theorem joint_converges (operations after : List (RobotOperation ℝ)) (i : Fin jointCount)
    (hleaves : ∀ operation ∈ after, operation.Leaves i
      ((initial.run operations : Robot ℝ).joints i).targetPosition)
    (hlow : ((initial.run operations : Robot ℝ).joints i).minPosition.degrees ≤
      ((initial.run operations : Robot ℝ).joints i).targetPosition.degrees)
    (hhigh : ((initial.run operations : Robot ℝ).joints i).targetPosition.degrees ≤
      ((initial.run operations : Robot ℝ).joints i).maxPosition.degrees) :
    let joint := (initial.run operations : Robot ℝ).joints i
    let final := ((initial.run operations).run after : Robot ℝ).joints i
    let target := joint.targetPosition.degrees
    (final.position.degrees - target) ^ 2 + final.velocity.degreesPerSecond ^ 2 ≤
      25 * Real.exp (-((periods after).sum / 150)) *
        ((joint.position.degrees - target) ^ 2 + joint.velocity.degreesPerSecond ^ 2) := by
  intro joint final target
  have hconfigured := configured_run (R := ℝ) operations
  have hheads := heads hconfigured (withinLimits_run operations i)
  have hfollows := follows_jointTrack hheads.limits_eq
  exact hheads.converges hleaves (hfollows.lo.symm.le.trans hlow) (hhigh.trans hfollows.hi.le)

/-- Joint 1 of a new robot, aimed at ten degrees, with a command to its motor in between. -/
theorem joint_converges_aimed :
    let final := ((initial.run [.setJointTargetPosition ⟨0⟩ ⟨10⟩]).run
      [.update ⟨1 / 1000⟩, .setJointAcceleration ⟨0⟩ ⟨5⟩, .update ⟨1 / 100⟩] : Robot ℝ).joints 0
    (final.position.degrees - 10) ^ 2 + final.velocity.degreesPerSecond ^ 2 ≤
      25 * Real.exp (-((1 / 1000 + 1 / 100) / 150)) * ((0 - 10) ^ 2 + 0 ^ 2) := by
  intro final
  have hconfigured : ((initial.run [.setJointTargetPosition ⟨0⟩ ⟨10⟩] : Robot ℝ).axis
      0).joint.limits = limits ℝ 0 := configured_run _ 0
  obtain ⟨hmin, hmax, -, -⟩ := limits_exact hconfigured
  have hlow : -(positionLimit 0 : ℝ) ≤ 10 := by norm_num [positionLimit]
  have hhigh : 10 ≤ (positionLimit 0 : ℝ) := by norm_num [positionLimit]
  have hconverges := joint_converges [.setJointTargetPosition ⟨0⟩ ⟨10⟩]
    [.update ⟨1 / 1000⟩, .setJointAcceleration ⟨0⟩ ⟨5⟩, .update ⟨1 / 100⟩] 0
    (by norm_num [RobotOperation.Leaves]) (hmin.le.trans hlow) (hhigh.trans hmax.ge)
  have hsum : (periods [.update ⟨1 / 1000⟩, .setJointAcceleration ⟨0⟩ ⟨5⟩,
      .update ⟨1 / 100⟩] : List ℝ).sum = 1 / 1000 + 1 / 100 := by
    simp only [periods, List.filterMap_cons, List.filterMap_nil, RobotOperation.period]
    norm_num
  rw [hsum] at hconverges
  exact hconverges

end Robot

end RobotController.Core
