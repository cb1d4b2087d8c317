/-
  Simulation/Continuity.lean --- how far one simulator step moves a joint.

  Sources: `core/Joint.cpp` (the constructor, `initializePosition`,
  `setTargetPosition`, `setAcceleration`), `simulation/RobotSimulator.cpp`.

  Between its position limits a joint covers no more in a step than its speed limit
  allows.  A joint that is not between them is put there by its first step, however far
  it is; and the constructor places every joint at zero degrees, whatever its limits.
-/
import RobotController.Core.Configuration
import RobotController.Simulation.PositionLimits

set_option autoImplicit false

namespace RobotController.Simulation

open RobotController.Foundation RobotController.Core

/-! ## Operations on one joint -/

/-- A call on a joint, or a step of the simulator it is in the span of. -/
inductive JointOperation (R : Type) where
  | initializePosition (position : Angle R)
  | setTargetPosition (target : Angle R)
  | setAcceleration (acceleration : AngularAcceleration R)
  /-- `RobotSimulator::update` -/
  | update (dt : Duration R)
  deriving DecidableEq, Repr

section Operations

variable {R : Type} [Double R]

/-- A new joint with these limits, and a new motor. -/
def constructed (limits : Limits R) : Axis R where
  joint := Joint.new limits.minPosition limits.maxPosition limits.maxVelocity
    limits.maxAcceleration ()
  motor := SimulatedMotor.initial

/-- One operation. -/
def perform (axis : Axis R) : JointOperation R → Axis R
  | .initializePosition position => (axis.initializePosition position).2
  | .setTargetPosition target => axis.setTargetPosition target
  | .setAcceleration acceleration => (axis.setAcceleration acceleration).2
  | .update dt =>
      axisOf 0 (RobotSimulator.update dt (fun _ : Fin 1 => axis.joint) fun _ => axis.motor)

/-- A sequence of operations. -/
def performAll (axis : Axis R) (operations : List (JointOperation R)) : Axis R :=
  operations.foldl perform axis

theorem perform_update (axis : Axis R) (dt : Duration R) :
    perform axis (.update dt) = if dt.seconds ≤ 0 then axis else axis.simulate dt :=
  axisOf_update dt (Function.injective_of_subsingleton _) 0

theorem limits_perform (axis : Axis R) (operation : JointOperation R) :
    (perform axis operation).joint.limits = axis.joint.limits := by
  cases operation with
  | initializePosition position =>
      simp only [perform, Axis.initializePosition, Joint.initializePosition]
      split_ifs <;> rfl
  | setTargetPosition target => rfl
  | setAcceleration acceleration => rfl
  | update dt =>
      rw [perform_update]
      split
      · rfl
      · exact limits_updateJoint dt _ _

end Operations

/-! ## One step -/

/-- From `before` to `after` the joint has moved no farther than its speed limit allows in
the time, and its velocity has changed no more than its acceleration limit allows, unless
it has been stopped at a position limit. -/
structure NoJump (limits : Limits ℝ) (dt : Duration ℝ) (before after : Joint ℝ Unit) :
    Prop where
  position : |after.position.degrees - before.position.degrees| ≤
    limits.maxVelocity.degreesPerSecond * dt.seconds
  velocity : |after.velocity.degreesPerSecond - before.velocity.degreesPerSecond| ≤
      limits.maxAcceleration.degreesPerSecondSquared * dt.seconds ∨
    after.velocity.degreesPerSecond = 0 ∧
      (after.position = limits.minPosition ∨ after.position = limits.maxPosition)

section Step

variable {axis : Axis ℝ} {dt : Duration ℝ}

/-- The velocity never jumps, wherever the joint is. -/
theorem velocity_simulate (h : axis.Moderate) (hdt : 0 < dt.seconds) :
    |(axis.simulate dt).joint.velocity.degreesPerSecond -
          axis.joint.velocity.degreesPerSecond| ≤
        axis.joint.maxAcceleration.degreesPerSecondSquared * dt.seconds ∨
      (axis.simulate dt).joint.velocity.degreesPerSecond = 0 ∧
        ((axis.simulate dt).joint.position = axis.joint.minPosition ∨
          (axis.simulate dt).joint.position = axis.joint.maxPosition) := by
  have hA : 0 ≤ axis.joint.maxAcceleration.degreesPerSecondSquared :=
    (abs_nonneg _).trans h.acceleration_le
  obtain ⟨hlow, hhigh⟩ := abs_le.mp h.velocity_le
  have hsame := saturate_of_mem hlow hhigh
  obtain ⟨-, hposition, hvelocity, -⟩ | ⟨-, -, hposition, hvelocity, -⟩ |
      ⟨-, -, -, hvelocity, -⟩ :=
    (saturatedStep_simulate h.maxVelocity_nonneg h.min_le_max hdt).cases h.min_le_max hA
  · exact .inr ⟨congrArg AngularVelocity.degreesPerSecond hvelocity, .inl hposition⟩
  · exact .inr ⟨congrArg AngularVelocity.degreesPerSecond hvelocity, .inr hposition⟩
  · left
    rw [hsame] at hvelocity
    calc |(axis.simulate dt).joint.velocity.degreesPerSecond -
          axis.joint.velocity.degreesPerSecond|
        = |saturate axis.joint.maxVelocity.degreesPerSecond
              (axis.joint.velocity.degreesPerSecond +
                axis.motor.acceleration.degreesPerSecondSquared * dt.seconds) -
            saturate axis.joint.maxVelocity.degreesPerSecond
              axis.joint.velocity.degreesPerSecond| := by rw [hvelocity, hsame]
      _ ≤ |axis.motor.acceleration.degreesPerSecondSquared * dt.seconds| := by
        have hclose := abs_clamp_sub_clamp_le (-axis.joint.maxVelocity.degreesPerSecond)
          axis.joint.maxVelocity.degreesPerSecond
          (axis.joint.velocity.degreesPerSecond +
            axis.motor.acceleration.degreesPerSecondSquared * dt.seconds)
          axis.joint.velocity.degreesPerSecond
        rwa [add_sub_cancel_left] at hclose
      _ ≤ axis.joint.maxAcceleration.degreesPerSecondSquared * dt.seconds := by
        rw [abs_mul, abs_of_pos hdt]
        exact mul_le_mul_of_nonneg_right h.acceleration_le hdt.le

/-- When a step does not make the joint jump: when the joint is no farther outside its
position limits than it can move in the time. -/
theorem noJump_simulate_iff (h : axis.Moderate) (hdt : 0 < dt.seconds) :
    NoJump axis.joint.limits dt axis.joint (axis.simulate dt).joint ↔
      axis.joint.minPosition.degrees - axis.joint.position.degrees ≤
          axis.joint.maxVelocity.degreesPerSecond * dt.seconds ∧
        axis.joint.position.degrees - axis.joint.maxPosition.degrees ≤
          axis.joint.maxVelocity.degreesPerSecond * dt.seconds := by
  have hstep := saturatedStep_simulate h.maxVelocity_nonneg h.min_le_max hdt
  have hiff := abs_clamp_add_sub_le_iff h.min_le_max (p := axis.joint.position.degrees)
    (abs_travel_le (V := axis.joint.maxVelocity.degreesPerSecond)
      (v := saturate axis.joint.maxVelocity.degreesPerSecond
        axis.joint.velocity.degreesPerSecond)
      (a := axis.motor.acceleration.degreesPerSecondSquared) h.maxVelocity_nonneg hdt.le)
  rw [← hiff]
  constructor
  · intro hjump
    have hle := hjump.position
    rw [hstep.position] at hle
    exact hle
  · intro hle
    refine ⟨?_, velocity_simulate h hdt⟩
    rw [hstep.position]
    exact hle

theorem noJump_of_withinLimits (h : axis.WithinLimits) (hdt : 0 < dt.seconds) :
    NoJump axis.joint.limits dt axis.joint (axis.simulate dt).joint := by
  have hdistance := mul_nonneg h.moderate.maxVelocity_nonneg hdt.le
  exact (noJump_simulate_iff h.moderate hdt).mpr
    ⟨(sub_nonpos.mpr h.min_le_position).trans hdistance,
      (sub_nonpos.mpr h.position_le_max).trans hdistance⟩

end Step

/-! ## Whole runs -/

/-- No update with a positive time step among the operations makes the joint jump. -/
def NeverJumps (limits : Limits ℝ) (axis : Axis ℝ) (operations : List (JointOperation ℝ)) :
    Prop :=
  ∀ earlier dt later, operations = earlier ++ .update dt :: later → 0 < dt.seconds →
    NoJump limits dt (performAll axis earlier).joint
      (performAll axis (earlier ++ [.update dt])).joint

/-- Before the first step that could move it from zero degrees, a joint with these limits is
given a position between them; or that step is long enough to reach them. -/
def PlacedInTime (limits : Limits ℝ) : List (JointOperation ℝ) → Prop
  | [] => True
  | .initializePosition position :: rest =>
      limits.minPosition.degrees ≤ position.degrees ∧
          position.degrees ≤ limits.maxPosition.degrees ∨
        PlacedInTime limits rest
  | .update dt :: rest =>
      (0 < dt.seconds →
        limits.minPosition.degrees ≤ limits.maxVelocity.degreesPerSecond * dt.seconds ∧
          -limits.maxPosition.degrees ≤ limits.maxVelocity.degreesPerSecond * dt.seconds) ∧
        (dt.seconds ≤ 0 → PlacedInTime limits rest)
  | .setTargetPosition _ :: rest => PlacedInTime limits rest
  | .setAcceleration _ :: rest => PlacedInTime limits rest

section Runs

variable {limits : Limits ℝ} {axis : Axis ℝ} {operation : JointOperation ℝ}
  {operations : List (JointOperation ℝ)}

theorem neverJumps_nil : NeverJumps limits axis [] := by
  intro earlier dt later hsplit
  simp at hsplit

/-- The first operation, and what follows it. -/
theorem neverJumps_cons :
    NeverJumps limits axis (operation :: operations) ↔
      (∀ dt, operation = .update dt → 0 < dt.seconds →
        NoJump limits dt axis.joint (axis.simulate dt).joint) ∧
      NeverJumps limits (perform axis operation) operations := by
  have hstep : ∀ {dt : Duration ℝ}, 0 < dt.seconds →
      performAll axis [.update dt] = axis.simulate dt := fun {dt} hdt =>
    (perform_update axis dt).trans (if_neg (not_le.mpr hdt))
  constructor
  · intro h
    refine ⟨?_, ?_⟩
    · intro dt heq hdt
      have hfirst := h [] dt operations (by rw [heq, List.nil_append]) hdt
      rwa [List.nil_append, hstep hdt] at hfirst
    · intro earlier dt later hsplit hdt
      exact h (operation :: earlier) dt later (by rw [hsplit, List.cons_append]) hdt
  · intro h earlier dt later hsplit hdt
    cases earlier with
    | nil =>
        rw [List.nil_append, List.cons.injEq] at hsplit
        rw [List.nil_append, hstep hdt]
        exact h.1 dt hsplit.1 hdt
    | cons first earlier =>
        rw [List.cons_append, List.cons.injEq] at hsplit
        obtain ⟨rfl, hsplit⟩ := hsplit
        exact h.2 earlier dt later hsplit hdt

/-- An operation that is no step leads to no jump. -/
theorem neverJumps_cons_of_ne (h : ∀ dt, operation ≠ .update dt) :
    NeverJumps limits axis (operation :: operations) ↔
      NeverJumps limits (perform axis operation) operations := by
  rw [neverJumps_cons]
  exact and_iff_right fun dt heq => absurd heq (h dt)

theorem withinLimits_perform (h : axis.WithinLimits) (operation : JointOperation ℝ) :
    (perform axis operation).WithinLimits := by
  cases operation with
  | initializePosition position => exact h.initializePosition position
  | setTargetPosition target => exact h.setTargetPosition target
  | setAcceleration acceleration => exact h.setAcceleration acceleration
  | update dt =>
      rw [perform_update]
      split
      · exact h
      · exact h.moderate.simulate dt

/-- A joint between its limits never jumps, whatever is done with it. -/
theorem neverJumps_of_withinLimits : ∀ (operations : List (JointOperation ℝ)) {axis : Axis ℝ},
    axis.WithinLimits → axis.joint.limits = limits → NeverJumps limits axis operations := by
  intro operations
  induction operations with
  | nil => exact fun _ _ => neverJumps_nil
  | cons operation rest ih =>
      intro axis h hlimits
      have hfirst : ∀ dt, operation = .update dt → 0 < dt.seconds →
          NoJump limits dt axis.joint (axis.simulate dt).joint := fun dt _ hdt =>
        hlimits ▸ noJump_of_withinLimits h hdt
      exact neverJumps_cons.mpr ⟨hfirst, ih (withinLimits_perform h operation)
        ((limits_perform axis operation).trans hlimits)⟩

/-- A position between the limits is accepted. -/
theorem withinLimits_initializePosition (h : axis.Moderate) {position : Angle ℝ}
    (hlow : axis.joint.minPosition.degrees ≤ position.degrees)
    (hhigh : position.degrees ≤ axis.joint.maxPosition.degrees) :
    (perform axis (.initializePosition position)).WithinLimits := by
  have haccepted : axis.joint.initializePosition position =
      (true, { axis.joint with position := position }) :=
    if_neg (not_or.mpr ⟨not_lt.mpr hlow, not_lt.mpr hhigh⟩)
  simp only [perform, Axis.initializePosition, haccepted]
  exact ⟨hlow, hhigh, h.velocity_le, h.acceleration_le⟩

/-- Any other is rejected. -/
theorem perform_initializePosition_of_not {position : Angle ℝ}
    (h : ¬ (axis.joint.minPosition.degrees ≤ position.degrees ∧
      position.degrees ≤ axis.joint.maxPosition.degrees)) :
    perform axis (.initializePosition position) = axis := by
  rw [not_and_or, not_le, not_le] at h
  have hrejected : axis.joint.initializePosition position = (false, axis.joint) := if_pos h
  simp only [perform, Axis.initializePosition, hrejected]

/-- The first step of a joint at zero degrees: from then on it is between its limits. -/
theorem neverJumps_update_iff (h : axis.Moderate) (hzero : axis.joint.position = ⟨0⟩)
    {dt : Duration ℝ} (hdt : 0 < dt.seconds) :
    NeverJumps axis.joint.limits axis (.update dt :: operations) ↔
      axis.joint.minPosition.degrees ≤ axis.joint.maxVelocity.degreesPerSecond * dt.seconds ∧
        -axis.joint.maxPosition.degrees ≤
          axis.joint.maxVelocity.degreesPerSecond * dt.seconds := by
  have hlater := neverJumps_of_withinLimits operations (h.simulate dt)
    (limits_updateJoint dt _ _)
  have hiff := noJump_simulate_iff h hdt
  rw [hzero, sub_zero, zero_sub] at hiff
  rw [neverJumps_cons, perform_update, if_neg (not_le.mpr hdt), ← hiff]
  constructor
  · intro hrun
    exact hrun.1 dt rfl hdt
  · intro hfirst
    refine ⟨?_, hlater⟩
    intro other heq _
    obtain rfl := JointOperation.update.inj heq
    exact hfirst

/-- A joint at zero degrees, between its limits or not. -/
theorem neverJumps_iff_placedInTime : ∀ (operations : List (JointOperation ℝ)) {axis : Axis ℝ},
    axis.Moderate → axis.joint.limits = limits → axis.joint.position = ⟨0⟩ →
      (NeverJumps limits axis operations ↔ PlacedInTime limits operations) := by
  intro operations
  induction operations with
  | nil => exact fun _ _ _ => iff_of_true neverJumps_nil trivial
  | cons operation rest ih =>
      intro axis h hlimits hzero
      subst hlimits
      cases operation with
      | initializePosition position =>
          rw [neverJumps_cons_of_ne (by simp)]
          by_cases hinside : axis.joint.minPosition.degrees ≤ position.degrees ∧
              position.degrees ≤ axis.joint.maxPosition.degrees
          · have hplaced := withinLimits_initializePosition h hinside.1 hinside.2
            exact iff_of_true (neverJumps_of_withinLimits rest hplaced (limits_perform axis _))
              (.inl hinside)
          · rw [perform_initializePosition_of_not hinside, ih h rfl hzero]
            exact (or_iff_right hinside).symm
      | setTargetPosition target =>
          rw [neverJumps_cons_of_ne (by simp)]
          exact ih ⟨h.min_le_max, h.velocity_le, h.acceleration_le⟩ rfl hzero
      | setAcceleration acceleration =>
          rw [neverJumps_cons_of_ne (by simp)]
          exact ih (h.setAcceleration acceleration) rfl hzero
      | update dt =>
          rcases le_or_gt dt.seconds 0 with hstill | hdt
          · have hnever : ¬ 0 < dt.seconds := not_lt.mpr hstill
            rw [neverJumps_cons, perform_update, if_pos hstill, ih h rfl hzero]
            constructor
            · intro hrun
              exact ⟨fun hdt => absurd hdt hnever, fun _ => hrun.2⟩
            · intro hrun
              refine ⟨?_, hrun.2 hstill⟩
              intro other heq hdt
              obtain rfl := JointOperation.update.inj heq
              exact absurd hdt hnever
          · rw [neverJumps_update_iff h hzero hdt]
            constructor
            · intro hreach
              exact ⟨fun _ => hreach, fun hstill => absurd hdt (not_lt.mpr hstill)⟩
            · intro hrun
              exact hrun.1 hdt

end Runs

/-! ## New joints -/

theorem moderate_constructed {limits : Limits ℝ}
    (hposition : limits.minPosition.degrees ≤ limits.maxPosition.degrees)
    (hV : 0 ≤ limits.maxVelocity.degreesPerSecond)
    (hA : 0 ≤ limits.maxAcceleration.degreesPerSecondSquared) : (constructed limits).Moderate :=
  ⟨hposition, abs_zero.trans_le hV, abs_zero.trans_le hA⟩

/-- When a joint never teleports.  For all limits and every sequence of operations from
construction on: no update makes the joint jump if and only if the joint is placed
between its position limits before the first update with a positive time step, or that
update is long enough to reach them from zero degrees at the speed limit. -/
theorem Joint.never_jumps_iff (limits : Limits ℝ)
    (hposition : limits.minPosition.degrees ≤ limits.maxPosition.degrees)
    (hV : 0 ≤ limits.maxVelocity.degreesPerSecond)
    (hA : 0 ≤ limits.maxAcceleration.degreesPerSecondSquared)
    (operations : List (JointOperation ℝ)) :
    NeverJumps limits (constructed limits) operations ↔ PlacedInTime limits operations :=
  neverJumps_iff_placedInTime operations (moderate_constructed hposition hV hA) rfl rfl

/-- Limits around zero degrees are reached at once. -/
theorem Joint.never_jumps_around_zero :
    NeverJumps ⟨⟨-90⟩, ⟨90⟩, ⟨180⟩, ⟨360⟩⟩ (constructed ⟨⟨-90⟩, ⟨90⟩, ⟨180⟩, ⟨360⟩⟩)
      [.setAcceleration ⟨360⟩, .update ⟨1 / 1000⟩, .initializePosition ⟨45⟩, .update ⟨2⟩] := by
  refine (Joint.never_jumps_iff ⟨⟨-90⟩, ⟨90⟩, ⟨180⟩, ⟨360⟩⟩ (by norm_num) (by norm_num)
    (by norm_num) _).mpr ⟨fun _ => ?_, fun hstill => ?_⟩
  · norm_num
  · norm_num at hstill

/-- A joint that moves between 90 and 180 degrees at no more than 60 degrees per second is
at 90 degrees after its first millisecond. -/
theorem Joint.jumps_to_limit :
    let limits : Limits ℝ := ⟨⟨90⟩, ⟨180⟩, ⟨60⟩, ⟨30⟩⟩
    (constructed limits).joint.position = ⟨0⟩ ∧
      (perform (constructed limits) (.update ⟨1 / 1000⟩)).joint.position = ⟨90⟩ ∧
      ¬ NeverJumps limits (constructed limits) [.update ⟨1 / 1000⟩] := by
  intro limits
  have hmoderate : (constructed limits).Moderate :=
    moderate_constructed (by norm_num [limits]) (by norm_num [limits]) (by norm_num [limits])
  have hdt : (0 : ℝ) < (⟨1 / 1000⟩ : Duration ℝ).seconds := by norm_num
  refine ⟨rfl, ?_, ?_⟩
  · rw [perform_update, if_neg (not_le.mpr hdt)]
    have hstep := saturatedStep_simulate hmoderate.maxVelocity_nonneg hmoderate.min_le_max hdt
    have hfree : freePosition (constructed limits) ⟨1 / 1000⟩ ≤ 90 := by
      have htravel := (abs_le.mp (abs_travel_le (v := saturate 60 0) (a := 0)
        hmoderate.maxVelocity_nonneg hdt.le)).2
      refine (zero_add _).trans_le (htravel.trans ?_)
      norm_num [constructed, Joint.new, limits]
    exact Angle.ext (hstep.position.trans (clamp_of_le_lo hfree))
  · intro h
    have hreach := ((neverJumps_update_iff hmoderate rfl hdt).mp h).1
    norm_num [constructed, Joint.new, limits] at hreach

end RobotController.Simulation
