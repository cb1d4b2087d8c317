/-
  System/StateRange.lean --- transmitted state frames are in range.

  Sources: `communication/CanCommunication.cpp` (`transmitState`),
  `communication/JointStateCodec.cpp`, `control/ControlLoop.cpp` (`update`).

  The encoder converts without a check.  It is given what the communication thread has
  read, which is what the cycles have published, which are states of joint 1; and those
  are within its limits whatever was commanded.
-/
import RobotController.Core.Configuration
import RobotController.System.Coordination

set_option autoImplicit false

namespace RobotController.Communication

open RobotController.Foundation RobotController.Core

section Exact

variable {K : Type} [Field K] [LinearOrder K]

/-! ## States in range -/

/-- Within the limits of joint 1. -/
structure InRange (state : JointState K) : Prop where
  position : |state.position.degrees| ≤ 180
  velocity : |state.velocity.degreesPerSecond| ≤ 60

variable [IsStrictOrderedRing K] [FloorRing K]

/-- A number of at most 32 bits' magnitude is converted to itself, less its fraction. -/
theorem toInt32_of_abs_le {x : K} {bound : Nat} (h : |x| ≤ bound) (hbound : bound < 2 ^ 31) :
    ∃ word : BitVec 32, toInt32 x = some word ∧ |word.toInt| ≤ bound := by
  obtain ⟨hlow, hhigh⟩ := abs_le.mp h
  have htruncate : ∃ n : Int, truncate x = some n ∧ -(bound : Int) ≤ n ∧ n ≤ bound := by
    by_cases hx : 0 ≤ x
    · refine ⟨⌊x⌋, congrArg some (if_pos hx), ?_, ?_⟩
      · have hnonneg : 0 ≤ ⌊x⌋ := Int.floor_nonneg.mpr hx
        omega
      · exact_mod_cast (Int.floor_le x).trans hhigh
    · refine ⟨⌈x⌉, congrArg some (if_neg hx), ?_, ?_⟩
      · have hle : ((-(bound : Int) : Int) : K) ≤ ⌈x⌉ := by
          push_cast
          exact hlow.trans (Int.le_ceil x)
        exact_mod_cast hle
      · have hnonpos : ⌈x⌉ ≤ 0 := Int.ceil_le.mpr (by simpa using (not_le.mp hx).le)
        omega
  obtain ⟨n, hn, hlow, hhigh⟩ := htruncate
  refine ⟨BitVec.ofInt 32 n, ?_, ?_⟩
  · rw [toInt32, hn]
    exact if_pos (by omega)
  · rw [BitVec.toInt_ofInt_eq_self (by decide) (by omega) (by omega), abs_le]
    exact ⟨hlow, hhigh⟩

/-- A frame that carries a state in range: both fields are, and so is what it is decoded
to. -/
structure CarriesInRange (frame : CanFrame) : Prop where
  position : -18000 ≤ (frame.word 0).toInt ∧ (frame.word 0).toInt ≤ 18000
  velocity : -6000 ≤ (frame.word 4).toInt ∧ (frame.word 4).toInt ≤ 6000
  decoded : ∀ given : JointState K, (JointStateCodec.decode frame given).1 = true ∧
    InRange (JointStateCodec.decode frame given).2

/-- The hundredths of a number within a bound. -/
theorem toInt32_hundredths {x : K} (bound : Nat) (h : |x| ≤ bound)
    (hbound : bound * 100 < 2 ^ 31) :
    ∃ word : BitVec 32, toInt32 (x * literal 100) = some word ∧
      |word.toInt| ≤ (bound * 100 : Nat) := by
  refine toInt32_of_abs_le ?_ hbound
  have hhundred : (literal 100 : K) = 100 := by simp
  rw [hhundred, abs_mul, abs_of_pos (by norm_num : (0 : K) < 100)]
  push_cast
  exact mul_le_mul_of_nonneg_right h (by norm_num)

theorem abs_ofInt32_le {word : BitVec 32} (bound : Nat) (h : |word.toInt| ≤ (bound * 100 : Nat)) :
    |(ofInt32 word / literal 100 : K)| ≤ bound := by
  have hhundred : (literal 100 : K) = 100 := by simp
  have hword : |(word.toInt : K)| ≤ (bound * 100 : Nat) := by exact_mod_cast h
  rw [hhundred, abs_div, abs_of_pos (by norm_num : (0 : K) < 100), div_le_iff₀ (by norm_num)]
  push_cast at hword
  exact hword

/-- A state in range is encoded, and its frame carries it in range. -/
theorem InRange.encode {state : JointState K} (h : InRange state) :
    ∃ frame, JointStateCodec.encode state = some frame ∧ CarriesInRange (K := K) frame := by
  obtain ⟨position, hposition, hposition'⟩ :=
    toInt32_hundredths 180 (by exact_mod_cast h.position) (by decide)
  obtain ⟨velocity, hvelocity, hvelocity'⟩ :=
    toInt32_hundredths 60 (by exact_mod_cast h.velocity) (by decide)
  obtain ⟨hword, hword'⟩ := JointStateCodec.words_stateFrame position velocity
  refine ⟨_, JointStateCodec.encode_of_words hposition hvelocity, ?_, ?_, ?_⟩
  · rw [hword]
    exact abs_le.mp hposition'
  · rw [hword']
    exact abs_le.mp hvelocity'
  · intro given
    rw [JointStateCodec.decode_stateFrame]
    exact ⟨rfl, by exact_mod_cast abs_ofInt32_le 180 hposition',
      by exact_mod_cast abs_ofInt32_le 60 hvelocity'⟩

end Exact

end RobotController.Communication

namespace RobotController.System

open RobotController.Foundation RobotController.Core RobotController.Communication
open RobotController.Control RobotController.Synchronization

namespace Controller

/-! ## The robot and what is published of it -/

section Generic

variable {R τ : Type} [Double R]

/-- Steering and updating are operations of the robot. -/
theorem exists_run_of_steer (read : Bool × JointCommand R) (robot : Robot R) :
    ∃ operations, (ControlLoop.steer read robot).update ControlLoop.dt =
      robot.run operations := by
  unfold ControlLoop.steer
  split
  · exact ⟨[.setJointTargetPosition ⟨0⟩ read.2.targetPosition, .update ControlLoop.dt], rfl⟩
  · exact ⟨[.update ControlLoop.dt], rfl⟩

variable [IntConversion R] [DecidableEq τ] {s s' : Controller R τ} {event : ControllerEvent R τ}

/-- Whatever happens, the robot is operated on. -/
theorem exists_run_of_step (h : Step s event s') :
    ∃ operations, s'.robot = s.robot.run operations := by
  cases h with
  | operate operation _ => exact ⟨[operation], rfl⟩
  | steer _ _ _ => exact exists_run_of_steer _ _
  | _ => exact ⟨[], rfl⟩

/-- What is published of joint 1 is its state. -/
theorem canState_history_of_step (h : Step s event s') :
    s'.canState.history = s.canState.history ∨
      s'.canState.history = s.canState.history ++ [s.robot.state 0] := by
  cases h with
  | publishState _ hbuffer => exact .inr hbuffer.of_publish.1
  | writeState _ hbuffer => exact .inl hbuffer.of_write.1
  | sample _ hbuffer => exact .inl (hbuffer.of_isRead trivial).1
  | accessState _ hbuffer => exact .inl (hbuffer.of_isRead trivial).1
  | readCanState hbuffer => exact .inl (hbuffer.of_isRead trivial).1
  | accessCanState hbuffer => exact .inl (hbuffer.of_isRead trivial).1
  | _ => exact .inl rfl

/-! ## Reads that mix two publications -/

/-- The steps of the program, and transmissions of a read that has mixed the position of
one publication with the velocity of another. -/
inductive LooseStep : Controller R τ → ControllerEvent R τ → Controller R τ → Prop where
  | strict {s s' : Controller R τ} {event : ControllerEvent R τ} :
      Step s event s' → LooseStep s event s'
  | transmitMixed {s : Controller R τ} {first second : JointState R} {frame : CanFrame} :
      s.link = .reading → first ∈ s.canState.history → second ∈ s.canState.history →
      JointStateCodec.encode ⟨first.position, second.velocity⟩ = some frame →
      LooseStep s .transmit
        { s with traffic := s.traffic.finish (some frame), link := .receiving }

/-- The states such an execution reaches around a robot that has been operated on. -/
def LooseReached (s : Controller R τ) : Prop :=
  Reachable (fun start => ∃ operations, start = initial (Robot.initial.run operations))
    LooseStep s

end Generic

section Exact

variable {K τ : Type} [Field K] [LinearOrder K] [IsStrictOrderedRing K]

/-- Joint 1 of a robot that has been operated on is within its limits. -/
theorem inRange_state (operations : List (RobotOperation K)) :
    InRange (((Robot.initial : Robot K).run operations).state 0) := by
  set robot : Robot K := Robot.initial.run operations with hrobot
  have hwithin : (robot.axis 0).WithinLimits := Robot.withinLimits_run operations 0
  have hlimits : (robot.joints 0).limits = Robot.limits K 0 := Robot.configured_run operations 0
  simp only [Joint.limits, Robot.limits, Limits.mk.injEq, Angle.ext_iff,
    AngularVelocity.ext_iff, literal_exact] at hlimits
  obtain ⟨hmin, hmax, hvelocity, -⟩ := hlimits
  have hlimit : (Robot.positionLimit 0 : K) = 180 := by
    have hvalue : Robot.positionLimit 0 = 180 := rfl
    rw [hvalue]
    norm_num
  push_cast at hmin
  rw [hlimit] at hmin hmax
  have hlow : (robot.joints 0).minPosition.degrees ≤ (robot.joints 0).position.degrees :=
    hwithin.min_le_position
  have hhigh : (robot.joints 0).position.degrees ≤ (robot.joints 0).maxPosition.degrees :=
    hwithin.position_le_max
  have hspeed : |(robot.joints 0).velocity.degreesPerSecond| ≤
      (robot.joints 0).maxVelocity.degreesPerSecond := hwithin.velocity_le
  rw [hmin] at hlow
  rw [hmax] at hhigh
  rw [hvelocity] at hspeed
  exact ⟨abs_le.mpr ⟨hlow, hhigh⟩, by exact_mod_cast hspeed⟩

/-- What holds of the program however the reads of the state of joint 1 are mixed. -/
structure Ranged (s : Controller K τ) : Prop where
  coordinated : s.Coordinated
  locked : s.Locked
  robot : ∃ operations, s.robot = Robot.initial.run operations
  history : ∀ state ∈ s.canState.history, InRange state

theorem ranged_initial (operations : List (RobotOperation K)) :
    (initial (Robot.initial.run operations) : Controller K τ).Ranged where
  coordinated := coordinated_initial _
  locked := locked_initial _
  robot := ⟨operations, rfl⟩
  history := by
    intro state hstate
    obtain rfl := List.mem_singleton.mp hstate
    constructor <;> simp [JointState.default]

variable [FloorRing K] [DecidableEq τ] {s s' : Controller K τ} {event : ControllerEvent K τ}

theorem Ranged.step (h : s.Ranged) (hstep : LooseStep s event s') : s'.Ranged := by
  cases hstep with
  | strict hstep =>
      obtain ⟨operations, hrobot⟩ := h.robot
      refine ⟨h.coordinated.step hstep, h.locked.step h.coordinated hstep, ?_, ?_⟩
      · obtain ⟨further, hfurther⟩ := exists_run_of_step hstep
        exact ⟨operations ++ further, by rw [hfurther, hrobot, Robot.run_append]⟩
      · intro state hstate
        rcases canState_history_of_step hstep with hsame | hadded
        · exact h.history state (hsame ▸ hstate)
        · rw [hadded] at hstate
          rcases List.mem_append.mp hstate with hold | hnew
          · exact h.history state hold
          · rw [List.mem_singleton.mp hnew, hrobot]
            exact inRange_state operations
  | transmitMixed _ _ _ _ =>
      exact ⟨{ h.coordinated with stage := rfl }, { h.locked with }, h.robot, h.history⟩

theorem LooseReached.ranged (h : s.LooseReached) : s.Ranged := by
  refine h.invariant Ranged ?_ fun _ _ _ hs hstep => hs.step hstep
  rintro start ⟨operations, rfl⟩
  exact ranged_initial operations

/-- Transmitted state frames are always in range.  Whatever operations a robot has been
through, whatever frames arrive and however the threads interleave: a state that the
communication thread has read, and one mixed of two publications, is encoded without an
undefined conversion, and every transmission is of a frame that carries a state in
range. -/
theorem transmitted_in_range (hs : s.LooseReached) :
    (∀ (call : Call StateCell K (JointState K)) (state : JointState K),
      s.link = .reading → s.canState.calls none = some call → call.result = some (true, state) →
        ∃ frame, JointStateCodec.encode state = some frame ∧
          CarriesInRange (K := K) frame) ∧
    (∀ first ∈ s.canState.history, ∀ second ∈ s.canState.history,
      ∃ frame, JointStateCodec.encode ⟨first.position, second.velocity⟩ = some frame ∧
        CarriesInRange (K := K) frame) ∧
    ∀ s', LooseStep s .transmit s' →
      s'.traffic = s.traffic.finish none ∨
        ∃ frame, CarriesInRange (K := K) frame ∧ s'.traffic = s.traffic.finish (some frame) := by
  have hranged := hs.ranged
  have hread : ∀ (call : Call StateCell K (JointState K)) (state : JointState K),
      s.canState.calls none = some call → call.result = some (true, state) →
        ∃ frame, JointStateCodec.encode state = some frame ∧
          CarriesInRange (K := K) frame := by
    intro call state hcall hresult
    obtain ⟨n, -, -, hn⟩ := hranged.locked.canState.of_true hcall hresult
    exact (hranged.history state (List.mem_of_getElem? hn)).encode
  have hmixed : ∀ first ∈ s.canState.history, ∀ second ∈ s.canState.history,
      ∃ frame, JointStateCodec.encode ⟨first.position, second.velocity⟩ = some frame ∧
        CarriesInRange (K := K) frame := by
    intro first hfirst second hsecond
    exact InRange.encode
      ⟨(hranged.history first hfirst).position, (hranged.history second hsecond).velocity⟩
  refine ⟨fun call state _ => hread call state, hmixed, ?_⟩
  intro s' hstep
  cases hstep with
  | strict hstep =>
      cases hstep with
      | transmitState _ hcall hresult hencode =>
          obtain ⟨frame, hframe, hcarries⟩ := hread _ _ hcall hresult
          obtain rfl := Option.some.inj (hencode.symm.trans hframe)
          exact .inr ⟨_, hcarries, rfl⟩
      | transmitNothing _ _ _ => exact .inl rfl
  | transmitMixed _ hfirst hsecond hencode =>
      obtain ⟨frame, hframe, hcarries⟩ := hmixed _ hfirst _ hsecond
      obtain rfl := Option.some.inj (hencode.symm.trans hframe)
      exact .inr ⟨_, hcarries, rfl⟩

end Exact

/-- A command to more than twenty-one million degrees. -/
def extreme : CanFrame := JointCommandCodec.commandFrame 2147483647

/-- The command is received and published, a cycle follows it, and the communication thread
reads the state. -/
def extremeCommand : List (ControllerEvent ℚ Unit) :=
  [.external extreme, .receive] ++ List.replicate 3 .writeCommand ++ startEvents () 1 ++
    updateEvents ++ [.sample] ++ List.replicate 4 .accessState

theorem transmitted_in_range_extreme :
    ∃ (s s' : Controller ℚ Unit) (frame : CanFrame), s.LooseReached ∧
      s.traffic.received = [extreme] ∧ s.loop.members.measuredCycles = 1 ∧
      Step s .transmit s' ∧ s'.traffic = s.traffic.finish (some frame) ∧
      CarriesInRange (K := ℚ) frame := by
  have hrun : ∃ (s : Controller ℚ Unit) (call : Call StateCell ℚ (JointState ℚ))
      (state : JointState ℚ), extremeCommand.foldlM next (initial Robot.initial) = some s ∧
      s.traffic.received = [extreme] ∧ s.loop.members.measuredCycles = 1 ∧
      s.link = .reading ∧ s.canState.calls none = some call ∧
      call.result = some (true, state) := ⟨_, _, _, rfl, rfl, rfl, rfl, rfl, rfl⟩
  obtain ⟨s, call, state, hs, hreceived, hcycle, hlink, hcall, hresult⟩ := hrun
  have hexec : Execution LooseStep (initial Robot.initial) extremeCommand s :=
    Execution.of_schedule (fun _ _ _ h => .strict (step_of_next h)) extremeCommand hs
  have hreached : s.LooseReached := ⟨_, _, ⟨[], rfl⟩, hexec⟩
  obtain ⟨frame, hencode, hcarries⟩ :=
    (transmitted_in_range hreached).1 call state hlink hcall hresult
  exact ⟨s, _, frame, hreached, hreceived, hcycle,
    .transmitState hlink hcall hresult hencode, rfl, hcarries⟩

end Controller

end RobotController.System
