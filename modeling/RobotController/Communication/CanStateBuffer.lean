/-
  Communication/CanStateBuffer.lean --- the buffer that carries the state of joint
  1 to the communication thread.

  Sources: `communication/CanStateBuffer.hpp`, `communication/CanStateBuffer.cpp`.
-/
import RobotController.Core.JointTypes
import RobotController.Foundation.SeqlockProgram

set_option autoImplicit false

namespace RobotController.Communication

open RobotController.Foundation RobotController.Core

/-- `position_degrees_` and `velocity_degrees_per_second_`. -/
inductive StateCell where
  | positionDegrees
  | velocityDegreesPerSecond
  deriving DecidableEq, Repr

namespace CanStateBuffer

variable {R : Type}

/-- `CanStateBuffer::publish`. -/
def publish (state : JointState R) : Program StateCell R Unit := do
  Program.addOne .relaxed
  Program.put .positionDegrees state.position.degrees .relaxed
  Program.put .velocityDegreesPerSecond state.velocity.degreesPerSecond .relaxed
  Program.addOne .release

/-- The attempts of `read`, `state` being the caller's variable. -/
def readAttempts (state : JointState R) : Nat → Program StateCell R (Bool × JointState R)
  | 0 => pure (false, state)
  | left + 1 => do
      let before ← Program.getSequence .acquire
      if before &&& 1 ≠ 0 then
        readAttempts state left
      else
        let position ← Program.get .positionDegrees .relaxed
        let velocity ← Program.get .velocityDegreesPerSecond .relaxed
        let after ← Program.getSequence .acquire
        if before ≠ after then
          readAttempts state left
        else
          pure (true, { state with position := ⟨position⟩, velocity := ⟨velocity⟩ })

/-- `CanStateBuffer::read`, with `max_attempts = 3`. -/
def read (state : JointState R) : Program StateCell R (Bool × JointState R) :=
  readAttempts state 3

/-- The buffer, as its clients see it. -/
def buffer : Buffer StateCell R (JointState R) := ⟨publish, read⟩

/-! ## The sequence lock behind them -/

/-- The two values of a joint state. -/
def cells (state : JointState R) : StateCell → R
  | .positionDegrees => state.position.degrees
  | .velocityDegreesPerSecond => state.velocity.degreesPerSecond

/-- The layout of a joint state. -/
def layout : Layout StateCell R (JointState R) where
  cells := cells
  value got := ⟨⟨got .positionDegrees⟩, ⟨got .velocityDegreesPerSecond⟩⟩
  value_cells := fun _ => rfl
  order := [.positionDegrees, .velocityDegreesPerSecond]
  nodup_order := by decide
  mem_order := fun cell => by cases cell <;> decide

def orders : Seqlock.Orders := ⟨.relaxed, .relaxed, .release, .acquire, .relaxed, .acquire⟩

/-- `position` and `velocity` have no value before they are loaded: any serves. -/
theorem readAttempts_eq (blank : StateCell → R) (state : JointState R) :
    ∀ left : Nat, readAttempts state left =
      Seqlock.attempts layout orders blank state left := by
  intro left
  induction left with
  | zero => rfl
  | succ left ih =>
      simp only [readAttempts, Seqlock.attempts, Program.bind_eq, Program.getSequence_bind,
        Program.get_bind, Program.pure_eq, ne_eq, ite_not, ih]
      rfl

/-- The buffer is a sequence lock. -/
theorem implements (blank : StateCell → R) :
    Seqlock.Implements layout orders blank 2 (buffer : Buffer StateCell R (JointState R))
    where
  publish := fun _ => rfl
  read := fun state => readAttempts_eq blank state 3

/-- A new buffer: `sequence_{0}`, and both values `0.0`. -/
def memory [Double R] : Memory StateCell R := ⟨0, fun _ => 0⟩

end CanStateBuffer

end RobotController.Communication
