/-
  Communication/CanCommandBuffer.lean --- the buffer that carries CAN commands to
  the control thread.

  Sources: `communication/CanCommandBuffer.hpp`, `communication/CanCommandBuffer.cpp`.
-/
import RobotController.Core.JointTypes
import RobotController.Foundation.SeqlockProgram

set_option autoImplicit false

namespace RobotController.Communication

open RobotController.Foundation RobotController.Core

/-- The one cell of the buffer, `target_position_degrees_`. -/
inductive CommandCell where
  | targetPositionDegrees
  deriving DecidableEq, Repr

instance : Subsingleton CommandCell := ⟨fun | .targetPositionDegrees, .targetPositionDegrees => rfl⟩

namespace CanCommandBuffer

variable {R : Type}

/-- `CanCommandBuffer::publish`. -/
def publish (command : JointCommand R) : Program CommandCell R Unit := do
  Program.addOne .relaxed
  Program.put .targetPositionDegrees command.targetPosition.degrees .relaxed
  Program.addOne .release

/-- The attempts of `read`, `command` being the caller's variable. -/
def readAttempts (command : JointCommand R) : Nat →
    Program CommandCell R (Bool × JointCommand R)
  | 0 => pure (false, command)
  | left + 1 => do
      let before ← Program.getSequence .acquire
      if before &&& 1 ≠ 0 then
        readAttempts command left
      else
        let target ← Program.get .targetPositionDegrees .relaxed
        let after ← Program.getSequence .acquire
        if before ≠ after then
          readAttempts command left
        else
          pure (true, { command with targetPosition := ⟨target⟩ })

/-- `CanCommandBuffer::read`, with `max_attempts = 3`. -/
def read (command : JointCommand R) : Program CommandCell R (Bool × JointCommand R) :=
  readAttempts command 3

/-- The buffer, as its clients see it. -/
def buffer : Buffer CommandCell R (JointCommand R) := ⟨publish, read⟩

/-! ## The sequence lock behind them -/

/-- The layout of a command. -/
def layout : Layout CommandCell R (JointCommand R) where
  cells command := fun _ => command.targetPosition.degrees
  value got := ⟨⟨got .targetPositionDegrees⟩⟩
  value_cells := fun _ => rfl
  order := [.targetPositionDegrees]
  nodup_order := List.nodup_singleton _
  mem_order := fun | .targetPositionDegrees => List.mem_singleton_self _

def orders : Seqlock.Orders := ⟨.relaxed, .relaxed, .release, .acquire, .relaxed, .acquire⟩

/-- `target` has no value before it is loaded: any serves. -/
theorem readAttempts_eq (blank : CommandCell → R) (command : JointCommand R) :
    ∀ left : Nat, readAttempts command left =
      Seqlock.attempts layout orders blank command left := by
  intro left
  induction left with
  | zero => rfl
  | succ left ih =>
      simp only [readAttempts, Seqlock.attempts, Program.bind_eq, Program.getSequence_bind,
        Program.get_bind, Program.pure_eq, ne_eq, ite_not, ih]
      rfl

/-- The buffer is a sequence lock. -/
theorem implements (blank : CommandCell → R) :
    Seqlock.Implements layout orders blank 2 (buffer : Buffer CommandCell R (JointCommand R))
    where
  publish := fun _ => rfl
  read := fun command => readAttempts_eq blank command 3

/-- A new buffer: `sequence_{0}`, `target_position_degrees_{0.0}`. -/
def memory [Double R] : Memory CommandCell R := ⟨0, fun _ => 0⟩

end CanCommandBuffer

end RobotController.Communication
