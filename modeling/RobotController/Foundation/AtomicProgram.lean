/-
  Foundation/AtomicProgram.lean --- straight-line code over atomic variables.

  A function that communicates through a 64-bit sequence counter and an array of
  atomic cells is a program whose primitive steps are single atomic accesses,
  each with the memory order it asks for.  The orders have no effect on the
  sequentially consistent semantics of this file; they matter to semantics that
  let accesses take effect out of program order.
-/
import Mathlib.Logic.Function.Basic

set_option autoImplicit false

namespace RobotController.Foundation

/-- `std::memory_order`, as far as the sources use it. -/
inductive MemoryOrder where
  | relaxed
  | acquire
  | release
  | seqCst
  deriving DecidableEq, Repr

/-- The shared variables: one `std::atomic<std::uint64_t>` and one
`std::atomic<V>` for each cell. -/
@[ext] structure Memory (ι V : Type) where
  sequence : BitVec 64
  cells : ι → V

/-- A program whose steps are atomic accesses. -/
inductive Program (ι V α : Type) where
  /-- return -/
  | done (result : α)
  /-- `sequence_.fetch_add(1, order)`, its result unused -/
  | fetchAdd (order : MemoryOrder) (next : Program ι V α)
  /-- `sequence_.load(order)` -/
  | loadSequence (order : MemoryOrder) (next : BitVec 64 → Program ι V α)
  /-- `cell.store(value, order)` -/
  | store (cell : ι) (value : V) (order : MemoryOrder) (next : Program ι V α)
  /-- `cell.load(order)` -/
  | load (cell : ι) (order : MemoryOrder) (next : V → Program ι V α)

namespace Program

variable {ι V α β : Type}

/-- Run one program after another. -/
def bind : Program ι V α → (α → Program ι V β) → Program ι V β
  | .done result, continue_ => continue_ result
  | .fetchAdd order next, continue_ => .fetchAdd order (next.bind continue_)
  | .loadSequence order next, continue_ =>
      .loadSequence order fun value => (next value).bind continue_
  | .store cell value order next, continue_ => .store cell value order (next.bind continue_)
  | .load cell order next, continue_ => .load cell order fun value => (next value).bind continue_

instance : Monad (Program ι V) where
  pure := .done
  bind := bind

@[simp] theorem pure_eq (result : α) : (pure result : Program ι V α) = .done result := rfl

@[simp] theorem bind_eq (program : Program ι V α) (continue_ : α → Program ι V β) :
    program >>= continue_ = program.bind continue_ := rfl

/-! ## The primitive accesses -/

/-- `sequence_.fetch_add(1, order)`. -/
def addOne (order : MemoryOrder) : Program ι V Unit := .fetchAdd order (.done ())

/-- `sequence_.load(order)`. -/
def getSequence (order : MemoryOrder) : Program ι V (BitVec 64) := .loadSequence order .done

/-- `cell.store(value, order)`. -/
def put (cell : ι) (value : V) (order : MemoryOrder) : Program ι V Unit :=
  .store cell value order (.done ())

/-- `cell.load(order)`. -/
def get (cell : ι) (order : MemoryOrder) : Program ι V V := .load cell order .done

@[simp] theorem addOne_bind (order : MemoryOrder) (next : Unit → Program ι V α) :
    (addOne order : Program ι V Unit).bind next = .fetchAdd order (next ()) := rfl

@[simp] theorem getSequence_bind (order : MemoryOrder) (next : BitVec 64 → Program ι V α) :
    (getSequence order : Program ι V (BitVec 64)).bind next = .loadSequence order next := rfl

@[simp] theorem put_bind (cell : ι) (value : V) (order : MemoryOrder)
    (next : Unit → Program ι V α) :
    (put cell value order).bind next = .store cell value order (next ()) := rfl

@[simp] theorem get_bind (cell : ι) (order : MemoryOrder) (next : V → Program ι V α) :
    (get cell order).bind next = .load cell order next := rfl

/-! ## Sequentially consistent steps -/

section Steps

variable [DecidableEq ι]

/-- Perform the next access: the rest of the program and the memory afterwards,
or nothing when the program has returned. -/
def step : Program ι V α → Memory ι V → Option (Program ι V α × Memory ι V)
  | .done _, _ => none
  | .fetchAdd _ next, memory => some (next, { memory with sequence := memory.sequence + 1 })
  | .loadSequence _ next, memory => some (next memory.sequence, memory)
  | .store cell value _ next, memory =>
      some (next, { memory with cells := Function.update memory.cells cell value })
  | .load cell _ next, memory => some (next (memory.cells cell), memory)

/-- Run the whole program with no other thread in between. -/
def run : Program ι V α → Memory ι V → α × Memory ι V
  | .done result, memory => (result, memory)
  | .fetchAdd _ next, memory => next.run { memory with sequence := memory.sequence + 1 }
  | .loadSequence _ next, memory => (next memory.sequence).run memory
  | .store cell value _ next, memory =>
      next.run { memory with cells := Function.update memory.cells cell value }
  | .load cell _ next, memory => (next (memory.cells cell)).run memory

end Steps

end Program

end RobotController.Foundation
