/-
  Foundation/Reordering.lean --- accesses that take effect out of program order.

  A thread issues the accesses of its program in order, and each issued access
  takes effect at a later step of its own.  An access may take effect before an
  earlier one of its thread as far as their memory orders allow.  A load is issued
  with the value it is going to return and takes effect only when the variable
  holds it, so that the accesses after it can be issued before it has taken
  effect.

  The file runs one writer and one reader of a buffer in this way.
-/
import RobotController.Foundation.SeqlockProgram

set_option autoImplicit false

namespace RobotController.Foundation

/-! ## Memory orders -/

/-- No later access takes effect before a load with this order. -/
def MemoryOrder.acquires : MemoryOrder → Bool
  | .acquire => true
  | .seqCst => true
  | _ => false

/-- A write with this order takes effect after all earlier accesses. -/
def MemoryOrder.releases : MemoryOrder → Bool
  | .release => true
  | .seqCst => true
  | _ => false

/-! ## Issued accesses -/

/-- An issued access; a load carries the value it returns. -/
inductive Access (ι V : Type) where
  | fetchAdd (order : MemoryOrder)
  | loadSequence (order : MemoryOrder) (value : BitVec 64)
  | store (cell : ι) (value : V) (order : MemoryOrder)
  | load (cell : ι) (order : MemoryOrder) (value : V)

namespace Access

variable {ι V : Type}

/-- The variable accessed: a cell, or the sequence. -/
def variable_ : Access ι V → Option ι
  | .fetchAdd _ => none
  | .loadSequence _ _ => none
  | .store cell _ _ => some cell
  | .load cell _ _ => some cell

/-- Whether no later access takes effect before this one. -/
def acquires : Access ι V → Bool
  | .loadSequence order _ => order.acquires
  | .load _ order _ => order.acquires
  | _ => false

/-- Whether this one takes effect after all earlier accesses. -/
def releases : Access ι V → Bool
  | .fetchAdd order => order.releases
  | .store _ _ order => order.releases
  | _ => false

/-- Whether the access may take effect before the given earlier access of the same
thread. -/
def MayOvertake (access earlier : Access ι V) : Prop :=
  access.variable_ ≠ earlier.variable_ ∧ access.releases = false ∧ earlier.acquires = false

/-- An increment of the sequence. -/
def isFetchAdd : Access ι V → Bool
  | .fetchAdd _ => true
  | _ => false

/-- A load of the sequence. -/
def isLoadSequence : Access ι V → Bool
  | .loadSequence _ _ => true
  | _ => false

/-- A store to a cell. -/
def isStore : Access ι V → Bool
  | .store _ _ _ => true
  | _ => false

/-- A load of a cell. -/
def isLoad : Access ι V → Bool
  | .load _ _ _ => true
  | _ => false

/-- Taking effect: what the access does to the memory, when the memory allows it. -/
inductive Performs [DecidableEq ι] : Access ι V → Memory ι V → Memory ι V → Prop where
  | fetchAdd {order : MemoryOrder} {memory : Memory ι V} :
      Performs (.fetchAdd order) memory { memory with sequence := memory.sequence + 1 }
  | loadSequence {order : MemoryOrder} {memory : Memory ι V} :
      Performs (.loadSequence order memory.sequence) memory memory
  | store {cell : ι} {value : V} {order : MemoryOrder} {memory : Memory ι V} :
      Performs (.store cell value order) memory
        { memory with cells := Function.update memory.cells cell value }
  | load {cell : ι} {order : MemoryOrder} {memory : Memory ι V} :
      Performs (.load cell order (memory.cells cell)) memory memory

namespace Performs

variable [DecidableEq ι] {memory : Memory ι V} {order : MemoryOrder}

theorem loadSequence_of_eq {value : BitVec 64} (h : memory.sequence = value) :
    (Access.loadSequence order value : Access ι V).Performs memory memory := by
  subst h
  exact .loadSequence

theorem load_of_eq {cell : ι} {value : V} (h : memory.cells cell = value) :
    (Access.load cell order value).Performs memory memory := by
  subst h
  exact .load

end Performs

end Access

/-- Issuing the next access of a program. -/
inductive Program.Issues {ι V β : Type} :
    Program ι V β → Access ι V → Program ι V β → Prop where
  | fetchAdd {order : MemoryOrder} {next : Program ι V β} :
      Issues (.fetchAdd order next) (.fetchAdd order) next
  | loadSequence {order : MemoryOrder} {next : BitVec 64 → Program ι V β} (value : BitVec 64) :
      Issues (.loadSequence order next) (.loadSequence order value) (next value)
  | store {cell : ι} {value : V} {order : MemoryOrder} {next : Program ι V β} :
      Issues (.store cell value order next) (.store cell value order) next
  | load {cell : ι} {order : MemoryOrder} {next : V → Program ι V β} (value : V) :
      Issues (.load cell order next) (.load cell order value) (next value)

/-! ## Threads -/

/-- A thread that makes one call after another: the results of the calls it has
left behind, the rest of the program of its current call, and the accesses that
have been issued and not taken effect, each with the number of its call. -/
structure Thread (ι V β : Type) where
  pending : List (Nat × Access ι V)
  program : Program ι V β
  results : List β

namespace Thread

variable {ι V β : Type}

/-- Begin a call; the current one has returned `result`. -/
def begin (thread : Thread ι V β) (result : β) (program : Program ι V β) : Thread ι V β :=
  { thread with program := program, results := thread.results ++ [result] }

/-- Issue an access of the current call. -/
def issue (thread : Thread ι V β) (access : Access ι V) (next : Program ι V β) :
    Thread ι V β :=
  { thread with
    pending := thread.pending ++ [(thread.results.length, access)]
    program := next }

/-- What every call returned that has. -/
def returned (thread : Thread ι V β) : List β :=
  thread.results ++ thread.program.returned.toList

/-- All accesses of the call have taken effect. -/
def Settled (thread : Thread ι V β) (call : Nat) : Prop :=
  ∀ entry ∈ thread.pending, entry.1 ≠ call

end Thread

/-- One writer and one reader of a buffer.  `published` holds the values `publish`
was called with; `increments` counts the increments of the sequence that have
taken effect, and `attempt` is their number at the first sequence load of the
reader's attempt in progress. -/
structure Reordered (ι V α : Type) where
  memory : Memory ι V
  writer : Thread ι V Unit
  reader : Thread ι V (Bool × α)
  published : List α
  increments : Nat
  attempt : Option Nat

/-- What the two threads may do.  An access that takes effect names the earlier
accesses of its thread that have not. -/
inductive ReorderedEvent (ι V α : Type) where
  | publish (value : α)
  | read (given : α)
  | issueWriter (access : Access ι V)
  | issueReader (access : Access ι V)
  | writerEffect (access : Access ι V) (overtaken : List (Nat × Access ι V))
  | readerEffect (access : Access ι V) (overtaken : List (Nat × Access ι V))

namespace Reordered

variable {ι V α : Type}

/-- A new buffer; the reader has made its first call. -/
def initial (buffer : Buffer ι V α) (memory : Memory ι V) (given : α) : Reordered ι V α where
  memory := memory
  writer := ⟨[], .done (), []⟩
  reader := ⟨[], buffer.read given, []⟩
  published := []
  increments := 0
  attempt := none

/-- Sequence loads open and close the attempts of the reader. -/
def attemptAfter (s : Reordered ι V α) : Access ι V → Option Nat
  | .loadSequence _ value =>
      match s.attempt with
      | some _ => none
      | none => if value &&& 1 = 0 then some s.increments else none
  | _ => s.attempt

/-- The increments after an access of the writer. -/
def incrementsAfter (s : Reordered ι V α) : Access ι V → Nat
  | .fetchAdd _ => s.increments + 1
  | _ => s.increments

inductive Step [DecidableEq ι] (buffer : Buffer ι V α) :
    Reordered ι V α → ReorderedEvent ι V α → Reordered ι V α → Prop where
  | publish {s : Reordered ι V α} (value : α) :
      s.writer.program = .done () →
      Step buffer s (.publish value)
        { s with
          writer := s.writer.begin () (buffer.publish value)
          published := s.published ++ [value] }
  | read {s : Reordered ι V α} {result : Bool × α} (given : α) :
      s.reader.program = .done result →
      Step buffer s (.read given)
        { s with reader := s.reader.begin result (buffer.read given) }
  | issueWriter {s : Reordered ι V α} {access : Access ι V} {next : Program ι V Unit} :
      s.writer.program.Issues access next →
      Step buffer s (.issueWriter access) { s with writer := s.writer.issue access next }
  | issueReader {s : Reordered ι V α} {access : Access ι V} {next : Program ι V (Bool × α)} :
      s.reader.program.Issues access next →
      Step buffer s (.issueReader access) { s with reader := s.reader.issue access next }
  | writerEffect {s : Reordered ι V α} {call : Nat} {access : Access ι V}
      {front back : List (Nat × Access ι V)} {memory : Memory ι V} :
      s.writer.pending = front ++ (call, access) :: back →
      (∀ entry ∈ front, access.MayOvertake entry.2) →
      access.Performs s.memory memory →
      Step buffer s (.writerEffect access front)
        { s with
          memory := memory
          writer := { s.writer with pending := front ++ back }
          increments := s.incrementsAfter access }
  | readerEffect {s : Reordered ι V α} {call : Nat} {access : Access ι V}
      {front back : List (Nat × Access ι V)} {memory : Memory ι V} :
      s.reader.pending = front ++ (call, access) :: back →
      (∀ entry ∈ front, access.MayOvertake entry.2) →
      access.Performs s.memory memory →
      Step buffer s (.readerEffect access front)
        { s with
          memory := memory
          reader := { s.reader with pending := front ++ back }
          attempt := s.attemptAfter access }

namespace Step

variable [DecidableEq ι] {buffer : Buffer ι V α} {s : Reordered ι V α} {call : Nat}
  {access : Access ι V} {back : List (Nat × Access ι V)} {memory : Memory ι V}

/-- The first pending access of the writer takes effect. -/
theorem writerNext (hpending : s.writer.pending = (call, access) :: back)
    (hperforms : access.Performs s.memory memory) :
    Step buffer s (.writerEffect access [])
      { s with
        memory := memory
        writer := { s.writer with pending := back }
        increments := s.incrementsAfter access } :=
  .writerEffect hpending (fun _ h => absurd h List.not_mem_nil) hperforms

/-- The first pending access of the reader takes effect. -/
theorem readerNext (hpending : s.reader.pending = (call, access) :: back)
    (hperforms : access.Performs s.memory memory) :
    Step buffer s (.readerEffect access [])
      { s with
        memory := memory
        reader := { s.reader with pending := back }
        attempt := s.attemptAfter access } :=
  .readerEffect hpending (fun _ h => absurd h List.not_mem_nil) hperforms

end Step

/-- Every call that returned true, once its accesses have taken effect, returned
the initial value or one that was published. -/
def Untorn (first : α) (s : Reordered ι V α) : Prop :=
  ∀ call out, s.reader.returned[call]? = some (true, out) → s.reader.Settled call →
    out = first ∨ out ∈ s.published

/-! ## Orderly runs -/

/-- Fewer than `2 ^ 63` publications begin while an attempt is in progress. -/
def NoWrap (s : Reordered ι V α) : Prop :=
  ∀ opened, s.attempt = some opened → s.increments + 1 < opened + 2 ^ 64

end Reordered

/-- No store takes effect before an earlier increment of the sequence, and no load
of the sequence before an earlier load of a cell. -/
def ReorderedEvent.Orderly {ι V α : Type} : ReorderedEvent ι V α → Prop
  | .writerEffect access overtaken =>
      access.isStore = true → ∀ entry ∈ overtaken, entry.2.isFetchAdd = false
  | .readerEffect access overtaken =>
      access.isLoadSequence = true → ∀ entry ∈ overtaken, entry.2.isLoad = false
  | _ => True

namespace ReorderedEvent

variable {ι V α : Type}

theorem Orderly.writerNext (access : Access ι V) :
    (writerEffect access [] : ReorderedEvent ι V α).Orderly :=
  fun _ _ h => absurd h List.not_mem_nil

theorem Orderly.readerNext (access : Access ι V) :
    (readerEffect access [] : ReorderedEvent ι V α).Orderly :=
  fun _ _ h => absurd h List.not_mem_nil

end ReorderedEvent

/-- The steps that keep to these orders, and wrap nothing around. -/
def Reordered.OrderlyStep {ι V α : Type} [DecidableEq ι] (buffer : Buffer ι V α) :
    Reordered ι V α → ReorderedEvent ι V α → Reordered ι V α → Prop :=
  fun s event s' => Reordered.Step buffer s event s' ∧ event.Orderly ∧ s'.NoWrap

end RobotController.Foundation
