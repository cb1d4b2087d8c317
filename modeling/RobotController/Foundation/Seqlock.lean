/-
  Foundation/Seqlock.lean --- single-writer sequence locks.

  A value that does not fit in one atomic variable is laid out over several
  cells.  The writer makes a sequence counter odd, stores the cells, and makes
  the counter even again; a reader loads the counter, the cells and the counter
  again, and accepts what it loaded when both counters are equal and even.

  This file is the machine in the abstract: the cells are visited in any order,
  and each call carries what a specification says about it (which publications
  had completed when it began, whether the writer was idle throughout).  Its
  invariant, `Sound`, says that an accepted read is one publication, and a recent
  one.  That programs in particular are such machines is `SeqlockProgram.lean`.
-/
import RobotController.Foundation.AtomicProgram
import Mathlib.Algebra.Group.Nat.Defs
import Mathlib.Data.List.Basic

set_option autoImplicit false

namespace RobotController.Foundation

/-- How values are laid out over cells, and the order in which programs visit
them. -/
structure Layout (ι V α : Type) where
  cells : α → ι → V
  value : (ι → V) → α
  value_cells : ∀ a, value (cells a) = a
  order : List ι
  nodup_order : order.Nodup
  mem_order : ∀ i, i ∈ order

namespace Seqlock

/-! ## The machine -/

/-- Where the writer stands. -/
inductive Writer (ι α : Type) where
  /-- between two publications -/
  | idle
  /-- called, the sequence still even -/
  | marking (value : α)
  /-- the sequence odd, the cells of `rest` still to be stored -/
  | storing (value : α) (rest : List ι)

/-- Where a read stands. -/
inductive Phase (ι V α : Type) where
  /-- before the first sequence load of an attempt, `left` more to follow -/
  | attempting (left : Nat)
  /-- `before` was loaded when `base` publications had completed, and the cells
  outside `rest` have been loaded into `got` -/
  | loading (left : Nat) (before : BitVec 64) (base : Nat) (rest : List ι) (got : ι → V)
  | returned (ok : Bool) (out : α)

/-- A read call: how many publications had completed when it began, the value its
caller held then, and whether the writer has been idle since. -/
@[ext] structure Reading (ι V α : Type) where
  since : Nat
  given : α
  quiet : Bool
  phase : Phase ι V α

/-- The lock with its writer and its readers.  `history` holds the initial value
and then every value a publication was called with. -/
@[ext] structure State (ι V α T : Type) where
  memory : Memory ι V
  writer : Writer ι α
  readers : T → Option (Reading ι V α)
  history : List α
  completed : Nat

section Definitions

variable {ι V α T : Type}

/-- Publications that have begun and not completed. -/
def Writer.begun : Writer ι α → Nat
  | .idle => 0
  | .marking _ => 1
  | .storing _ _ => 1

/-- Publications that have made the sequence odd. -/
def Writer.marked : Writer ι α → Nat
  | .idle => 0
  | .marking _ => 0
  | .storing _ _ => 1

/-- The value that is being published. -/
def Writer.value : Writer ι α → Option α
  | .idle => none
  | .marking value => some value
  | .storing value _ => some value

/-- After a failed attempt: try again, or give up and leave the caller's value as
it is. -/
def Phase.retry (given : α) : Nat → Phase ι V α
  | 0 => .returned false given
  | left + 1 => .attempting left

/-- The publications completed when the current attempt began, if one is in
progress. -/
def Reading.attempt (reading : Reading ι V α) : Option Nat :=
  match reading.phase with
  | .loading _ _ base _ _ => some base
  | _ => none

/-- What the reading returned, once it has. -/
def Reading.result (reading : Reading ι V α) : Option (Bool × α) :=
  match reading.phase with
  | .returned ok out => some (ok, out)
  | _ => none

/-- A publication begins: the writer is no longer idle. -/
def Reading.disturb (reading : Reading ι V α) : Reading ι V α := { reading with quiet := false }

namespace State

/-- The publication the value in cell `i` belongs to. -/
def stamp [DecidableEq ι] (q : State ι V α T) (i : ι) : Nat :=
  match q.writer with
  | .storing _ rest => if i ∈ rest then q.completed else q.completed + 1
  | _ => q.completed

def publish (q : State ι V α T) (value : α) : State ι V α T :=
  { q with
    writer := .marking value
    history := q.history ++ [value]
    readers := fun t => (q.readers t).map Reading.disturb }

def mark (layout : Layout ι V α) (q : State ι V α T) (value : α) : State ι V α T :=
  { q with
    memory := { q.memory with sequence := q.memory.sequence + 1 }
    writer := .storing value layout.order }

def store [DecidableEq ι] (layout : Layout ι V α) (q : State ι V α T) (value : α)
    (rest : List ι) (i : ι) : State ι V α T :=
  { q with
    memory :=
      { q.memory with cells := Function.update q.memory.cells i (layout.cells value i) }
    writer := .storing value (rest.erase i) }

def unmark (q : State ι V α T) : State ι V α T :=
  { q with
    memory := { q.memory with sequence := q.memory.sequence + 1 }
    writer := .idle
    completed := q.completed + 1 }

/-- Whether the writer is between two publications. -/
def isIdle (q : State ι V α T) : Bool :=
  match q.writer with
  | .idle => true
  | _ => false

variable [DecidableEq T]

/-- A read call with `retries + 1` attempts. -/
def read (retries : Nat) (q : State ι V α T) (t : T) (given : α) : State ι V α T :=
  { q with
    readers := Function.update q.readers t
      (some ⟨q.completed, given, q.isIdle, .attempting retries⟩) }

def advance (q : State ι V α T) (t : T) (reading : Reading ι V α) (phase : Phase ι V α) :
    State ι V α T :=
  { q with readers := Function.update q.readers t (some { reading with phase := phase }) }

end State

variable [DecidableEq ι] [DecidableEq T]

/-- One atomic access, or the beginning of a call.  A call may begin when its
thread has no other one in progress. -/
inductive Step (layout : Layout ι V α) (retries : Nat) (blank : ι → V) :
    State ι V α T → State ι V α T → Prop where
  | publish {q : State ι V α T} (value : α) :
      q.writer = .idle → Step layout retries blank q (q.publish value)
  | mark {q : State ι V α T} {value : α} :
      q.writer = .marking value → Step layout retries blank q (q.mark layout value)
  | store {q : State ι V α T} {value : α} {rest : List ι} {i : ι} :
      q.writer = .storing value rest → i ∈ rest →
      Step layout retries blank q (q.store layout value rest i)
  | unmark {q : State ι V α T} {value : α} :
      q.writer = .storing value [] → Step layout retries blank q q.unmark
  | read {q : State ι V α T} (t : T) (given : α) :
      (∀ reading, q.readers t = some reading → reading.result.isSome) →
      Step layout retries blank q (q.read retries t given)
  | busy {q : State ι V α T} {t : T} {reading : Reading ι V α} {left : Nat} :
      q.readers t = some reading → reading.phase = .attempting left →
      q.memory.sequence &&& 1 ≠ 0 →
      Step layout retries blank q (q.advance t reading (.retry reading.given left))
  | attempt {q : State ι V α T} {t : T} {reading : Reading ι V α} {left : Nat} :
      q.readers t = some reading → reading.phase = .attempting left →
      q.memory.sequence &&& 1 = 0 →
      Step layout retries blank q
        (q.advance t reading (.loading left q.memory.sequence q.completed layout.order blank))
  | load {q : State ι V α T} {t : T} {reading : Reading ι V α} {left base : Nat}
      {before : BitVec 64} {rest : List ι} {got : ι → V} {i : ι} :
      q.readers t = some reading → reading.phase = .loading left before base rest got →
      i ∈ rest →
      Step layout retries blank q
        (q.advance t reading
          (.loading left before base (rest.erase i)
            (Function.update got i (q.memory.cells i))))
  | accept {q : State ι V α T} {t : T} {reading : Reading ι V α} {left base : Nat}
      {before : BitVec 64} {got : ι → V} :
      q.readers t = some reading → reading.phase = .loading left before base [] got →
      before = q.memory.sequence →
      Step layout retries blank q (q.advance t reading (.returned true (layout.value got)))
  | reject {q : State ι V α T} {t : T} {reading : Reading ι V α} {left base : Nat}
      {before : BitVec 64} {got : ι → V} :
      q.readers t = some reading → reading.phase = .loading left before base [] got →
      before ≠ q.memory.sequence →
      Step layout retries blank q (q.advance t reading (.retry reading.given left))

end Definitions

/-! ## The invariant -/

section Invariant

variable {ι V α T : Type}

/-- What a reading knows, by phase. -/
def Phase.Justified (layout : Layout ι V α) (q : State ι V α T) (reading : Reading ι V α) :
    Phase ι V α → Prop
  | .attempting _ => True
  | .loading _ before base rest got =>
      reading.since ≤ base ∧ base ≤ q.completed ∧ before = BitVec.ofNat 64 (2 * base) ∧
        ∀ i, i ∉ rest → ∃ n a, base ≤ n ∧ n ≤ q.completed + q.writer.marked ∧
          q.history[n]? = some a ∧ got i = layout.cells a i
  | .returned true out =>
      ∃ n, reading.since ≤ n ∧ n ≤ q.completed ∧ q.history[n]? = some out
  | .returned false out => out = reading.given ∧ reading.quiet = false

/-- A reading is consistent with the publications so far. -/
structure Coherent (layout : Layout ι V α) (q : State ι V α T) (reading : Reading ι V α) :
    Prop where
  since_le : reading.since ≤ q.completed
  idle_of_quiet : reading.quiet = true → q.writer = .idle ∧ reading.since = q.completed
  phase : reading.phase.Justified layout q reading

/-- The invariant of the lock. -/
structure Sound [DecidableEq ι] (layout : Layout ι V α) (q : State ι V α T) : Prop where
  length_history : q.history.length = q.completed + 1 + q.writer.begun
  publishing : ∀ value, q.writer.value = some value →
    q.history[q.completed + 1]? = some value
  sequence_eq : q.memory.sequence = BitVec.ofNat 64 (2 * q.completed + q.writer.marked)
  nodup : ∀ value rest, q.writer = .storing value rest → rest.Nodup
  cells : ∀ i, ∃ a, q.history[q.stamp i]? = some a ∧ q.memory.cells i = layout.cells a i
  readings : ∀ t reading, q.readers t = some reading → Coherent layout q reading

/-- Fewer than `2 ^ 63` publications overlap any attempt in progress: those after
the `base` publications that had completed when it began. -/
def NoWrap (q : State ι V α T) : Prop :=
  ∀ t reading base, q.readers t = some reading → reading.attempt = some base →
    q.history.length ≤ base + 2 ^ 63

/-- When an attempt cannot be misled by equal sequence values: one cell is never
torn, and without wrap-around equal values mean that nothing was published. -/
def Unambiguous (q : State ι V α T) : Prop := Subsingleton ι ∨ NoWrap q

end Invariant

end Seqlock

end RobotController.Foundation
