/-
  Foundation/SeqlockProgram.lean --- programs that implement a sequence lock.

  A buffer is a pair of programs, one to publish a value and one to read it.
  `SharedBuffer` runs them: one thread publishes, any number of threads read, and
  every step is one atomic access of one thread, taken sequentially consistently.
  The programs of this file, with any memory orders, are the canonical text of a
  sequence lock; a buffer whose programs equal them runs as the machine of
  `Seqlock.lean` does, step for step.
-/
import RobotController.Foundation.Execution
import RobotController.Foundation.SeqlockSound

set_option autoImplicit false

namespace RobotController.Foundation

/-! ## Buffers and their clients -/

/-- The two functions of a buffer.  `read` takes the value its caller holds and
returns it, overwritten on success. -/
structure Buffer (ι V α : Type) where
  publish : α → Program ι V Unit
  read : α → Program ι V (Bool × α)

/-- A call of `read`: the rest of its program; how many publications had completed
when it began, the value its caller held then, and whether the writer has been
idle between two publications ever since; and the publications that had completed
at the first sequence load of the attempt in progress, if there is one. -/
@[ext] structure Call (ι V α : Type) where
  program : Program ι V (Bool × α)
  since : Nat
  given : α
  quiet : Bool
  attempt : Option Nat

/-- A buffer with its clients: the memory, the rest of the program of the writer,
the last call of every reader, the initial value followed by the values `publish`
was called with, and the number of publications that have completed. -/
@[ext] structure SharedBuffer (ι V α T : Type) where
  memory : Memory ι V
  writer : Program ι V Unit
  calls : T → Option (Call ι V α)
  history : List α
  completed : Nat

/-- What a client of a buffer may do. -/
inductive BufferEvent (α T : Type) where
  | publish (value : α)
  | write
  | read (t : T) (given : α)
  | access (t : T)

section Clients

variable {ι V α β T : Type}

/-- The result of a program that has returned. -/
def Program.returned : Program ι V β → Option β
  | .done result => some result
  | _ => none

namespace Call

/-- What the call returned, once it has. -/
def result (call : Call ι V α) : Option (Bool × α) := call.program.returned

/-- The sequence loads of a read open and close its attempts; a load of an odd
value opens none. -/
def attemptAfter (call : Call ι V α) (sequence : BitVec 64) (completed : Nat) : Option Nat :=
  match call.program, call.attempt with
  | .loadSequence _ _, some _ => none
  | .loadSequence _ _, none => if sequence &&& 1 = 0 then some completed else none
  | _, attempt => attempt

end Call

namespace SharedBuffer

/-- Before any call. -/
def initial (memory : Memory ι V) (first : α) : SharedBuffer ι V α T where
  memory := memory
  writer := .done ()
  calls := fun _ => none
  history := [first]
  completed := 0

/-- Whether the writer is between two publications. -/
def isIdle (s : SharedBuffer ι V α T) : Bool := s.writer.returned.isSome

/-- The writer calls `publish`. -/
def beginPublish (buffer : Buffer ι V α) (s : SharedBuffer ι V α T) (value : α) :
    SharedBuffer ι V α T :=
  { s with
    writer := buffer.publish value
    calls := fun t => (s.calls t).map fun call => { call with quiet := false }
    history := s.history ++ [value] }

/-- Fewer than `2 ^ 63` publications overlap any attempt in progress. -/
def NoWrap (s : SharedBuffer ι V α T) : Prop :=
  ∀ t call base, s.calls t = some call → call.attempt = some base →
    s.history.length ≤ base + 2 ^ 63

theorem noWrap_initial (memory : Memory ι V) (first : α) :
    (initial memory first : SharedBuffer ι V α T).NoWrap := by
  intro t call base ht
  simp [initial] at ht

variable [DecidableEq ι]

/-- The next access of the writer. -/
def write (s : SharedBuffer ι V α T) : Option (SharedBuffer ι V α T) := do
  let (next, memory) ← s.writer.step s.memory
  return { s with
    memory := memory
    writer := next
    completed := if next.returned.isSome then s.completed + 1 else s.completed }

variable [DecidableEq T]

/-- A reader calls `read`. -/
def beginRead (buffer : Buffer ι V α) (s : SharedBuffer ι V α T) (t : T) (given : α) :
    SharedBuffer ι V α T :=
  { s with
    calls := Function.update s.calls t
      (some ⟨buffer.read given, s.completed, given, s.isIdle, none⟩) }

/-- The next access of a reader. -/
def access (s : SharedBuffer ι V α T) (t : T) : Option (SharedBuffer ι V α T) := do
  let call ← s.calls t
  let (next, memory) ← call.program.step s.memory
  return { s with
    memory := memory
    calls := Function.update s.calls t
      (some { call with
        program := next
        attempt := call.attemptAfter s.memory.sequence s.completed }) }

/-- The steps of the clients.  A thread that is within one call begins no other. -/
inductive Step (buffer : Buffer ι V α) :
    SharedBuffer ι V α T → BufferEvent α T → SharedBuffer ι V α T → Prop where
  | publish {s : SharedBuffer ι V α T} (value : α) :
      s.isIdle = true → Step buffer s (.publish value) (s.beginPublish buffer value)
  | write {s s' : SharedBuffer ι V α T} :
      s.write = some s' → Step buffer s .write s'
  | read {s : SharedBuffer ι V α T} (t : T) (given : α) :
      (∀ call, s.calls t = some call → call.result.isSome) →
      Step buffer s (.read t given) (s.beginRead buffer t given)
  | access {s s' : SharedBuffer ι V α T} (t : T) :
      s.access t = some s' → Step buffer s (.access t) s'

/-! ## Schedules -/

/-- What an event leads to, when it is possible. -/
def next (buffer : Buffer ι V α) (s : SharedBuffer ι V α T) :
    BufferEvent α T → Option (SharedBuffer ι V α T)
  | .publish value => if s.isIdle then some (s.beginPublish buffer value) else none
  | .write => s.write
  | .read t given =>
      match s.calls t with
      | none => some (s.beginRead buffer t given)
      | some call => if call.result.isSome then some (s.beginRead buffer t given) else none
  | .access t => s.access t

theorem step_of_next {buffer : Buffer ι V α} {s s' : SharedBuffer ι V α T}
    {event : BufferEvent α T} (h : s.next buffer event = some s') : Step buffer s event s' := by
  cases event with
  | publish value =>
      obtain ⟨hidle, rfl⟩ : s.isIdle = true ∧ s.beginPublish buffer value = s' := by
        simpa [next] using h
      exact .publish value hidle
  | write => exact .write h
  | read t given =>
      cases ht : s.calls t with
      | none =>
          obtain rfl : s.beginRead buffer t given = s' := by simpa [next, ht] using h
          exact .read t given (by simp [ht])
      | some call =>
          obtain ⟨hresult, rfl⟩ : call.result.isSome = true ∧
              s.beginRead buffer t given = s' := by simpa [next, ht] using h
          exact .read t given (by simpa [ht] using hresult)
  | access t => exact .access t h

/-- A publication adds one entry to the history, no other step does. -/
theorem Step.length_history_le {buffer : Buffer ι V α} {s s' : SharedBuffer ι V α T}
    {event : BufferEvent α T} (h : Step buffer s event s') :
    s'.history.length ≤ s.history.length + 1 := by
  cases h with
  | publish value _ => simp [beginPublish]
  | write h =>
      obtain ⟨⟨next, memory⟩, -, h⟩ := Option.bind_eq_some_iff.mp h
      obtain rfl := Option.some.inj h
      exact Nat.le_succ _
  | read t given _ => exact Nat.le_succ _
  | access t h =>
      obtain ⟨call, -, h⟩ := Option.bind_eq_some_iff.mp h
      obtain ⟨⟨next, memory⟩, -, h⟩ := Option.bind_eq_some_iff.mp h
      obtain rfl := Option.some.inj h
      exact Nat.le_succ _

/-- A schedule too short to publish `2 ^ 63` times runs without wrap-around. -/
theorem execution_of_schedule {buffer : Buffer ι V α} :
    ∀ {events : List (BufferEvent α T)} {s s' : SharedBuffer ι V α T},
      s.history.length + events.length ≤ 2 ^ 63 → events.foldlM (next buffer) s = some s' →
      Execution (Within NoWrap (Step buffer)) s events s' := by
  intro events
  induction events with
  | nil =>
      intro s s' _ h
      obtain rfl : s = s' := by simpa using h
      exact .refl s
  | cons event rest ih =>
      intro s s' hlength h
      rw [List.foldlM_cons] at h
      obtain ⟨mid, hmid, hrest⟩ := Option.bind_eq_some_iff.mp h
      have hstep := step_of_next hmid
      have hle := hstep.length_history_le
      rw [List.length_cons] at hlength
      refine .cons ⟨hstep, fun t call base _ _ => ?_⟩ (ih ?_ hrest)
      · omega
      · omega

end SharedBuffer

end Clients

namespace Seqlock

/-! ## The canonical programs -/

/-- The memory orders a sequence lock asks for. -/
structure Orders where
  mark : MemoryOrder
  store : MemoryOrder
  unmark : MemoryOrder
  before : MemoryOrder
  load : MemoryOrder
  after : MemoryOrder

section Text

variable {ι V α T : Type} (layout : Layout ι V α) (orders : Orders) (blank : ι → V)

/-- Store the cells of the list and make the sequence even again. -/
def storeCells (value : α) : List ι → Program ι V Unit
  | [] => .fetchAdd orders.unmark (.done ())
  | i :: rest => .store i (layout.cells value i) orders.store (storeCells value rest)

/-- What is left of a publication. -/
def Writer.code : Writer ι α → Program ι V Unit
  | .idle => .done ()
  | .marking value => .fetchAdd orders.mark (storeCells layout orders value layout.order)
  | .storing value rest => storeCells layout orders value rest

variable [DecidableEq ι]

/-- Load the cells of the list and compare the sequence; `again` is what follows a
failed attempt. -/
def loadCells (before : BitVec 64) (again : Program ι V (Bool × α)) :
    List ι → (ι → V) → Program ι V (Bool × α)
  | [], got =>
      .loadSequence orders.after fun after =>
        if before = after then .done (true, layout.value got) else again
  | i :: rest, got =>
      .load i orders.load fun x => loadCells before again rest (Function.update got i x)

/-- A read with so many attempts left. -/
def attempts (given : α) : Nat → Program ι V (Bool × α)
  | 0 => .done (false, given)
  | left + 1 =>
      .loadSequence orders.before fun before =>
        if before &&& 1 = 0 then
          loadCells layout orders before (attempts given left) layout.order blank
        else attempts given left

/-- What is left of a read. -/
def Phase.code (given : α) : Phase ι V α → Program ι V (Bool × α)
  | .attempting left => attempts layout orders blank given (left + 1)
  | .loading left before _ rest got =>
      loadCells layout orders before (attempts layout orders blank given left) rest got
  | .returned ok out => .done (ok, out)

/-- The programs of the buffer are the canonical ones, with `retries + 1`
attempts. -/
structure Implements (retries : Nat) (buffer : Buffer ι V α) : Prop where
  publish : ∀ value, buffer.publish value = (Writer.marking value).code layout orders
  read : ∀ given, buffer.read given = attempts layout orders blank given (retries + 1)

/-- The call a reading stands for. -/
def Reading.call (reading : Reading ι V α) : Call ι V α where
  program := reading.phase.code layout orders blank reading.given
  since := reading.since
  given := reading.given
  quiet := reading.quiet
  attempt := reading.attempt

/-- The clients a state of the machine stands for. -/
def State.text (q : State ι V α T) : SharedBuffer ι V α T where
  memory := q.memory
  writer := q.writer.code layout orders
  calls := fun t => (q.readers t).map (Reading.call layout orders blank)
  history := q.history
  completed := q.completed

end Text

/-! ## Reading the machine off the programs -/

section Shape

variable {ι V α T : Type} {layout : Layout ι V α} {orders : Orders} {blank : ι → V}

theorem returned_storeCells (value : α) (rest : List ι) :
    (storeCells layout orders value rest).returned = none := by
  cases rest <;> rfl

theorem Writer.returned_code (writer : Writer ι α) :
    (writer.code layout orders).returned.isSome = true ↔ writer = .idle := by
  cases writer with
  | idle => simp [Writer.code, Program.returned]
  | marking value => simp [Writer.code, Program.returned]
  | storing value rest => simp [Writer.code, returned_storeCells]

theorem Reading.attempt_retry (reading : Reading ι V α) (given : α) (left : Nat) :
    ({ reading with phase := .retry given left } : Reading ι V α).attempt = none := by
  cases left <;> rfl

variable [DecidableEq ι]

theorem Reading.result_call (layout : Layout ι V α) (orders : Orders) (blank : ι → V)
    (reading : Reading ι V α) :
    (reading.call layout orders blank).result = reading.result := by
  unfold Reading.call Call.result Reading.result
  cases reading.phase with
  | attempting left => rfl
  | loading left before base rest got => cases rest <;> rfl
  | returned ok out => rfl

theorem Phase.code_retry (given : α) (left : Nat) :
    (Phase.retry given left).code layout orders blank given =
      attempts layout orders blank given left := by
  cases left <;> rfl

theorem State.isIdle_text (q : State ι V α T) :
    (q.text layout orders blank).isIdle = q.isIdle := by
  rw [Bool.eq_iff_iff, q.isIdle_iff]
  exact q.writer.returned_code

theorem State.noWrap_text {q : State ι V α T} :
    (q.text layout orders blank).NoWrap ↔ NoWrap q := by
  constructor
  · intro h t reading base ht hbase
    refine h t (reading.call layout orders blank) base ?_ hbase
    simp only [State.text, ht, Option.map_some]
  · intro h t call base ht hbase
    obtain ⟨reading, hreading, rfl⟩ := Option.map_eq_some_iff.mp ht
    exact h t reading base hreading hbase

theorem State.text_publish {retries : Nat} {buffer : Buffer ι V α}
    (himplements : Implements layout orders blank retries buffer) (q : State ι V α T)
    (value : α) :
    (q.text layout orders blank).beginPublish buffer value =
      (q.publish value).text layout orders blank := by
  unfold SharedBuffer.beginPublish State.text State.publish
  rw [himplements.publish]
  congr 1
  funext t
  cases ht : q.readers t <;> simp [ht, Reading.call, Reading.disturb, Reading.attempt]

variable [DecidableEq T]

theorem State.text_read {retries : Nat} {buffer : Buffer ι V α}
    (himplements : Implements layout orders blank retries buffer) (q : State ι V α T) (t : T)
    (given : α) :
    (q.text layout orders blank).beginRead buffer t given =
      (q.read retries t given).text layout orders blank := by
  unfold SharedBuffer.beginRead
  rw [q.isIdle_text, himplements.read]
  unfold State.text State.read
  congr 1
  funext u
  rcases eq_or_ne u t with rfl | hne
  · simp only [Function.update_self]
    rfl
  · simp only [Function.update_of_ne hne]

/-- The clients after a reader has moved on. -/
theorem State.text_advance (q : State ι V α T) (t : T) (reading : Reading ι V α)
    (phase : Phase ι V α) :
    (q.advance t reading phase).text layout orders blank =
      { q.text layout orders blank with
        calls := Function.update (q.text layout orders blank).calls t
          (some (({ reading with phase := phase } : Reading ι V α).call
            layout orders blank)) } := by
  unfold State.text State.advance
  congr 1
  funext u
  rcases eq_or_ne u t with rfl | hne
  · simp only [Function.update_self]
    rfl
  · simp only [Function.update_of_ne hne]

/-- What an access of a reader does to the clients, given what it does to the
program and to the attempt of the reading. -/
theorem State.access_text {q : State ι V α T} {t : T} {reading : Reading ι V α}
    {phase : Phase ι V α} (ht : q.readers t = some reading)
    (hstep : (reading.phase.code layout orders blank reading.given).step q.memory =
      some (phase.code layout orders blank reading.given, q.memory))
    (hattempt : (reading.call layout orders blank).attemptAfter q.memory.sequence
      q.completed = ({ reading with phase := phase } : Reading ι V α).attempt) :
    (q.text layout orders blank).access t =
      some ((q.advance t reading phase).text layout orders blank) := by
  have hcall : (q.text layout orders blank).calls t =
      some (reading.call layout orders blank) := by
    simp only [State.text, ht, Option.map_some]
  have hprogram : (reading.call layout orders blank).program.step
      (q.text layout orders blank).memory =
        some (phase.code layout orders blank reading.given, q.memory) := hstep
  rw [State.text_advance]
  simp only [SharedBuffer.access, hcall, hprogram, Option.bind_eq_bind, Option.bind_some,
    Option.pure_def, Option.some.injEq]
  congr 3
  exact congrArg (fun attempt => ({ reading.call layout orders blank with
    program := phase.code layout orders blank reading.given
    attempt := attempt } : Call ι V α)) hattempt

end Shape

/-! ## Without interference -/

section Undisturbed

variable {ι V α : Type} [DecidableEq ι] {layout : Layout ι V α} {orders : Orders}
  {blank : ι → V} {memory : Memory ι V}

theorem run_storeCells (value : α) : ∀ (rest : List ι) (memory : Memory ι V),
    (∀ i, i ∉ rest → memory.cells i = layout.cells value i) →
      (storeCells layout orders value rest).run memory =
        ((), ⟨memory.sequence + 1, layout.cells value⟩) := by
  intro rest
  induction rest with
  | nil =>
      intro memory hstored
      have hcells : memory.cells = layout.cells value :=
        funext fun i => hstored i List.not_mem_nil
      simp only [storeCells, Program.run, hcells]
  | cons i rest ih =>
      intro memory hstored
      refine ih _ fun j hj => ?_
      rcases eq_or_ne j i with rfl | hne
      · exact Function.update_self ..
      · exact (Function.update_of_ne hne ..).trans (hstored j (by simp [hne, hj]))

/-- A publication replaces the contents and advances the sequence by two. -/
theorem run_marking (value : α) :
    ((Writer.marking value).code layout orders).run memory =
      ((), ⟨memory.sequence + 1 + 1, layout.cells value⟩) :=
  run_storeCells value layout.order { memory with sequence := memory.sequence + 1 }
    fun i hi => absurd (layout.mem_order i) hi

theorem run_loadCells (again : Program ι V (Bool × α)) : ∀ (rest : List ι) (got : ι → V),
    (∀ i, i ∉ rest → got i = memory.cells i) →
      (loadCells layout orders memory.sequence again rest got).run memory =
        ((true, layout.value memory.cells), memory) := by
  intro rest
  induction rest with
  | nil =>
      intro got hgot
      have hcells : got = memory.cells := funext fun i => hgot i List.not_mem_nil
      simp only [loadCells, Program.run, if_true, hcells]
  | cons i rest ih =>
      intro got hgot
      refine ih _ fun j hj => ?_
      rcases eq_or_ne j i with rfl | hne
      · exact Function.update_self ..
      · exact (Function.update_of_ne hne ..).trans (hgot j (by simp [hne, hj]))

/-- A read between two publications returns the contents, and changes nothing. -/
theorem run_attempts (heven : memory.sequence &&& 1 = 0) (given : α) (left : Nat) :
    (attempts layout orders blank given (left + 1)).run memory =
      ((true, layout.value memory.cells), memory) := by
  simp only [attempts, Program.run, if_pos heven]
  exact run_loadCells _ layout.order blank fun i hi => absurd (layout.mem_order i) hi

namespace Implements

variable {retries : Nat} {buffer : Buffer ι V α}

theorem run_publish (h : Implements layout orders blank retries buffer) (value : α) :
    (buffer.publish value).run memory = ((), ⟨memory.sequence + 1 + 1, layout.cells value⟩) := by
  rw [h.publish]
  exact run_marking value

theorem run_read (h : Implements layout orders blank retries buffer)
    (heven : memory.sequence &&& 1 = 0) (given : α) :
    (buffer.read given).run memory = ((true, layout.value memory.cells), memory) := by
  rw [h.read]
  exact run_attempts heven given retries

/-- A publication leaves the parity of the sequence alone. -/
theorem even_run_publish (h : Implements layout orders blank retries buffer)
    (heven : memory.sequence &&& 1 = 0) (value : α) :
    ((buffer.publish value).run memory).2.sequence &&& 1 = 0 := by
  rw [h.run_publish]
  exact (add_two_and_one memory.sequence).trans heven

/-- What is published is what the next read returns. -/
theorem run_read_published (h : Implements layout orders blank retries buffer)
    (heven : memory.sequence &&& 1 = 0) (value given : α) :
    ((buffer.read given).run ((buffer.publish value).run memory).2).1 = (true, value) := by
  rw [h.run_read (h.even_run_publish heven value), h.run_publish, layout.value_cells]

end Implements

end Undisturbed

/-! ## Step for step -/

section Simulation

variable {ι V α T : Type} [DecidableEq ι] [DecidableEq T] {layout : Layout ι V α}
  {orders : Orders} {blank : ι → V} {retries : Nat} {buffer : Buffer ι V α}
  {q : State ι V α T} {s : SharedBuffer ι V α T}

/-- An access of the writer is a step of the machine. -/
theorem simulates_write (h : (q.text layout orders blank).write = some s) :
    ∃ q', Step layout retries blank q q' ∧ s = q'.text layout orders blank := by
  cases hw : q.writer with
  | idle => simp [SharedBuffer.write, State.text, hw, Writer.code, Program.step] at h
  | marking value =>
      refine ⟨_, .mark hw, ?_⟩
      simp only [SharedBuffer.write, State.text, hw, Writer.code, Program.step,
        Option.bind_eq_bind, Option.bind_some, Option.pure_def, Option.some.injEq,
        returned_storeCells] at h
      subst h
      rfl
  | storing value rest =>
      cases rest with
      | nil =>
          refine ⟨_, .unmark hw, ?_⟩
          simp only [SharedBuffer.write, State.text, hw, Writer.code, storeCells, Program.step,
            Option.bind_eq_bind, Option.bind_some, Option.pure_def, Option.some.injEq] at h
          subst h
          rfl
      | cons i rest =>
          refine ⟨_, .store hw List.mem_cons_self, ?_⟩
          simp only [SharedBuffer.write, State.text, hw, Writer.code, storeCells, Program.step,
            Option.bind_eq_bind, Option.bind_some, Option.pure_def, Option.some.injEq,
            returned_storeCells] at h
          subst h
          simp only [State.text, State.store, Writer.code, List.erase_cons_head]
          rfl

/-- An access of a reader is a step of the machine. -/
theorem simulates_access {t : T} (h : (q.text layout orders blank).access t = some s) :
    ∃ q', Step layout retries blank q q' ∧ s = q'.text layout orders blank := by
  cases ht : q.readers t with
  | none => simp [SharedBuffer.access, State.text, ht] at h
  | some reading =>
      have hadvance : ∀ {phase : Phase ι V α},
          Step layout retries blank q (q.advance t reading phase) →
          (reading.phase.code layout orders blank reading.given).step q.memory =
            some (phase.code layout orders blank reading.given, q.memory) →
          (reading.call layout orders blank).attemptAfter q.memory.sequence q.completed =
            ({ reading with phase := phase } : Reading ι V α).attempt →
          ∃ q', Step layout retries blank q q' ∧ s = q'.text layout orders blank := by
        intro phase hmachine hstep hattempt
        refine ⟨_, hmachine, ?_⟩
        rw [State.access_text ht hstep hattempt] at h
        exact (Option.some.inj h).symm
      cases hphase : reading.phase with
      | returned ok out =>
          simp [SharedBuffer.access, State.text, ht, Reading.call, hphase, Phase.code,
            Program.step] at h
      | attempting left =>
          have hnone : reading.attempt = none := by rw [Reading.attempt, hphase]
          by_cases hparity : q.memory.sequence &&& 1 = 0
          · refine hadvance (.attempt ht hphase hparity) ?_ ?_
            · simp only [hphase, Phase.code, attempts, Program.step, if_pos hparity]
            · simp only [Call.attemptAfter, Reading.call, hphase, Phase.code, attempts,
                if_pos hparity, Reading.attempt]
          · refine hadvance (.busy ht hphase hparity) ?_ ?_
            · rw [Phase.code_retry]
              simp only [hphase, Phase.code, attempts, Program.step, if_neg hparity]
            · simp only [Call.attemptAfter, Reading.call, hphase, Phase.code, attempts, hnone,
                if_neg hparity, Reading.attempt_retry]
      | loading left before base rest got =>
          have hsome : reading.attempt = some base := by rw [Reading.attempt, hphase]
          cases rest with
          | nil =>
              by_cases hequal : before = q.memory.sequence
              · refine hadvance (.accept ht hphase hequal) ?_ ?_
                · simp only [hphase, Phase.code, loadCells, Program.step, if_pos hequal]
                · simp only [Call.attemptAfter, Reading.call, hphase, Phase.code, loadCells,
                    Reading.attempt]
              · refine hadvance (.reject ht hphase hequal) ?_ ?_
                · rw [Phase.code_retry]
                  simp only [hphase, Phase.code, loadCells, Program.step, if_neg hequal]
                · simp only [Call.attemptAfter, Reading.call, hphase, Phase.code, loadCells,
                    hsome, Reading.attempt_retry]
          | cons i rest =>
              refine hadvance (.load ht hphase List.mem_cons_self) ?_ ?_
              · simp only [hphase, Phase.code, loadCells, Program.step, List.erase_cons_head]
              · simp only [Call.attemptAfter, Reading.call, hphase, Phase.code, loadCells,
                  Reading.attempt]

/-- Every step of the clients of a buffer with canonical programs is a step of the
machine. -/
theorem simulates (himplements : Implements layout orders blank retries buffer)
    {event : BufferEvent α T}
    (h : SharedBuffer.Step buffer (q.text layout orders blank) event s) :
    ∃ q', Step layout retries blank q q' ∧ s = q'.text layout orders blank := by
  cases h with
  | publish value hidle =>
      refine ⟨_, .publish value ?_, State.text_publish himplements q value⟩
      rwa [State.isIdle_text, q.isIdle_iff] at hidle
  | write hwrite => exact simulates_write hwrite
  | read t given havailable =>
      refine ⟨_, .read t given ?_, State.text_read himplements q t given⟩
      intro reading hreading
      rw [← Reading.result_call layout orders blank reading]
      refine havailable _ ?_
      simp only [State.text, hreading, Option.map_some]
  | access t haccess => exact simulates_access haccess

end Simulation

/-! ## Buffers with canonical programs -/

section Refinement

variable {ι V α T : Type} [DecidableEq ι]

/-- The clients are in a state the machine can be in. -/
def Refines (layout : Layout ι V α) (orders : Orders) (blank : ι → V)
    (s : SharedBuffer ι V α T) : Prop :=
  ∃ q : State ι V α T, s = q.text layout orders blank ∧ Sound layout q

namespace Refines

variable {layout : Layout ι V α} {orders : Orders} {blank : ι → V}
  {s s' : SharedBuffer ι V α T} {t : T} {call : Call ι V α}

theorem initial (first : α) :
    Refines layout orders blank
      (SharedBuffer.initial ⟨0, layout.cells first⟩ first : SharedBuffer ι V α T) :=
  ⟨State.initial layout first, rfl, Sound.initial first⟩

theorem length_history (h : Refines layout orders blank s) (hidle : s.isIdle = true) :
    s.history.length = s.completed + 1 := by
  obtain ⟨q, rfl, hsound⟩ := h
  rw [State.isIdle_text, q.isIdle_iff] at hidle
  have hlength := hsound.length_history
  rwa [hidle, Writer.begun] at hlength

/-- The reading behind a call. -/
theorem coherent (h : Refines layout orders blank s) (ht : s.calls t = some call) :
    ∃ (q : State ι V α T) (reading : Reading ι V α), s = q.text layout orders blank ∧
      call = reading.call layout orders blank ∧ Coherent layout q reading := by
  obtain ⟨q, rfl, hsound⟩ := h
  obtain ⟨reading, hreading, rfl⟩ := Option.map_eq_some_iff.mp ht
  exact ⟨q, reading, rfl, rfl, hsound.readings t reading hreading⟩

/-- A successful read returns one publication, at least as recent as the last one
completed before it began. -/
theorem of_true (h : Refines layout orders blank s) (ht : s.calls t = some call) {out : α}
    (hresult : call.result = some (true, out)) :
    ∃ n, call.since ≤ n ∧ n ≤ s.completed ∧ s.history[n]? = some out := by
  obtain ⟨q, reading, rfl, rfl, hcoherent⟩ := h.coherent ht
  exact hcoherent.of_returned_true (by rwa [Reading.result_call] at hresult)

/-- A failed read leaves the caller's value untouched. -/
theorem of_false (h : Refines layout orders blank s) (ht : s.calls t = some call) {out : α}
    (hresult : call.result = some (false, out)) : out = call.given := by
  obtain ⟨q, reading, rfl, rfl, hcoherent⟩ := h.coherent ht
  exact (hcoherent.of_returned_false (by rwa [Reading.result_call] at hresult)).1

/-- A read with the writer idle throughout succeeds, with the latest
publication. -/
theorem of_quiet (h : Refines layout orders blank s) (ht : s.calls t = some call)
    (hquiet : call.quiet = true) {ok : Bool} {out : α}
    (hresult : call.result = some (ok, out)) :
    ok = true ∧ s.history[s.completed]? = some out ∧ s.history.length = s.completed + 1 := by
  obtain ⟨q, reading, rfl, rfl, hcoherent⟩ := h.coherent ht
  obtain ⟨hok, hout⟩ := hcoherent.of_quiet hquiet (by rwa [Reading.result_call] at hresult)
  refine ⟨hok, hout, h.length_history ?_⟩
  rw [State.isIdle_text, q.isIdle_iff]
  exact (hcoherent.idle_of_quiet hquiet).1

variable [DecidableEq T] {retries : Nat} {buffer : Buffer ι V α}

/-- Every step of the clients keeps the refinement, as long as no attempt can be
misled by wrap-around. -/
theorem step (himplements : Implements layout orders blank retries buffer)
    (h : Refines layout orders blank s) (hguard : Subsingleton ι ∨ s.NoWrap)
    {event : BufferEvent α T} (hstep : SharedBuffer.Step buffer s event s') :
    Refines layout orders blank s' := by
  obtain ⟨q, rfl, hsound⟩ := h
  obtain ⟨q', hmachine, rfl⟩ := simulates himplements hstep
  have hunambiguous : Unambiguous q := hguard.imp id State.noWrap_text.mp
  exact ⟨q', rfl, hsound.step hunambiguous hmachine⟩

/-- The refinement over every execution without wrap-around. -/
theorem of_reachable (himplements : Implements layout orders blank retries buffer) {first : α}
    (h : Reachable (fun s => s = SharedBuffer.initial ⟨0, layout.cells first⟩ first)
      (Within SharedBuffer.NoWrap (SharedBuffer.Step buffer)) s) :
    Refines layout orders blank s := by
  have hboth : Refines layout orders blank s ∧ s.NoWrap := by
    refine h.invariant (fun s => Refines layout orders blank s ∧ s.NoWrap) ?_ ?_
    · rintro s rfl
      exact ⟨initial first, SharedBuffer.noWrap_initial _ first⟩
    · intro s event s' hs hstep
      exact ⟨hs.1.step himplements (.inr hs.2) hstep.1, hstep.2⟩
  exact hboth.1

end Refines

end Refinement

end Seqlock

end RobotController.Foundation
