/-
  Communication/CanCommunication.lean --- the communication thread and its queue.

  Sources: `communication/SimulatedCan.cpp`, `communication/CanCommunication.cpp`
  (`run`, `transmitState`).

  `SimulatedCan` loops transmitted frames back into reception, so the queue is
  fed by the other parties on the bus and by the communication thread itself.
  This file is the thread as the queue sees it: one reception at the head of an
  iteration, and one transmission at its end when the state could be read.  What
  the thread does in between is in `System/System.lean`.
-/
import RobotController.Communication.Codec
import RobotController.Foundation.Execution
import Mathlib.Algebra.Order.Field.Rat
import Mathlib.Data.Rat.Floor

set_option autoImplicit false

namespace RobotController.Communication

open RobotController.Foundation RobotController.Core

/-! ## The queue -/

/-- `class SimulatedCan`.  Its mutex makes each operation one step; waiting for the mutex does
not show. -/
structure SimulatedCan where
  receivedFrames : List CanFrame
  deriving DecidableEq, Repr

namespace SimulatedCan

/-- `SimulatedCan::receive`: nothing when the queue is empty. -/
def receive (can : SimulatedCan) : Option (CanFrame × SimulatedCan) :=
  match can.receivedFrames with
  | [] => none
  | frame :: rest => some (frame, ⟨rest⟩)

/-- `SimulatedCan::transmit`: "loop transmitted frames back into reception". -/
def transmit (can : SimulatedCan) (frame : CanFrame) : SimulatedCan :=
  ⟨can.receivedFrames ++ [frame]⟩

end SimulatedCan

/-! ## The communication thread on the bus -/

/-- The next operation of the thread on the queue. -/
inductive Stage where
  | receiving
  | transmitting
  deriving DecidableEq, Repr

/-- The queue and the communication thread, with what has happened so far: the
frames other parties transmitted, the frames the thread received, and its
completed iterations. -/
structure Traffic where
  can : SimulatedCan
  stage : Stage
  external : List CanFrame
  received : List CanFrame
  iterations : Nat
  deriving DecidableEq, Repr

/-- What happens on the bus. -/
inductive TrafficEvent (R : Type) where
  /-- another party transmits -/
  | external (frame : CanFrame)
  /-- `can_.receive(frame)` at the head of an iteration -/
  | receive
  /-- the end of an iteration, with what `state_buffer_.read(state)` gave -/
  | finish (read : Option (JointState R))

namespace TrafficEvent

variable {R : Type}

/-- Whether an event is an external transmission. -/
def isExternal : TrafficEvent R → Bool
  | .external _ => true
  | _ => false

/-- Whether an event ends an iteration. -/
def isFinish : TrafficEvent R → Bool
  | .finish _ => true
  | _ => false

end TrafficEvent

namespace Traffic

def initial : Traffic := ⟨⟨[]⟩, .receiving, [], [], 0⟩

/-- Another party transmits a frame. -/
def transmitExternal (t : Traffic) (frame : CanFrame) : Traffic :=
  { t with can := t.can.transmit frame, external := t.external ++ [frame] }

/-- The thread receives at most one frame. -/
def receive (t : Traffic) : Option CanFrame × Traffic :=
  match t.can.receive with
  | none => (none, { t with stage := .transmitting })
  | some (frame, can) =>
      (some frame,
        { t with can := can, stage := .transmitting, received := t.received ++ [frame] })

/-- The thread transmits the frame, if there is one, and ends its iteration. -/
def finish (t : Traffic) (frame : Option CanFrame) : Traffic :=
  { t with
    can := match frame with
      | none => t.can
      | some frame => t.can.transmit frame
    stage := .receiving
    iterations := t.iterations + 1 }

/-- The length of the queue. -/
def backlog (t : Traffic) : Nat := t.can.receivedFrames.length

variable {R : Type} [Double R] [IntConversion R]

/-- The steps on the bus.  The state transmitted is any state. -/
inductive Step : Traffic → TrafficEvent R → Traffic → Prop where
  | external {t : Traffic} (frame : CanFrame) :
      Step t (.external frame) (t.transmitExternal frame)
  | receive {t : Traffic} :
      t.stage = .receiving → Step t .receive t.receive.2
  | transmitState {t : Traffic} {state : JointState R} {frame : CanFrame} :
      t.stage = .transmitting → JointStateCodec.encode state = some frame →
      Step t (.finish (some state)) (t.finish (some frame))
  | readFailed {t : Traffic} :
      t.stage = .transmitting → Step t (.finish none) (t.finish none)

/-! ## The backlog -/

/-- Receptions so far, those of an empty queue included. -/
def receptions (t : Traffic) : Nat :=
  match t.stage with
  | .receiving => t.iterations
  | .transmitting => t.iterations + 1

/-- Every frame that entered the queue, in order. -/
def stream (t : Traffic) : List CanFrame := t.received ++ t.can.receivedFrames

/-- An iteration drains one frame before it adds one of its own. -/
def Bounded (t : Traffic) : Prop :=
  t.backlog + t.receptions ≤ t.external.length + 1 + t.iterations

theorem stream_transmitExternal (t : Traffic) (frame : CanFrame) :
    (t.transmitExternal frame).stream = t.stream ++ [frame] := by
  simp [stream, transmitExternal, SimulatedCan.transmit]

/-- A reception moves the head of the queue to the frames received. -/
theorem stream_receive (t : Traffic) : t.receive.2.stream = t.stream := by
  rcases t with ⟨⟨_ | ⟨frame, rest⟩⟩, stage, external, received, iterations⟩ <;>
    simp [receive, SimulatedCan.receive, stream]

theorem backlog_receive (t : Traffic) : t.receive.2.backlog = t.backlog - 1 := by
  rcases t with ⟨⟨_ | ⟨frame, rest⟩⟩, stage, external, received, iterations⟩ <;>
    simp [receive, SimulatedCan.receive, backlog]

theorem length_received_receive (t : Traffic) :
    t.receive.2.received.length = t.stream.length ∨
      t.receive.2.received.length = t.received.length + 1 := by
  rcases t with ⟨⟨_ | ⟨frame, rest⟩⟩, stage, external, received, iterations⟩ <;>
    simp [receive, SimulatedCan.receive, stream]

@[simp] theorem external_receive (t : Traffic) : t.receive.2.external = t.external := by
  unfold receive
  split <;> rfl

@[simp] theorem iterations_receive (t : Traffic) : t.receive.2.iterations = t.iterations := by
  unfold receive
  split <;> rfl

@[simp] theorem stage_receive (t : Traffic) : t.receive.2.stage = .transmitting := by
  unfold receive
  split <;> rfl

theorem receptions_of_receiving {t : Traffic} (h : t.stage = .receiving) :
    t.receptions = t.iterations := by
  rw [receptions, h]

theorem receptions_of_transmitting {t : Traffic} (h : t.stage = .transmitting) :
    t.receptions = t.iterations + 1 := by
  rw [receptions, h]

theorem iterations_le (t : Traffic) : t.iterations ≤ t.receptions := by
  unfold receptions
  split <;> omega

@[simp] theorem backlog_transmitExternal (t : Traffic) (frame : CanFrame) :
    (t.transmitExternal frame).backlog = t.backlog + 1 := by
  simp [transmitExternal, backlog, SimulatedCan.transmit]

@[simp] theorem backlog_finish_some (t : Traffic) (frame : CanFrame) :
    (t.finish (some frame)).backlog = t.backlog + 1 := by
  simp [finish, backlog, SimulatedCan.transmit]

theorem backlog_finish_le (t : Traffic) (frame : Option CanFrame) :
    (t.finish frame).backlog ≤ t.backlog + 1 := by
  cases frame with
  | none => exact Nat.le_succ _
  | some frame => exact (t.backlog_finish_some frame).le

theorem stream_finish (t : Traffic) (frame : Option CanFrame) :
    (t.finish frame).stream = t.stream ++ frame.toList := by
  cases frame <;> simp [finish, stream, SimulatedCan.transmit]

theorem Bounded.receive {t : Traffic} (h : t.Bounded) (hstage : t.stage = .receiving) :
    t.receive.2.Bounded := by
  unfold Bounded at *
  rw [receptions_of_receiving hstage] at h
  rw [receptions_of_transmitting t.stage_receive, backlog_receive, external_receive,
    iterations_receive]
  omega

theorem Bounded.finish {t : Traffic} (h : t.Bounded) (hstage : t.stage = .transmitting)
    (frame : Option CanFrame) : (t.finish frame).Bounded := by
  have hle := t.backlog_finish_le frame
  unfold Bounded at *
  rw [receptions_of_transmitting hstage] at h
  have hreceptions : (t.finish frame).receptions = t.iterations + 1 := receptions_of_receiving rfl
  have hiterations : (t.finish frame).iterations = t.iterations + 1 := rfl
  have hexternal : (t.finish frame).external = t.external := rfl
  rw [hreceptions, hiterations, hexternal]
  omega

/-- The bound survives every step: an external frame raises both sides. -/
theorem Bounded.step {t t' : Traffic} {event : TrafficEvent R} (h : t.Bounded)
    (hstep : Step t event t') : t'.Bounded := by
  cases hstep with
  | external frame =>
      have hreceptions : (t.transmitExternal frame).receptions = t.receptions := rfl
      have hiterations : (t.transmitExternal frame).iterations = t.iterations := rfl
      unfold Bounded at *
      rw [hreceptions, hiterations]
      simp only [transmitExternal, backlog, SimulatedCan.transmit, List.length_append,
        List.length_singleton] at *
      omega
  | receive hstage => exact h.receive hstage
  | transmitState hstage _ => exact h.finish hstage _
  | readFailed hstage => exact h.finish hstage none

/-- The states of the bus that some interleaving reaches. -/
def Reached (R : Type) [Double R] [IntConversion R] (t : Traffic) : Prop :=
  Reachable (fun start => start = initial) (Step (R := R)) t

theorem Reached.bounded {t : Traffic} (h : Reached R t) : t.Bounded := by
  refine h.invariant Bounded ?_ fun s event s' => Bounded.step
  rintro s rfl
  exact Nat.zero_le 1

/-! ## Delivery -/

/-- The frame at position `index` of the stream has been received, or every
reception since `before` has brought it one frame closer. -/
def Advancing (before : Traffic) (index : Nat) (t : Traffic) : Prop :=
  before.stream <+: t.stream ∧
    (index < t.received.length ∨
      before.received.length + t.receptions ≤ t.received.length + before.receptions)

theorem Advancing.step {before t t' : Traffic} {index : Nat} {event : TrafficEvent R}
    (hindex : index < before.stream.length) (h : Advancing before index t)
    (hstep : Step t event t') : Advancing before index t' := by
  obtain ⟨hextends, hprogress⟩ := h
  cases hstep with
  | external frame =>
      refine ⟨?_, hprogress⟩
      rw [stream_transmitExternal]
      exact hextends.trans (List.prefix_append _ _)
  | receive hstage =>
      have hlength := hextends.length_le
      rw [receptions_of_receiving hstage] at hprogress
      refine ⟨by rwa [stream_receive], ?_⟩
      rw [receptions_of_transmitting t.stage_receive, iterations_receive]
      have hreceived : t.received.length ≤ t.stream.length := by simp [stream]
      rcases t.length_received_receive with hall | hone <;> omega
  | transmitState hstage _ =>
      rw [receptions_of_transmitting hstage] at hprogress
      refine ⟨?_, hprogress⟩
      rw [stream_finish]
      exact hextends.trans (List.prefix_append _ _)
  | readFailed hstage =>
      rw [receptions_of_transmitting hstage] at hprogress
      exact ⟨by rwa [stream_finish, Option.toList_none, List.append_nil], hprogress⟩

/-- The backlog does not depend on the length of the run, nor on how the external
transmissions are spaced, but on their number: every one of them can stay in the
queue for good, since each iteration puts back as much as it takes.  Accordingly
the frame of the `k`-th external transmission is received, and handed to the
decoder, within `k + 1` iterations. -/
theorem backlog_le_and_delivered {s : Traffic} (hs : Reached R s) :
    s.backlog ≤ s.external.length + 1 ∧
      ∀ (frame : CanFrame) (trace : List (TrafficEvent R)) (t : Traffic),
        Execution Step (s.transmitExternal frame) trace t →
        s.iterations + (s.external.length + 1) + 1 ≤ t.iterations →
        t.received[s.received.length + s.backlog]? = some frame := by
  have hbounded := hs.bounded
  refine ⟨?_, ?_⟩
  · have hle := s.iterations_le
    unfold Bounded at hbounded
    omega
  intro frame trace t hexec hlater
  have hindex : s.received.length + s.backlog < (s.transmitExternal frame).stream.length := by
    rw [stream_transmitExternal]
    simp [stream, backlog]
  have hstart : Advancing (s.transmitExternal frame) (s.received.length + s.backlog)
      (s.transmitExternal frame) := ⟨List.prefix_refl _, .inr (Nat.le_refl _)⟩
  obtain ⟨hextends, hprogress⟩ :=
    hexec.keeps (fun _ _ _ h hstep => h.step hindex hstep) hstart
  have hreceived : s.received.length + s.backlog < t.received.length := by
    have hle := t.iterations_le
    have hsame : (s.transmitExternal frame).receptions = s.receptions := rfl
    have hsame' : (s.transmitExternal frame).received = s.received := rfl
    rw [hsame, hsame'] at hprogress
    unfold Bounded at hbounded
    omega
  -- what stands at this position of the stream now stood there from the start
  have hentry := List.prefix_iff_getElem?.mp hextends _ hindex
  rw [stream, List.getElem?_append_left hreceived] at hentry
  rw [hentry, ← List.getElem?_eq_getElem hindex, stream_transmitExternal]
  simp [stream, backlog]

/-! ## Runs with spaced transmissions -/

section Spaced

variable {R : Type}

/-- The iterations that begin and end within a part of a run. -/
def completeIterations (events : List (TrafficEvent R)) : Nat :=
  (events.dropWhile TrafficEvent.isFinish).countP TrafficEvent.isFinish

/-- At least `m` complete iterations separate any two external transmissions. -/
def Spaced (m : Nat) : List (TrafficEvent R) → Prop
  | [] => True
  | .external _ :: rest =>
      (rest.any TrafficEvent.isExternal = true →
        m ≤ completeIterations (rest.takeWhile fun event => !event.isExternal)) ∧
      Spaced m rest
  | _ :: rest => Spaced m rest

end Spaced

/-- A command frame. -/
def commandFrame : CanFrame := (CanFrame.new.setId 0x100).setLength 4

/-- One external command and two iterations. -/
def round : List (TrafficEvent ℚ) :=
  [.external commandFrame, .receive, .finish (some JointState.default), .receive,
    .finish (some JointState.default)]

/-- So many rounds. -/
def rounds : Nat → List (TrafficEvent ℚ)
  | 0 => []
  | n + 1 => round ++ rounds n

theorem spaced_rounds (n : Nat) : Spaced 2 (rounds n) := by
  induction n with
  | zero => trivial
  | succ n ih =>
      cases n with
      | zero => exact ⟨fun h => absurd h (by decide), ih⟩
      | succ n => exact ⟨fun _ => le_refl 2, ih⟩

theorem valid_of_mem_rounds {frame : CanFrame} (n : Nat)
    (h : .external frame ∈ rounds n) : JointCommandCodec.Valid frame := by
  induction n with
  | zero => simp [rounds] at h
  | succ n ih =>
      rcases List.mem_append.mp h with hround | hrest
      · obtain rfl : frame = commandFrame := by simpa [round] using hround
        decide
      · exact ih hrest

theorem encode_default : ∃ frame, JointStateCodec.encode (JointState.default : JointState ℚ) =
    some frame := by
  simp [JointStateCodec.encode, JointState.default, toInt32, truncate]

/-- A round leaves one more frame in the queue than it found. -/
theorem execution_round {t : Traffic} (hstage : t.stage = .receiving) :
    ∃ t', Execution Step t round t' ∧ t'.stage = .receiving ∧ t'.backlog = t.backlog + 1 := by
  obtain ⟨frame, hencode⟩ := encode_default
  refine ⟨_, .cons (.external commandFrame) (.cons (.receive hstage)
    (.cons (.transmitState (stage_receive _) hencode) (.cons (.receive rfl)
      (.single (.transmitState (stage_receive _) hencode))))), rfl, ?_⟩
  simp only [backlog_finish_some, backlog_receive, backlog_transmitExternal]
  omega

theorem execution_rounds : ∀ (n : Nat) {t : Traffic}, t.stage = .receiving →
    ∃ t', Execution Step t (rounds n) t' ∧ t'.backlog = t.backlog + n := by
  intro n
  induction n with
  | zero =>
      intro t _
      exact ⟨t, .refl t, rfl⟩
  | succ n ih =>
      intro t hstage
      obtain ⟨mid, hround, hmid, hone⟩ := execution_round hstage
      obtain ⟨last, hrounds, hlast⟩ := ih hmid
      exact ⟨last, hround.append hrounds, by omega⟩

/-- With a command every two iterations the queue outgrows every bound. -/
theorem not_backlog_bounded :
    ¬ ∀ m : Nat, 2 ≤ m → ∃ bound : Nat, ∀ (trace : List (TrafficEvent ℚ)) (t : Traffic),
      Spaced m trace →
      (∀ frame, .external frame ∈ trace → JointCommandCodec.Valid frame) →
      Execution Step initial trace t → t.backlog ≤ bound := by
  intro h
  obtain ⟨bound, hbound⟩ := h 2 (le_refl 2)
  obtain ⟨t, hexec, hbacklog⟩ := execution_rounds (bound + 1) (t := initial) rfl
  have hle := hbound _ t (spaced_rounds _) (fun _ => valid_of_mem_rounds _) hexec
  have hempty : initial.backlog = 0 := rfl
  omega

/-- The first command on an empty bus is received within two iterations. -/
theorem delivered_within_two_iterations :
    ∃ (trace : List (TrafficEvent ℚ)) (t : Traffic),
      Execution Step (initial.transmitExternal commandFrame) trace t ∧
        t.iterations = 2 ∧ t.received[0]? = some commandFrame := by
  obtain ⟨frame, hencode⟩ := encode_default
  have hinitial : Reached ℚ initial := Reachable.init rfl
  have hexec : Execution Step (initial.transmitExternal commandFrame)
      [.receive, .finish (some (JointState.default : JointState ℚ)), .receive,
        .finish (some JointState.default)] _ :=
    .cons (.receive rfl) (.cons (.transmitState rfl hencode) (.cons (.receive rfl)
      (.single (.transmitState rfl hencode))))
  exact ⟨_, _, hexec, rfl,
    (backlog_le_and_delivered hinitial).2 commandFrame _ _ hexec (Nat.le_refl 2)⟩

end Traffic

end RobotController.Communication
