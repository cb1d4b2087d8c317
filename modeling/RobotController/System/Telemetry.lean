/-
  System/Telemetry.lean --- from joint 1 to the bus.

  Sources: `communication/CanCommunication.cpp` (`run`, `transmitState`),
  `control/ControlLoop.cpp` (`update`).

  The way back of `System/CommandDelivery.lean`: the cycles publish the state of joint 1, the
  communication thread reads it, and what it reads goes out as a frame.  The program is run
  with a record of the frames the thread has transmitted.
-/
import RobotController.Communication.CodecLaws
import RobotController.System.VisibleStates

set_option autoImplicit false

namespace RobotController.Communication

open RobotController.Foundation RobotController.Core

/-! ## Frames of the node among those of others -/

namespace Traffic

/-- What has entered the queue are the frames of others and those of the node, each once and
both in their order. -/
structure Merges (t : Traffic) (frames : List CanFrame) : Prop where
  own : frames.Sublist t.stream
  others : t.external.Sublist t.stream
  once : t.stream.Perm (t.external ++ frames)

theorem merges_initial : Traffic.initial.Merges [] := ⟨.slnil, .slnil, .nil⟩

variable {t : Traffic} {frames : List CanFrame}

theorem Merges.external (h : t.Merges frames) (frame : CanFrame) :
    (t.transmitExternal frame).Merges frames := by
  have hexternal : (t.transmitExternal frame).external = t.external ++ [frame] := rfl
  refine ⟨?_, ?_, ?_⟩
  · rw [stream_transmitExternal]
    exact h.own.trans (List.sublist_append_left _ _)
  · rw [stream_transmitExternal, hexternal]
    exact h.others.append (.refl _)
  · rw [stream_transmitExternal, hexternal]
    have hmoved : (t.external ++ frames ++ [frame]).Perm (t.external ++ [frame] ++ frames) := by
      rw [List.append_assoc, List.append_assoc]
      exact List.perm_append_comm.append_left _
    exact (h.once.append_right [frame]).trans hmoved

theorem Merges.receive (h : t.Merges frames) : t.receive.2.Merges frames := by
  refine ⟨?_, ?_, ?_⟩
  · rw [stream_receive]
    exact h.own
  · rw [stream_receive, external_receive]
    exact h.others
  · rw [stream_receive, external_receive]
    exact h.once

theorem Merges.finish (h : t.Merges frames) (frame : Option CanFrame) :
    (t.finish frame).Merges (frames ++ frame.toList) := by
  have hexternal : (t.finish frame).external = t.external := rfl
  refine ⟨?_, ?_, ?_⟩
  · rw [stream_finish]
    exact h.own.append (.refl _)
  · rw [stream_finish, hexternal]
    exact h.others.trans (List.sublist_append_left _ _)
  · rw [stream_finish, hexternal, ← List.append_assoc]
    exact h.once.append_right _

end Traffic

end RobotController.Communication

namespace RobotController.System

open RobotController.Foundation RobotController.Core RobotController.Communication
open RobotController.Control RobotController.Synchronization

/-! ## The program with a record of its frames -/

/-- A frame the communication thread has transmitted: the publications completed when its
read began, the state the read has obtained, and the frame. -/
structure Transmission (R : Type) where
  since : Nat
  state : JointState R
  frame : CanFrame

/-- The program, the robots the cycles have led to, and the frames transmitted. -/
structure TelemetryController (R τ : Type) where
  recorded : RecordedController R τ
  transmissions : List (Transmission R)

namespace TelemetryController

variable {R τ : Type} [Double R]

/-- A new control loop around a robot. -/
def initial (robot : Robot R) : TelemetryController R τ := ⟨.initial robot, []⟩

variable [IntConversion R]

/-- What the end of a successful read sends. -/
def transmission (call : Call StateCell R (JointState R)) : List (Transmission R) :=
  match call.result with
  | some (true, state) =>
      (JointStateCodec.encode state).toList.map fun frame => ⟨call.since, state, frame⟩
  | _ => []

/-- What an event sends. -/
def transmissionsOf (before : Controller R τ) : ControllerEvent R τ → List (Transmission R)
  | .transmit => (before.canState.calls none).elim [] transmission
  | _ => []

variable [DecidableEq τ]

def Step (s : TelemetryController R τ) (event : ControllerEvent R τ)
    (s' : TelemetryController R τ) : Prop :=
  RecordedController.Step s.recorded event s'.recorded ∧
    s'.transmissions = s.transmissions ++ transmissionsOf s.recorded.controller event

/-- The states some interleaving reaches, whatever the robot was at first. -/
def Reached (s : TelemetryController R τ) : Prop :=
  Reachable (fun start => ∃ robot, start = initial robot) Step s

variable {s s' : TelemetryController R τ} {event : ControllerEvent R τ}

/-- Without the record it is the program. -/
theorem Reached.recorded (h : s.Reached) : s.recorded.Reached := by
  refine h.invariant (fun s => s.recorded.Reached) ?_ fun s event s' hs hstep => ?_
  · rintro start ⟨robot, rfl⟩
    exact .init ⟨robot, rfl⟩
  · exact hs.step hstep.1

/-! ## What has been sent -/

/-- The frames sent encode reads that take turns, and are on the bus between those of the
others. -/
structure Sent (c : Controller R τ) (sent : List (Transmission R)) : Prop where
  ordered : ∃ last, c.canState.Serial none (c.link = .reading)
    (sent.map fun transmission => (transmission.since, transmission.state)) last
  encoded : ∀ transmission ∈ sent,
    JointStateCodec.encode transmission.state = some transmission.frame
  merged : c.traffic.Merges (sent.map Transmission.frame)

variable {c c' : Controller R τ} {sent : List (Transmission R)}

omit [DecidableEq τ] in
theorem sent_initial (robot : Robot R) : Sent (.initial robot : Controller R τ) [] where
  ordered := ⟨_, .initial _ _ _ (by simp [Controller.initial])⟩
  encoded := by simp
  merged := Traffic.merges_initial

omit [DecidableEq τ] in
/-- A frame is transmitted. -/
theorem Sent.transmit (h : Sent c sent) (hlocked : c.Locked) (hlink : c.link = .reading)
    {call : Call StateCell R (JointState R)} {state : JointState R} {frame : CanFrame}
    (hcall : c.canState.calls none = some call) (hread : call.result = some (true, state))
    (hencode : JointStateCodec.encode state = some frame) :
    Sent { c with traffic := c.traffic.finish (some frame), link := .receiving }
      (sent ++ [⟨call.since, state, frame⟩]) := by
  obtain ⟨⟨last, hserial⟩, hencoded, hmerged⟩ := h
  refine ⟨⟨state, ?_⟩, fun transmission hmem => ?_, ?_⟩
  · rw [List.map_append]
    exact hserial.succeed hlink hlocked.canState hcall hread (by simp)
  · rcases List.mem_append.mp hmem with hold | hnew
    · exact hencoded transmission hold
    · obtain rfl := List.mem_singleton.mp hnew
      exact hencode
  · rw [List.map_append]
    exact hmerged.finish (some frame)

omit [DecidableEq τ] in
theorem transmissionsOf_transmit {call : Call StateCell R (JointState R)}
    {read : Bool × JointState R} (hcall : c.canState.calls none = some call)
    (hread : call.result = some read) :
    transmissionsOf c .transmit =
      if read.1 then
        (JointStateCodec.encode read.2).toList.map fun frame => ⟨call.since, read.2, frame⟩
      else [] := by
  rcases read with ⟨_ | _, state⟩ <;> simp [transmissionsOf, transmission, hcall, hread]

/-- Every step of every thread. -/
theorem Sent.step (h : Sent c sent) (hlocked : c.Locked) (hstep : Controller.Step c event c') :
    Sent c' (sent ++ transmissionsOf c event) := by
  have hstays : ∀ {after : Controller R τ}, Sent after sent →
      Sent after (sent ++ []) := fun hafter => (List.append_nil sent).symm ▸ hafter
  obtain ⟨⟨last, hserial⟩, hencoded, hmerged⟩ := h
  cases hstep with
  | publishState _ hbuffer =>
      exact hstays ⟨⟨last, hserial.step hbuffer (by simp)⟩, hencoded, hmerged⟩
  | writeState _ hbuffer =>
      exact hstays ⟨⟨last, hserial.step hbuffer (by simp)⟩, hencoded, hmerged⟩
  | readCanState hbuffer =>
      exact hstays ⟨⟨last, hserial.step hbuffer (by simp)⟩, hencoded, hmerged⟩
  | accessCanState hbuffer =>
      exact hstays ⟨⟨last, hserial.step hbuffer (by simp)⟩, hencoded, hmerged⟩
  | external frame => exact hstays ⟨⟨last, hserial⟩, hencoded, hmerged.external frame⟩
  | receiveCommand _ _ _ =>
      exact hstays ⟨⟨last, hserial.stop (by simp)⟩, hencoded, hmerged.receive⟩
  | receiveOther _ _ =>
      exact hstays ⟨⟨last, hserial.stop (by simp)⟩, hencoded, hmerged.receive⟩
  | sample _ hbuffer => exact hstays ⟨⟨last, hserial.start hbuffer⟩, hencoded, hmerged⟩
  | accessState _ hbuffer =>
      exact hstays ⟨⟨last, hserial.step hbuffer (by simp)⟩, hencoded, hmerged⟩
  | transmitState hlink hcall hread hencode =>
      rw [transmissionsOf_transmit hcall hread, if_pos rfl, hencode]
      exact Sent.transmit ⟨⟨last, hserial⟩, hencoded, hmerged⟩ hlocked hlink hcall hread
        hencode
  | transmitNothing _ hcall hread =>
      rw [transmissionsOf_transmit hcall hread, if_neg (by simp)]
      have hsame := hmerged.finish none
      rw [Option.toList_none, List.append_nil] at hsame
      exact hstays ⟨⟨last, hserial.stop (by simp)⟩, hencoded, hsame⟩
  | _ => exact hstays ⟨⟨last, hserial⟩, hencoded, hmerged⟩

theorem Reached.wellSent (h : s.Reached) : Sent s.recorded.controller s.transmissions := by
  refine h.invariant_of_reachable
    (fun s => Sent s.recorded.controller s.transmissions) ?_ fun s event s' hs hsent hstep => ?_
  · rintro start ⟨robot, rfl⟩
    exact sent_initial robot
  · have hreached : s.recorded.controller.Reached := (Reached.recorded hs).controller
    obtain ⟨⟨after, hafter, hrecorded⟩, htransmissions⟩ := hstep
    rw [hrecorded, htransmissions]
    exact hsent.step hreached.locked hafter

/-- The states of joint 1 that can be read: that of a fresh buffer, and then those the cycles
have led to. -/
def published (s : TelemetryController R τ) : List (JointState R) :=
  JointState.default :: s.recorded.updates.map fun robot => robot.state 0

theorem Reached.history_prefix (h : s.Reached) :
    s.recorded.controller.canState.history <+: s.published := by
  obtain ⟨robot, n, hpublishes⟩ := h.recorded.publishes
  rw [hpublishes.canState]
  exact (List.prefix_cons_inj _).mpr ((List.take_prefix _ _).map _)

/-- Telemetry is in order.  However the cycles, the communication thread, other parties on
the bus and the readers of the state of joint 1 interleave, as long as the atomic accesses
take effect one after the other in program order: every frame the node has transmitted
encodes the state of joint 1 after one of the cycles, or that of a fresh buffer; from one
frame to the next these states do not go back, and each is at least as recent as the last
publication that had been completed when its read began.  On the bus there are these frames
and those of others, each exactly once, and both in the order in which they were
transmitted. -/
theorem telemetry_in_order (hs : s.Reached) :
    (∃ indices : List Nat,
      List.Forall₂ (fun (transmission : Transmission R) n => transmission.since ≤ n ∧
          s.published[n]? = some transmission.state ∧
          JointStateCodec.encode transmission.state = some transmission.frame)
        s.transmissions indices ∧
        indices.Pairwise (· ≤ ·)) ∧
      s.recorded.controller.traffic.Merges (s.transmissions.map Transmission.frame) := by
  obtain ⟨⟨last, hascending, -⟩, hencoded, hmerged⟩ := hs.wellSent
  obtain ⟨indices, latest, hreads, hordered, -⟩ := hascending.mono hs.history_prefix le_rfl
  refine ⟨⟨indices, ?_, hordered⟩, hmerged⟩
  have hentries := List.forall₂_map_left_iff.mp hreads
  refine List.forall₂_iff_get.mpr ⟨hentries.length_eq, fun i hi hi' => ?_⟩
  obtain ⟨hsince, hentry⟩ := hentries.get hi hi'
  exact ⟨hsince, hentry, hencoded _ (List.get_mem _ _)⟩

/-- What an event leads to, when it is possible. -/
def next (s : TelemetryController R τ) (event : ControllerEvent R τ) :
    Option (TelemetryController R τ) :=
  (s.recorded.next event).map fun recorded =>
    ⟨recorded, s.transmissions ++ transmissionsOf s.recorded.controller event⟩

theorem step_of_next (h : s.next event = some s') : Step s event s' := by
  obtain ⟨recorded, hrecorded, rfl⟩ := Option.map_eq_some_iff.mp h
  exact ⟨RecordedController.step_of_next hrecorded, rfl⟩

/-! ## Two frames around a cycle -/

section TwoFrames

omit [DecidableEq τ] in
/-- The program when a frame has been transmitted. -/
def transmitted (s : TelemetryController R τ) (transmission : Transmission R) :
    TelemetryController R τ where
  recorded := s.recorded.record .transmit
    { s.recorded.controller with
      traffic := s.recorded.controller.traffic.finish (some transmission.frame)
      link := .receiving }
  transmissions := s.transmissions ++ [transmission]

theorem step_transmitted {call : Call StateCell R (JointState R)} {state : JointState R}
    {frame : CanFrame} (hlink : s.recorded.controller.link = .reading)
    (hcall : s.recorded.controller.canState.calls none = some call)
    (hread : call.result = some (true, state))
    (hencode : JointStateCodec.encode state = some frame) :
    Step s .transmit (s.transmitted ⟨call.since, state, frame⟩) := by
  refine ⟨⟨_, .transmitState hlink hcall hread hencode, rfl⟩, ?_⟩
  rw [transmissionsOf_transmit hcall hread, if_pos rfl, hencode]
  rfl

/-- An iteration, up to the end of its read. -/
def readOnce : List (ControllerEvent ℚ Unit) :=
  [.receive, .sample] ++ List.replicate 4 .accessState

/-- The state of a fresh buffer, and that after a cycle towards zero degrees. -/
def twoFrames : List (Transmission ℚ) :=
  [⟨0, JointState.default, JointStateCodec.stateFrame 0 0⟩,
    ⟨1, ⟨⟨8999997 / 200000⟩, ⟨-3 / 100⟩⟩, JointStateCodec.stateFrame 4499 (-3)⟩]

/-- Joint 1 stands at forty-five degrees. -/
theorem telemetry_in_order_twoFrames :
    ∃ (s : TelemetryController ℚ Unit) (i j : Nat), s.Reached ∧ s.transmissions = twoFrames ∧
      s.recorded.controller.traffic.Merges (twoFrames.map Transmission.frame) ∧ i ≤ j ∧ 1 ≤ j ∧
      s.published[i]? = some JointState.default ∧
      s.published[j]? = some ⟨⟨8999997 / 200000⟩, ⟨-3 / 100⟩⟩ := by
  have hencode : JointStateCodec.encode (⟨⟨8999997 / 200000⟩, ⟨-3 / 100⟩⟩ : JointState ℚ) =
      some (JointStateCodec.stateFrame 4499 (-3)) :=
    JointStateCodec.encode_of_words (by decide +kernel) (by decide +kernel)
  have hrun : ∃ (s₁ s₂ : TelemetryController ℚ Unit)
      (call₁ call₂ : Call StateCell ℚ (JointState ℚ)),
      readOnce.foldlM next (initial ControlLoop.placed) = some s₁ ∧
      s₁.recorded.controller.link = .reading ∧
      s₁.recorded.controller.canState.calls none = some call₁ ∧
      call₁.result = some (true, JointState.default) ∧ call₁.since = 0 ∧
      s₁.transmissions = [] ∧
      (Controller.cycleOnce ++ readOnce).foldlM next
        (s₁.transmitted ⟨0, JointState.default, JointStateCodec.stateFrame 0 0⟩) = some s₂ ∧
      s₂.recorded.controller.link = .reading ∧
      s₂.recorded.controller.canState.calls none = some call₂ ∧
      call₂.result = some (true, ((ControlLoop.steer (true, JointCommand.default)
        ControlLoop.placed).update ControlLoop.dt).state 0) ∧ call₂.since = 1 ∧
      s₂.transmissions = [⟨0, JointState.default, JointStateCodec.stateFrame 0 0⟩] :=
    ⟨_, _, _, _, rfl, rfl, rfl, rfl, rfl, rfl, rfl, rfl, rfl, rfl, rfl, rfl⟩
  obtain ⟨s₁, s₂, call₁, call₂, hs₁, hlink₁, hcall₁, hread₁, hsince₁, hnone, hs₂, hlink₂, hcall₂,
    hread₂, hsince₂, hone⟩ := hrun
  rw [ControlLoop.state_placed] at hread₂
  have hfirst := step_transmitted hlink₁ hcall₁ hread₁ JointStateCodec.encode_default
  have hsecond := step_transmitted hlink₂ hcall₂ hread₂ hencode
  rw [hsince₁] at hfirst
  rw [hsince₂] at hsecond
  have hbegin := Execution.of_schedule (fun _ _ _ => step_of_next) readOnce hs₁
  have hend := Execution.of_schedule (fun _ _ _ => step_of_next) _ hs₂
  have hreached : Reached _ :=
    ⟨_, _, ⟨_, rfl⟩, (hbegin.append (.cons hfirst hend)).snoc hsecond⟩
  have hsent : (s₂.transmitted ⟨1, ⟨⟨8999997 / 200000⟩, ⟨-3 / 100⟩⟩,
      JointStateCodec.stateFrame 4499 (-3)⟩).transmissions = twoFrames := by
    rw [transmitted, hone]
    rfl
  obtain ⟨⟨indices, hall, hordered⟩, hmerged⟩ := telemetry_in_order hreached
  rw [hsent] at hall hmerged
  cases hall with
  | cons hi hrest =>
      cases hrest with
      | cons hj hnil =>
          cases hnil
          exact ⟨_, _, _, hreached, hsent, hmerged, by simpa using hordered, hj.1, hi.2.1, hj.2.1⟩

end TwoFrames

end TelemetryController

end RobotController.System
