/-
  System/CommandDelivery.lean --- from the bus to joint 1.

  Sources: `communication/CanCommunication.cpp` (`run`), `control/ControlLoop.cpp`
  (`update`).

  Valid command frames are published once each and in the order of their
  transmission, and the control cycles follow the publications without going back.
-/
import RobotController.System.Coordination

set_option autoImplicit false

namespace RobotController.Communication

open RobotController.Foundation RobotController.Core

variable {R : Type} [Double R] [IntConversion R]

/-! ## Command frames -/

/-- What the valid command frames of a list say, in order. -/
def commandsOf (frames : List CanFrame) : List (JointCommand R) :=
  (frames.filter fun frame => JointCommandCodec.Valid frame).map JointCommandCodec.decoded

theorem commandsOf_append (frames rest : List CanFrame) :
    (commandsOf (frames ++ rest) : List (JointCommand R)) =
      commandsOf frames ++ commandsOf rest := by
  simp [commandsOf]

theorem commandsOf_of_not_valid {frame : CanFrame} (h : ¬ JointCommandCodec.Valid frame) :
    (commandsOf [frame] : List (JointCommand R)) = [] := by
  simp [commandsOf, h]

theorem commandsOf_of_valid {frame : CanFrame} (h : JointCommandCodec.Valid frame) :
    (commandsOf [frame] : List (JointCommand R)) = [JointCommandCodec.decoded frame] := by
  simp [commandsOf, h]

namespace Traffic

theorem received_receive (t : Traffic) :
    t.receive.2.received = t.received ++ t.receive.1.toList := by
  rcases t with ⟨⟨_ | ⟨frame, rest⟩⟩, stage, external, received, iterations⟩ <;>
    simp [receive, SimulatedCan.receive]

/-- The commands on the bus are those other parties have transmitted: the node's own
frames carry states. -/
theorem Reached.commandsOf_stream {t : Traffic} (h : Reached R t) :
    (commandsOf t.stream : List (JointCommand R)) = commandsOf t.external := by
  refine h.invariant
    (fun t => (commandsOf t.stream : List (JointCommand R)) = commandsOf t.external) ?_
    fun t event t' ht hstep => ?_
  · rintro start rfl
    rfl
  · cases hstep with
    | external frame =>
        rw [stream_transmitExternal, commandsOf_append, ht, ← commandsOf_append]
        rfl
    | receive _ => rwa [stream_receive, external_receive]
    | transmitState _ hencode =>
        rw [stream_finish, commandsOf_append, ht, Option.toList_some,
          commandsOf_of_not_valid (JointStateCodec.not_valid_of_encode hencode), List.append_nil]
        rfl
    | readFailed _ =>
        rw [stream_finish, Option.toList_none, List.append_nil]
        exact ht

end Traffic

end RobotController.Communication

namespace RobotController.System

open RobotController.Foundation RobotController.Core RobotController.Communication
open RobotController.Control RobotController.Synchronization

namespace Controller

variable {R τ : Type} [Double R]

/-! ## Steering -/

/-- A cycle aims joint 1 at the command it has read, or leaves the target alone. -/
theorem target_steer (robot : Robot R) (read : Bool × JointCommand R) :
    target ((ControlLoop.steer read robot).update ControlLoop.dt) =
      if read.1 then read.2.targetPosition else target robot := by
  have hkept : ∀ robot : Robot R, target (robot.update ControlLoop.dt) = target robot := by
    intro robot
    unfold target
    rw [Joint.targetPosition, Robot.command_update]
    rfl
  rw [hkept]
  rcases read with ⟨_ | _, command⟩ <;> rfl

/-- The reads that succeeded: the publications completed when each began, and the
command it obtained. -/
def commandReads (s : Controller R τ) : List (Nat × JointCommand R) :=
  (s.steerings.filter fun steering => steering.read.1).map fun steering =>
    (steering.since, steering.read.2)

variable [IntConversion R]

theorem commandsOf_receive (s : Controller R τ) :
    commandsOf s.traffic.receive.2.received =
      commandsOf s.traffic.received ++ s.receivedCommand.toList := by
  rw [Traffic.received_receive, commandsOf_append]
  congr 1
  unfold receivedCommand
  cases s.traffic.receive.1 with
  | none => rfl
  | some frame =>
      by_cases hvalid : JointCommandCodec.Valid frame
      · simp [commandsOf_of_valid hvalid, JointCommandCodec.decode_of_valid hvalid]
      · simp [commandsOf_of_not_valid hvalid, JointCommandCodec.decode_of_not_valid hvalid]

/-- What has been delivered: the commands published are those of the frames received,
the reads of the worker are ascending, and every cycle has done as it has read. -/
structure Delivered (s : Controller R τ) : Prop where
  published : s.commands.history = JointCommand.default :: commandsOf s.traffic.received
  ordered : ∃ last, s.commands.Serial () (s.cycle = .readingCommand) s.commandReads last
  steered : ∀ steering ∈ s.steerings,
    steering.after = if steering.read.1 then steering.read.2.targetPosition else steering.before

theorem delivered_initial (robot : Robot R) : (initial robot : Controller R τ).Delivered where
  published := rfl
  ordered := ⟨_, SharedBuffer.Serial.initial _ _ _ (by simp [initial])⟩
  steered := by simp [initial]

/-- A cycle that has read its command. -/
theorem Delivered.steer {s : Controller R τ} (h : s.Delivered) (hlocked : s.Locked)
    {call : Call CommandCell R (JointCommand R)} {read : Bool × JointCommand R}
    (hphase : s.cycle = .readingCommand) (hcall : s.commands.calls () = some call)
    (hread : call.result = some read) : (s.steer call.since read).Delivered := by
  obtain ⟨hpublished, ⟨last, hserial⟩, hsteered⟩ := h
  refine ⟨hpublished, ?_, fun steering hmem => ?_⟩
  · have hdone : (s.steer call.since read).cycle ≠ .readingCommand := by simp [Controller.steer]
    rcases read with ⟨_ | _, command⟩
    · have hsame : (s.steer call.since (false, command)).commandReads = s.commandReads := by
        simp [commandReads, Controller.steer]
      rw [hsame]
      exact ⟨last, hserial.stop hdone⟩
    · have hadded : (s.steer call.since (true, command)).commandReads =
          s.commandReads ++ [(call.since, command)] := by
        simp [commandReads, Controller.steer]
      rw [hadded]
      exact ⟨command, hserial.succeed hphase hlocked.commands hcall hread hdone⟩
  · rcases List.mem_append.mp hmem with hold | hnew
    · exact hsteered steering hold
    · obtain rfl := List.mem_singleton.mp hnew
      exact target_steer s.robot read

variable [DecidableEq τ] {s s' : Controller R τ} {event : ControllerEvent R τ}

/-- Every step of every thread keeps what has been delivered in order. -/
theorem Delivered.step (h : s.Delivered) (hlocked : s.Locked) (hstep : Step s event s') :
    s'.Delivered := by
  obtain ⟨hpublished, ⟨last, hserial⟩, hsteered⟩ := h
  cases hstep with
  | beginCycle _ _ hbuffer =>
      exact ⟨(hbuffer.of_isRead trivial).1.trans hpublished, ⟨last, hserial.start hbuffer⟩,
        hsteered⟩
  | accessCommand _ hbuffer =>
      exact ⟨(hbuffer.of_isRead trivial).1.trans hpublished,
        ⟨last, hserial.step hbuffer (by simp)⟩, hsteered⟩
  | steer hphase hcall hread =>
      exact Delivered.steer ⟨hpublished, ⟨last, hserial⟩, hsteered⟩ hlocked hphase hcall hread
  | publishState _ _ => exact ⟨hpublished, ⟨last, hserial.stop (by simp)⟩, hsteered⟩
  | publishSnapshot _ _ _ => exact ⟨hpublished, ⟨last, hserial.stop (by simp)⟩, hsteered⟩
  | endCycle _ _ _ _ _ => exact ⟨hpublished, ⟨last, hserial.stop (by simp)⟩, hsteered⟩
  | receiveCommand _ hcommand hbuffer =>
      refine ⟨?_, ⟨last, hserial.step hbuffer (by simp)⟩, hsteered⟩
      rw [commandsOf_receive, hcommand, hbuffer.of_publish.1, hpublished]
      rfl
  | receiveOther _ hnone =>
      refine ⟨?_, ⟨last, hserial⟩, hsteered⟩
      rw [commandsOf_receive, hnone, hpublished, Option.toList_none, List.append_nil]
  | writeCommand _ hbuffer =>
      exact ⟨hbuffer.of_write.1.trans hpublished, ⟨last, hserial.step hbuffer (by simp)⟩,
        hsteered⟩
  | _ => exact ⟨hpublished, ⟨last, hserial⟩, hsteered⟩

theorem Reached.delivered (h : s.Reached) : s.Delivered := by
  refine h.invariant_of_reachable Delivered ?_
    fun _ _ _ hs hdelivered hstep => hdelivered.step (Reached.locked hs) hstep
  rintro start ⟨robot, rfl⟩
  exact delivered_initial robot

/-- Commands are delivered in order, without loss, duplication or forgery.  What has
been published is, after the initial zero-degree command, a prefix of what the valid
command frames on the bus say, and these are all transmitted by others.  The cycles
whose read succeeds obtain entries of this list that never go back and are as recent
as the last publication completed before the read, and aim joint 1 there; a cycle
whose read fails leaves the target alone. -/
theorem commands_delivered_in_order (hs : s.Reached) :
    (∃ published : List (JointCommand R),
        s.commands.history = JointCommand.default :: published ∧
          published <+: commandsOf s.traffic.stream ∧
          published <+: commandsOf s.traffic.external) ∧
      (∃ indices : List Nat,
        List.Forall₂ (fun (steering : Steering R) n => steering.since ≤ n ∧
            s.commands.history[n]? = some steering.read.2)
          (s.steerings.filter fun steering => steering.read.1) indices ∧
          indices.Pairwise (· ≤ ·)) ∧
      ∀ steering ∈ s.steerings, steering.after =
        if steering.read.1 then steering.read.2.targetPosition else steering.before := by
  obtain ⟨hpublished, ⟨last, ⟨indices, latest, hreads, hordered, -⟩, -⟩, hsteered⟩ :=
    hs.delivered
  have hextends : commandsOf s.traffic.received <+:
      (commandsOf s.traffic.stream : List (JointCommand R)) := by
    rw [Traffic.stream, commandsOf_append]
    exact List.prefix_append _ _
  refine ⟨⟨_, hpublished, hextends, ?_⟩, ⟨indices, ?_, hordered⟩, hsteered⟩
  · rwa [← hs.traffic.commandsOf_stream]
  · exact List.forall₂_map_left_iff.mp hreads

/-! ## One command -/

section OneCommand

/-- A command frame, not of zero degrees. -/
def someFrame : CanFrame := ⟨0x100, 4, Vector.replicate 8 1⟩

/-- The frame is transmitted, received and published; then a control cycle begins and
steers joint 1. -/
def deliverOnce : List (ControllerEvent ℚ Unit) :=
  [.external someFrame, .receive] ++ List.replicate 3 .writeCommand ++ startEvents () 1 ++
    [.beginCycle 0] ++ List.replicate 3 .accessCommand ++ [.steer]

theorem commands_delivered_in_order_once :
    ∃ (s : Controller ℚ Unit) (steering : Steering ℚ), s.Reached ∧
      s.steerings = [steering] ∧ steering.read = (true, JointCommandCodec.decoded someFrame) ∧
      steering.after = (JointCommandCodec.decoded someFrame : JointCommand ℚ).targetPosition := by
  have hrun : ∃ s : Controller ℚ Unit,
      deliverOnce.foldlM next (initial Robot.initial) = some s ∧
      s.commands.history = [JointCommand.default, JointCommandCodec.decoded someFrame] ∧
      ∃ steering, s.steerings = [steering] ∧ steering.since = 1 ∧ steering.read.1 = true :=
    ⟨_, rfl, rfl, _, rfl, rfl, rfl⟩
  obtain ⟨s, hs, hhistory, steering, hsteerings, hsince, hok⟩ := hrun
  have hreached := reached_of_schedule _ _ hs
  obtain ⟨-, ⟨indices, hreads, -⟩, hsteered⟩ := commands_delivered_in_order hreached
  have hafter := hsteered steering (by simp [hsteerings])
  have hfilter : (s.steerings.filter fun steering => steering.read.1) = [steering] := by
    simp [hsteerings, hok]
  rw [hfilter] at hreads
  obtain ⟨n, rest, ⟨hle, hn⟩, -, -⟩ := List.forall₂_cons_left_iff.mp hreads
  obtain ⟨hlt, -⟩ := List.getElem?_eq_some_iff.mp hn
  have hone : n = 1 := by
    simp only [hhistory, List.length_cons, List.length_nil] at hlt
    omega
  have hread : steering.read.2 = JointCommandCodec.decoded someFrame := by
    simpa [hone, hhistory] using hn.symm
  rw [if_pos hok, hread] at hafter
  exact ⟨s, steering, hreached, hsteerings, Prod.ext hok hread, hafter⟩

end OneCommand

end Controller

end RobotController.System
