import RobotController.Foundation.Double
import RobotController.Core.JointTypes
import RobotController.Core.Joint
import RobotController.Foundation.Sweep
import RobotController.Control.PDController
import RobotController.Safety.SafetyLayer
import RobotController.Simulation.RobotSimulator
import RobotController.Core.Robot
import RobotController.Core.Axis
import RobotController.Core.RobotRun
import RobotController.Core.JointLimits
import RobotController.Core.Configuration
import RobotController.Simulation.Displacement
import RobotController.Core.Mirror
import RobotController.Foundation.Extended
import RobotController.Core.FiniteArguments
import RobotController.Core.AccelerationChecks
import RobotController.Foundation.RoundToNearest
import RobotController.Foundation.Binary64
import RobotController.Foundation.Truncation
import RobotController.Foundation.Saturation
import RobotController.Simulation.Kinematics
import RobotController.Foundation.FirstLimit
import RobotController.Simulation.PositionLimits
import RobotController.Foundation.StoppedMotion
import RobotController.Simulation.StepSize
import RobotController.Simulation.Continuity
import RobotController.Simulation.ControlledMotion
import RobotController.Foundation.Execution
import RobotController.Foundation.AtomicProgram
import RobotController.Foundation.Seqlock
import RobotController.Foundation.SeqlockSound
import RobotController.Foundation.SeqlockProgram
import RobotController.Synchronization.SnapshotBuffer
import RobotController.Communication.CanCommandBuffer
import RobotController.Communication.CanStateBuffer
import RobotController.Control.Cycle
import RobotController.Foundation.Contraction
import RobotController.Scheduler.PortableControlScheduler
import RobotController.Foundation.CatchUp
import RobotController.Scheduler.StartDelay
import RobotController.Scheduler.LinuxControlScheduler
import RobotController.Control.ClosedLoop
import RobotController.Control.Statistics
import RobotController.Foundation.RunningTotals
import RobotController.Control.History
import RobotController.Communication.Codec
import RobotController.Communication.RoundedCodec
import RobotController.Communication.CodecLaws
import RobotController.Communication.CanCommunication
import RobotController.Foundation.Reordering
import RobotController.Foundation.SeqlockReordered
import RobotController.Communication.CanStateReordering
import RobotController.Control.Lifecycle
import RobotController.Control.LifecycleInvariant
import RobotController.Control.LifecycleSafety
import RobotController.Control.LifecycleProgress
import RobotController.Foundation.SerialReads
import RobotController.System.System
import RobotController.System.Independence
import RobotController.System.Coordination
import RobotController.System.Timeline
import RobotController.System.StateRange
import RobotController.System.Progress
import RobotController.System.Publications
import RobotController.System.Trajectory
import RobotController.System.CommandDelivery
import RobotController.System.StateReporting
import RobotController.System.VisibleStates
import RobotController.System.Telemetry
import RobotController.Control.CycleCounts
import RobotController.Control.ThreadCreation
import RobotController.Communication.CommunicationLifecycle
import RobotController.Communication.CommunicationInvariant
import RobotController.Communication.SingleWorker
import RobotController.Core.Convergence
import RobotController.Control.LifecycleLiveness
import RobotController.Scheduler.ControlSchedulerFactory
import RobotController.System.CommandConvergence
import RobotController.System.FinalReport
import RobotController.System.CommunicationRestarts
import RobotController.System.MainProgram
import RobotController.System.MainReturn
