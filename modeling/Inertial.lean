import Inertial.Register.Field
import Inertial.Register.Layout
import Inertial.Register.Address
import Inertial.Sensor.Setting
import Inertial.Sensor.Config
import Inertial.Sensor.Settling
import Inertial.Sensor.Encoding
import Inertial.LittleEndian
import Inertial.Sample
import Inertial.Power
import Inertial.Interrupt
import Inertial.Chip
import Inertial.Fault
import Inertial.Bench.Memory
import Inertial.Bench.SerialChip
import Inertial.Bench.Supply
import Inertial.Bench.Basic
import Inertial.Bench.Bus
import Inertial.Driver.Action
import Inertial.Driver.Routine
import Inertial.Driver.Basic
import Inertial.Driver.Configure
import Inertial.Driver.Lifecycle
import Inertial.Driver.PowerUp
import Inertial.Driver.Sampling
import Inertial.Shared.Call
import Inertial.Shared.Task
import Inertial.Shared.Pool
import Inertial.Session.Directive
import Inertial.Session.Report
import Inertial.Session.Run
import Inertial.Proofs.Bus.PlainMemory
import Inertial.Proofs.Bus.BankSelection
import Inertial.Proofs.Driver.Interruption
import Inertial.Proofs.Driver.Agreement
import Inertial.Proofs.Driver.Composition
import Inertial.Proofs.Driver.Stability
import Inertial.Proofs.Shared.Guarded
import Inertial.Proofs.Driver.Mirror
import Inertial.Proofs.Register.Reserved
import Inertial.Proofs.Shared.Reachable
import Inertial.Proofs.Shared.Sequence
import Inertial.Proofs.Shared.RoundTrip
import Inertial.Proofs.Bus.Indifference
import Inertial.Proofs.Driver.Blindness
import Inertial.Proofs.Shared.Stretch
import Inertial.Proofs.Shared.Atomicity
import Inertial.Proofs.Shared.Progress
import Inertial.Proofs.Driver.Outcome
import Inertial.Proofs.Shared.Retry
import Inertial.Proofs.Driver.Granting
import Inertial.Proofs.Shared.LastWish
import Inertial.Proofs.Bus.Replay
import Inertial.Proofs.Driver.Logged
import Inertial.Proofs.Shared.History
import Inertial.Proofs.Shared.Turns
import Inertial.Proofs.Driver.SampleLog
import Inertial.Proofs.Shared.Timestamps
import Inertial.Proofs.Shared.Windows
import Inertial.Proofs.Driver.Watched
import Inertial.Proofs.Driver.Waiting
import Inertial.Proofs.Shared.AccessWindows
import Inertial.Proofs.Bus.Steadiness
import Inertial.Proofs.Bus.Writes
import Inertial.Proofs.Bus.Scripts
import Inertial.Proofs.Driver.Steadiness
import Inertial.Proofs.Driver.Rails
import Inertial.Proofs.Driver.Pace
import Inertial.Proofs.Driver.FailedPowerUp
import Inertial.Proofs.Shared.Covenant
import Inertial.Proofs.Shared.RailLedger
import Inertial.Proofs.Shared.Fifo
import Inertial.Proofs.Shared.Chronicle
import Inertial.Proofs.Shared.WakeUps
import Inertial.Proofs.Bus.FirstBank
import Inertial.Proofs.Driver.FailFast
import Inertial.Proofs.Driver.FirstFailure
import Inertial.Proofs.Shared.Failures
import Inertial.Proofs.Bus.SerialTwin
import Inertial.Proofs.Driver.SerialTwin
import Inertial.Proofs.Shared.SerialTwin
import Inertial.Proofs.Session.SerialTwin
import Inertial.Proofs.Shared.Ledger
import Inertial.Proofs.Driver.Effect
import Inertial.Proofs.Driver.PowerTransitions
import Inertial.Proofs.Shared.Proceedings
import Inertial.Proofs.Shared.Bookkeeping
import Inertial.Proofs.Shared.Supply
import Inertial.Proofs.Driver.Rousing
import Inertial.Proofs.Driver.Stages
import Inertial.Proofs.Shared.Requests
import Inertial.Proofs.Driver.WaitCount
import Inertial.Proofs.Shared.Rest
import Inertial.Proofs.Shared.Interrupts
import Inertial.Proofs.Session.Interrupts
import Inertial.Proofs.Driver.PoweredUp
import Inertial.Proofs.Bus.OutOfStep
import Inertial.Proofs.Session.Renewal
import Inertial.Proofs.Driver.SampleContent
import Inertial.Proofs.Shared.FirstBank
import Inertial.Proofs.Shared.SampleTurn
import Inertial.Proofs.Shared.Reentrance
import Inertial.Proofs.Sample.Image
import Inertial.Proofs.Register.Offers
