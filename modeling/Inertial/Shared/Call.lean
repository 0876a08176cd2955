import Inertial.Driver.PowerUp
import Inertial.Driver.Sampling

/-!
# Device calls

A device is shared by several tasks, each of which makes calls. Most calls are operations that hold
the device lock from their first action to their last. Noting an interrupt and waiting for one go
without the lock, and taking a sample looks at the inbox before it asks for the lock.

`Call.perform` is what a call does when nobody else uses the device. A call that waits for an
interrupt that does not come has no reply.
-/

set_option autoImplicit false

namespace Inertial

/-- A call that holds the device lock throughout. -/
inductive Operation where
  /-- Grants wishes for one sensor, and waits until the output has settled if that is wanted. -/
  | grant (request : Request) (wait : Bool)
  | setTemperature (on wait : Bool)
  | setPower (p : PowerState) (wait : Bool)
  | suspend
  | resume
  | runtimeSuspend
  | runtimeResume
  | setStreaming (on : Bool)
  | getConfig
  | getPower
  | isSuspended
deriving DecidableEq, Repr

/-- What a call answers. -/
inductive Reply where
  | ok
  /-- How long the caller has to wait until the output has settled. -/
  | settling (d : Duration)
  | failed (e : DriverError)
  | config (c : DeviceConfig)
  | power (p : RuntimePower)
  | flag (b : Bool)
  | identity (chip : Chip)
  | sample (s : Option Sample)
deriving DecidableEq, Repr

namespace Operation

/-- The answer to a routine that can fail. -/
def reply {α : Type} (x : Driver α) (f : α → Reply) : Routine Reply := do
  match ← x.run with
  | .ok a => return f a
  | .error e => return .failed e

/-- Waits for the output here or leaves that to the caller. -/
def settling (wait : Bool) (x : Driver Duration) : Routine Reply :=
  if wait then reply (x >>= Driver.settle) fun _ => .ok else reply x .settling

/-- What an operation does while it holds the lock. -/
def body : Operation → Routine Reply
  | .grant request wait => settling wait (Driver.grant request)
  | .setTemperature on wait => settling wait (Driver.setTemperature on)
  | .setPower p wait => settling wait (Driver.setPower p)
  | .suspend => reply Driver.suspend fun _ => .ok
  | .resume => reply Driver.resume fun _ => .ok
  | .runtimeSuspend => reply Driver.runtimeSuspend fun _ => .ok
  | .runtimeResume => reply Driver.runtimeResume fun _ => .ok
  | .setStreaming on => reply (Driver.setStreaming on) fun _ => .ok
  | .getConfig => reply Driver.getCore fun c => .config c.config
  | .getPower => reply Driver.getCore fun c => .power c.power
  | .isSuspended => reply Driver.getCore fun c => .flag c.power.suspended

end Operation

/-- A call on a shared device whose samples go to sinks in `σ`. -/
inductive Call (σ : Type) where
  | operation (op : Operation)
  | identity
  /-- The interrupt line fires at a time. -/
  | interrupt (now : Int64)
  /-- Waits for a wake-up and takes it. -/
  | awaitInterrupt
  /-- Takes one sample. -/
  | process (sink : σ)
  /-- Takes a sample for each wake-up, for ever. -/
  | serve (sink : σ)
deriving DecidableEq, Repr

namespace System

/-- The time that a sample taken now gets. -/
def stamp (s : System) : Int64 :=
  s.bench.inbox.stamp.accel

/-- The interrupt line fires. -/
def interrupt (now : Int64) (s : System) : System :=
  { s with bench := s.bench.raise now }

/-- Takes the wake-up if there is one. -/
def takeWakeUp? (s : System) : Option System :=
  s.bench.inbox.take?.map fun inbox => { s with bench := { s.bench with inbox } }

variable {σ : Type} [Sink σ]

/-- Takes samples as long as there are wake-ups, at most a given number of them. -/
def serve : Nat → σ → System → System
  | 0, _, s => s
  | n + 1, sink, s =>
    match s.takeWakeUp? with
    | none => s
    | some s =>
      let ((_, sink), s) := (Driver.takeSample s.stamp sink).run s
      serve n sink s

end System

namespace Call

variable {σ : Type} [Sink σ]

/-- Makes a call while nobody else uses the device. A worker takes at most a given number of
wake-ups. -/
def perform (wakeUps : Nat) : Call σ → System → Option Reply × System
  | .operation op, s =>
    let (r, s) := op.body.run s
    (some r, s)
  | .identity, s => (some (.identity s.core.chip), s)
  | .interrupt now, s => (some .ok, s.interrupt now)
  | .awaitInterrupt, s =>
    match s.takeWakeUp? with
    | some s => (some .ok, s)
    | none => (none, s)
  | .process sink, s =>
    let ((sample, _), s) := (Driver.takeSample s.stamp sink).run s
    (some (.sample sample), s)
  | .serve sink, s => (none, s.serve wakeUps sink)

end Call

end Inertial
