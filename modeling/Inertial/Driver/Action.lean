import Inertial.Bench.Bus
import Inertial.Chip

/-!
# Acting on a device

The driver keeps a record of the device, the core, under a lock. Whoever holds the lock acts on the
bench and on the core. An action happens at once: nothing comes between its beginning and its end.
-/

set_option autoImplicit false

namespace Inertial

/-- What the driver knows about the device. -/
structure Core where
  chip : Chip
  /-- The configuration that the registers hold. -/
  config : DeviceConfig
  /-- The FIFO is to take samples. -/
  streaming : Bool := false
  /-- What ran when the system was last suspended. -/
  saved : PowerState := .off
  power : RuntimePower := {}
  rails : Rails := {}
deriving DecidableEq, Repr

/-- The record of a chip that has not been powered up. -/
def Core.fresh (chip : Chip) : Core where
  chip := chip
  config := chip.defaultConfig

/-- The device and its surroundings. -/
structure System where
  bench : Bench
  core : Core
  locked : Bool := false

/-- Adds an event to the trace. -/
def System.log (e : Event) (s : System) : System :=
  { s with bench := s.bench.log e }

/-- Something the lock holder does at once. -/
inductive Action where
  | register (op : RegisterOp)
  | switch (r : Rail) (on : Bool)
  /-- Hands a sample to the sink. -/
  | push (sample : Sample)
  /-- The interrupt line fires meanwhile. -/
  | raise (now : Int64)
  | getCore
  | setCore (core : Core)
deriving DecidableEq, Repr

namespace Action

/-- What an action answers. -/
abbrev Answer : Action → Type
  | .register op => Except BusFault op.Answer
  | .switch .. => Bool
  | .push _ => Unit
  | .raise _ => Unit
  | .getCore => Core
  | .setCore _ => Unit

/-- Does an action. -/
def perform : (x : Action) → System → x.Answer × System
  | .register op, s =>
    let (answer, bench) := op.perform.exec s.bench
    (answer, { s with bench })
  | .switch r on, s =>
    let (ok, bench) := s.bench.switch r on
    (ok, { s with bench })
  | .push sample, s => ((), s.log (.push sample))
  | .raise now, s => ((), { s with bench := s.bench.raise now })
  | .getCore, s => (s.core, s)
  | .setCore core, s => ((), { s with core })

end Action

end Inertial
