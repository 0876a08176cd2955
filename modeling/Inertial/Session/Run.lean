import Inertial.Session.Directive
import Inertial.Session.Report

/-!
# Sessions on a bench

A session takes directives one by one and reports on each. A device takes the bus and the supply. It
gives them back when it is shut down, while a failed power-up loses them; new ones are then made
when they are next needed.
-/

set_option autoImplicit false

namespace Inertial

/-- A bench with what was built on it. -/
structure Session where
  bench : Bench
  device : Option Core := none
  /-- There is a bus outside of the device. -/
  hasBus : Bool := true
  faults : Faults := {}

/-- A new bus of the same kind, which takes the first bank for selected. -/
def Bus.renew : Bus → Bus
  | .flat => .flat
  | .serial _ => .serial Register.bank0

namespace Session

/-- A session on a chip whose registers hold the given contents and zero elsewhere. -/
def start (bus : Bus) (supply : Supply) (contents : List (Address × Byte)) : Session where
  bench := { chip := { memory := Memory.zero.writeAll contents }, bus, supply }

/-- The session with a bus outside of the device. -/
def withBus (s : Session) : Session :=
  if s.hasBus then s
  else { s with bench := { s.bench with bus := s.bench.bus.renew }, hasBus := true }

def standing (s : Session) : Standing :=
  match s.device, s.bench.bus with
  | some core, _ => .device core.config core.power
  | none, .flat => .spare none
  | none, .serial bank => .spare (if s.hasBus then some bank else none)

/-- Powers a device up. A new device has an empty inbox, and a failure loses the bus. -/
def powerUp (number : Nat) (interrupt : PinSetup) (s : Session) : Outcome × Session :=
  match Chip.ofNumber? number with
  | none => (.failed (.unknownChip number), s)
  | some chip =>
    let s := s.withBus
    let (result, system) :=
      (Driver.powerUp chip interrupt).exec { bench := s.bench, core := .fresh chip }
    match result with
    | .ok () =>
      (.ok, { s with bench := { system.bench with inbox := {} }, device := some system.core })
    | .error e => (.failed e, { s with bench := system.bench, hasBus := false })

/-- Uses a device, if there is one. -/
def withDevice (s : Session) (use : System → Outcome × System) : Outcome × Session :=
  match s.device with
  | none => (.noDevice, s)
  | some core =>
    let (outcome, system) := use { bench := s.bench, core }
    (outcome, { s with bench := system.bench, device := some system.core })

/-- Uses the bus and the supply on their own, if there is no device. -/
def withBench (s : Session) (use : Bench → Outcome × Bench) : Outcome × Session :=
  match s.device with
  | some _ => (.busTaken, s)
  | none =>
    let s := s.withBus
    let (outcome, bench) := use s.bench
    (outcome, { s with bench })

/-- Does what a directive says, with at most a given number of wake-ups. -/
def obey (wakeUps : Nat) (s : Session) : Directive → Outcome × Session
  | .setRegisters contents =>
    let chip := { s.bench.chip with memory := s.bench.chip.memory.writeAll contents }
    (.ok, { s with bench := { s.bench with chip } })
  | .addFaults f => (.ok, { s with faults := s.faults.merge f })
  | .clearFaults => (.ok, { s with faults := {} })
  | .powerUp number interrupt =>
    if s.device.isSome then (.alreadyPowered, s) else s.powerUp number interrupt
  | .shutdown =>
    let (outcome, s) := s.withDevice fun system =>
      (.ok, (Driver.shutdown.exec system).2)
    (outcome, { s with device := none })
  | .call c => s.withDevice fun system =>
    let (reply, system) := c.perform wakeUps system
    (.reply reply, system)
  | .concurrent calls => s.withDevice fun system =>
    let pool := (Pool.ofCalls calls system).settle wakeUps
    (.replies pool.replies pool.order, pool.system)
  | .register op => s.withBench fun bench =>
    match op.perform.exec bench with
    | (.ok a, bench) => (.answer op a, bench)
    | (.error fault, bench) => (.failed (.bus fault), bench)
  | .switch r on => s.withBench fun bench =>
    let (ok, bench) := bench.switch r on
    (if ok then .ok else .refused, bench)
  | .renewBus => s.withBench fun bench =>
    (.ok, { bench with bus := bench.bus.renew })

/-- Takes one step and reports on it. -/
def step (s : Session) (step : Step) : Report × Session :=
  let bench :=
    { s.bench with plan := step.plan s.faults, accesses := 0, switches := 0, trace := [] }
  let (outcome, s) := { s with bench }.obey step.wakeUps step.directive
  ({ outcome
     events := s.bench.trace.filter (Event.isVisible s.bench.supply)
     standing := s.standing }, s)

/-- Takes steps one after the other and reports on each. -/
def run : Session → List Step → List Report
  | _, [] => []
  | s, first :: rest =>
    let (report, s) := s.step first
    report :: s.run rest

end Session

end Inertial
