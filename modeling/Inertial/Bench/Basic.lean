import Inertial.Bench.SerialChip
import Inertial.Bench.Supply
import Inertial.Fault
import Inertial.Interrupt

/-!
# The bench

A bench is all that surrounds the driver: the chip, the bus to it, the supply that feeds it and
the interrupt line. A plan says which register accesses and which rail switches fail and before
which accesses the interrupt line fires. The bench keeps a trace of what happened on it, in order.

Every access goes through `Bench.attempt`: it delivers the edges due, then fails or succeeds as the
plan says, and is logged.
-/

set_option autoImplicit false

namespace Inertial

/-- How the driver reaches the registers. -/
inductive Bus where
  /-- By flat address. -/
  | flat
  /-- Over a serial bus, in the bank that was last selected through the bus. -/
  | serial (current : Byte)
deriving DecidableEq, Repr

/-- One access of a bus: by flat address, or one serial transaction. -/
inductive Access where
  | read (a : Address)
  | write (a : Address) (v : Byte)
  | readBlock (a : Address) (count : Nat)
  | serial (ops : List SerialOp)
deriving DecidableEq, Repr

/-- Something that happened on the bench. -/
inductive Event where
  | access (x : Access) (ok : Bool)
  | switch (r : Rail) (on ok : Bool)
  /-- A wait begins. -/
  | delay (d : Delay)
  /-- A wait ends. -/
  | woke
  | push (s : Sample)
deriving DecidableEq, Repr

/-- What goes wrong and which edges come. Accesses and switches are counted from zero. -/
structure Plan where
  failsAccess : Nat → Access → Bool := fun _ _ => false
  failsSwitch : Nat → Rail → Bool → Bool := fun _ _ _ => false
  /-- The edges that come just before an access, oldest first. -/
  edges : Nat → List Int64 := fun _ => []

/-- The surroundings of the driver. -/
structure Bench where
  chip : SerialChip := {}
  bus : Bus := .flat
  supply : Supply := .alwaysOn
  /-- The pins of the rails, if the supply has any. -/
  pins : SupplyPins := {}
  plan : Plan := {}
  accesses : Nat := 0
  switches : Nat := 0
  inbox : Inbox := {}
  trace : List Event := []

namespace Bench

/-- Adds an event to the trace. -/
def log (e : Event) (b : Bench) : Bench :=
  { b with trace := b.trace ++ [e] }

/-- The interrupt line fires at a time. -/
def raise (now : Int64) (b : Bench) : Bench :=
  { b with inbox := b.inbox.raise now }

/-- Delivers the edges that come before the next access. -/
def deliver (b : Bench) : Bench :=
  { b with inbox := b.inbox.raiseAll (b.plan.edges b.accesses) }

/-- Attempts an access and says whether it succeeded. What the access does is up to the caller. -/
def attempt (x : Access) (b : Bench) : Bool × Bench :=
  let ok := !b.plan.failsAccess b.accesses x
  (ok, { b.deliver.log (.access x ok) with accesses := b.accesses + 1 })

/-- Attempts to switch a rail and says whether it was switched. -/
def switch (r : Rail) (on : Bool) (b : Bench) : Bool × Bench :=
  let (ok, pins) := b.supply.switch (b.plan.failsSwitch b.switches) r on b.pins
  (ok, { b.log (.switch r on ok) with switches := b.switches + 1, pins })

/-- A rail that is not always on is switched unless the plan has that fail. -/
theorem switch_fst (r : Rail) (on : Bool) (b : Bench) :
    (b.switch r on).1 = (b.supply == .alwaysOn || !b.plan.failsSwitch b.switches r on) :=
  Supply.switch_fst _ _ _ _ _

/-- What a switch does to the pins is up to the supply. -/
theorem pins_switch (r : Rail) (on : Bool) (b : Bench) :
    (b.switch r on).2.pins =
      (b.supply.switch (b.plan.failsSwitch b.switches) r on b.pins).2 := rfl

/-- Where pins switch the rails, a switch that happens drives the pin of its rail, and one that does
not happen drives none. -/
theorem driven_switch {b : Bench} (hpins : b.supply = .pins) (r : Rail) (on : Bool) :
    ((b.switch r on).2.pins.pin r).driven =
      if (b.switch r on).1 then (b.pins.pin r).driven ++ [SupplyPins.levelOf on]
      else (b.pins.pin r).driven := by
  simp only [switch, hpins]
  exact SupplyPins.driven_switch _ _ _ _

/-- No switch drives the pin of another rail. -/
theorem pin_switch_of_ne (b : Bench) {r t : Rail} (ht : t ≠ r) (on : Bool) :
    (b.switch r on).2.pins.pin t = b.pins.pin t := by
  cases hsupply : b.supply <;> simp only [switch, hsupply]
  · rfl
  · rfl
  · exact SupplyPins.pin_switch_of_ne _ _ _ _ ht

/-- The bench with a register's content replaced. -/
def poke (a : Address) (v : Byte) (b : Bench) : Bench :=
  { b with chip := { b.chip with memory := b.chip.memory.write a v } }

end Bench

end Inertial
