import Inertial.Sensor.Settling

/-!
# Power rails and runtime power management

The chip has two supplies: one for the sensor core, which stays on for as long as the device
lives, and one for its interface, which is switched off to save power. The driver keeps track of
which it has switched on, and of whether the device may be and is suspended at run time.
-/

set_option autoImplicit false

namespace Inertial

/-- A supply of the chip. -/
inductive Rail where
  /-- Feeds the sensor core. -/
  | vdd
  /-- Feeds the interface. -/
  | vddio
deriving DecidableEq, Repr

/-- Which rails have been switched on. -/
structure Rails where
  vdd : Bool := false
  vddio : Bool := false
deriving DecidableEq, Repr

namespace Rails

/-- Whether a rail has been switched on. -/
def isOn (s : Rails) : Rail → Bool
  | .vdd => s.vdd
  | .vddio => s.vddio

/-- The state after switching a rail. -/
def set (s : Rails) (on : Bool) : Rail → Rails
  | .vdd => { s with vdd := on }
  | .vddio => { s with vddio := on }

/-- A rail that was set is as it was set. -/
@[simp] theorem isOn_set (s : Rails) (on : Bool) (r : Rail) : (s.set on r).isOn r = on := by
  cases r <;> rfl

/-- The other rail is as it was. -/
theorem isOn_set_of_ne (s : Rails) (on : Bool) {r t : Rail} (h : t ≠ r) :
    (s.set on r).isOn t = s.isOn t := by
  cases r <;> cases t <;> simp_all [set, isOn]

end Rails

namespace Timing

/-- Milliseconds to wait after the core supply came on. -/
def coreSupply : Nat := 100

/-- Microseconds to wait after the interface supply came on. -/
def interfaceSupply : Nat := 3000

/-- Milliseconds a soft reset takes. -/
def softReset : Nat := 1

/-- Milliseconds of idling before the host may suspend the device at run time. -/
def autosuspend : Nat := 2000

end Timing

/-- Whether the device may be suspended at run time, and whether it is active. -/
structure RuntimePower where
  enabled : Bool := false
  active : Bool := false
deriving DecidableEq, Repr

namespace RuntimePower

def suspended (p : RuntimePower) : Bool := !p.active

/-- How long the device idles before the host may suspend it. -/
def autosuspendDelay (_ : RuntimePower) : Duration := .ofMillis Timing.autosuspend

end RuntimePower

end Inertial
