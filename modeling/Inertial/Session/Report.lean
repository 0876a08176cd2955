import Inertial.Shared.Pool

/-!
# Reports

A report says how a directive went, what happened meanwhile and how things stand afterwards.
-/

set_option autoImplicit false

namespace Inertial

/-- How a directive went. -/
inductive Outcome where
  | ok
  | noDevice
  /-- There is a device, so none can be powered up. -/
  | alreadyPowered
  /-- The bus and the supply belong to a device. -/
  | busTaken
  | failed (e : DriverError)
  /-- The supply did not switch a rail. -/
  | refused
  | answer (op : RegisterOp) (a : op.Answer)
  | reply (r : Option Reply)
  /-- The answers of concurrent calls, and the order in which they finished. -/
  | replies (rs : List (Option Reply)) (order : List Nat)

/-- How things stand after a directive. -/
inductive Standing where
  | device (config : DeviceConfig) (power : RuntimePower)
  /-- There is no device. If there is a serial bus, it takes this bank for selected. -/
  | spare (bank : Option Byte)
deriving DecidableEq, Repr

/-- What a session says about a directive. -/
structure Report where
  outcome : Outcome
  events : List Event
  standing : Standing

/-- Whether an event can be seen from outside. The end of a wait cannot, nor can the switching of
rails that are always on. -/
def Event.isVisible (supply : Supply) : Event → Bool
  | .switch .. => supply ≠ .alwaysOn
  | .woke => false
  | _ => true

end Inertial
