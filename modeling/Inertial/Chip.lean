import Inertial.Register.Field
import Inertial.Sensor.Config

/-!
# Chips

The chips of the family share their registers and differ in what they identify themselves as and
in the configuration they start from. A chip is asked for by a small number; `ofNumber?_number`
says that every chip is found under its own.
-/

set_option autoImplicit false

namespace Inertial

/-- A member of the chip family. -/
inductive Chip where
  | icm42600
  | icm42602
  | icm42605
  | icm42622
  | icm42631
  | icm42670
deriving DecidableEq, Repr

namespace Chip

def values : List Chip := [.icm42600, .icm42602, .icm42605, .icm42622, .icm42631, .icm42670]

/-- The number a chip is asked for by. -/
def number : Chip → Nat
  | .icm42600 => 1
  | .icm42602 => 2
  | .icm42605 => 3
  | .icm42622 => 4
  | .icm42631 => 5
  | .icm42670 => 6

/-- The chip of a given number, if there is one. -/
def ofNumber? (n : Nat) : Option Chip :=
  values.find? fun c => c.number == n

def name : Chip → String
  | .icm42600 => "icm42600"
  | .icm42602 => "icm42602"
  | .icm42605 => "icm42605"
  | .icm42622 => "icm42622"
  | .icm42631 => "icm42631"
  | .icm42670 => "icm42670"

/-- What the chip's identity register holds. -/
def whoAmI : Chip → Byte
  | .icm42600 => 0x40
  | .icm42602 => 0x41
  | .icm42605 => 0x42
  | .icm42622 => 0x46
  | .icm42631 => 0x5C
  | .icm42670 => 0x67

/-- A configuration with both sensors in one mode and at one rate, the widest ranges and filters,
and no thermometer. -/
def widest (mode : SensorMode) (rate : DataRate) : DeviceConfig where
  gyro := { mode, range := .dps2000, rate, filter := .odrDiv2 }
  accel := { mode, range := .g16, rate, filter := .odrDiv2 }
  temperature := false

/-- The configuration loaded after a reset. -/
def defaultConfig : Chip → DeviceConfig
  | .icm42670 => widest .lowNoise .hz200
  | _ => widest .off .hz50

/-- Every chip is found under its number. -/
@[simp] theorem ofNumber?_number (c : Chip) : ofNumber? c.number = some c := by
  cases c <;> rfl

/-- Chips can be told apart by their identity registers. -/
theorem whoAmI_injective {c d : Chip} (h : c.whoAmI = d.whoAmI) : c = d := by
  cases c <;> cases d <;> first
    | rfl
    | exact absurd h (by decide)

end Chip

end Inertial
