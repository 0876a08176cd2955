import Inertial.Sensor.Setting

/-!
# Sensor configurations

A sensor's configuration gives a value for each of its four settings, and a request gives some of
them; resolving a request against a configuration fills the gaps. The configuration of the whole
device is that of both sensors and of the thermometer. Its power state is the part that says what
runs: both modes and the thermometer.
-/

set_option autoImplicit false

namespace Inertial

/-- All settings of one sensor, whose ranges are the values of `ρ`. -/
structure SensorConfig (ρ : Type) where
  mode : SensorMode
  range : ρ
  rate : DataRate
  filter : Bandwidth
deriving DecidableEq, Repr

/-- Wishes for one sensor; a setting that is not given stays as it is. -/
structure SensorRequest (ρ : Type) where
  mode : Option SensorMode := none
  range : Option ρ := none
  rate : Option DataRate := none
  filter : Option Bandwidth := none
deriving DecidableEq, Repr

namespace SensorRequest

variable {ρ : Type}

/-- The configuration a request asks for, given the one in force. -/
def resolve (r : SensorRequest ρ) (current : SensorConfig ρ) : SensorConfig ρ where
  mode := r.mode.getD current.mode
  range := r.range.getD current.range
  rate := r.rate.getD current.rate
  filter := r.filter.getD current.filter

/-- A request without wishes asks for what is in force. -/
@[simp] theorem resolve_empty (current : SensorConfig ρ) :
    ({} : SensorRequest ρ).resolve current = current := rfl

/-- A request that has been met asks for nothing more. -/
@[simp] theorem resolve_resolve (r : SensorRequest ρ) (current : SensorConfig ρ) :
    r.resolve (r.resolve current) = r.resolve current := by
  rcases r with ⟨_ | _, _ | _, _ | _, _ | _⟩ <;> rfl

end SensorRequest

/-- Wishes for one of the two sensors. -/
inductive Request where
  | gyro (wishes : SensorRequest GyroRange)
  | accel (wishes : SensorRequest AccelRange)
deriving DecidableEq, Repr

/-- Which parts of the device run. -/
structure PowerState where
  gyro : SensorMode
  accel : SensorMode
  temperature : Bool
deriving DecidableEq, Repr

/-- Nothing runs. -/
def PowerState.off : PowerState where
  gyro := .off
  accel := .off
  temperature := false

/-- The settings of both sensors and of the thermometer. -/
structure DeviceConfig where
  gyro : SensorConfig GyroRange
  accel : SensorConfig AccelRange
  temperature : Bool
deriving DecidableEq, Repr

namespace DeviceConfig

/-- What runs under a configuration. -/
def power (c : DeviceConfig) : PowerState where
  gyro := c.gyro.mode
  accel := c.accel.mode
  temperature := c.temperature

/-- The configuration that runs what `p` says and keeps every other setting. -/
def withPower (c : DeviceConfig) (p : PowerState) : DeviceConfig where
  gyro := { c.gyro with mode := p.gyro }
  accel := { c.accel with mode := p.accel }
  temperature := p.temperature

/-- A power state that is put in is the one that is there. -/
@[simp] theorem power_withPower (c : DeviceConfig) (p : PowerState) : (c.withPower p).power = p :=
  rfl

/-- Putting in the one that is there changes nothing. -/
@[simp] theorem withPower_power (c : DeviceConfig) : c.withPower c.power = c := rfl

/-- The last one put in counts. -/
@[simp] theorem withPower_withPower (c : DeviceConfig) (p q : PowerState) :
    (c.withPower p).withPower q = c.withPower q := rfl

end DeviceConfig

end Inertial
