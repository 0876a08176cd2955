import Inertial.Driver.Basic
import Inertial.Sensor.Encoding

/-!
# Changing the configuration

A change is written to the chip one register at a time, and only registers that change are
written. The record of the configuration follows each write that succeeded, so that after a
failure it still says what the registers hold. A call that starts or stops a part of the device
answers how long its output takes to settle; waiting for that is up to the caller.
-/

set_option autoImplicit false

namespace Inertial.Driver

/-- Writes the register that tells a configuration from the one in force, and then records the
new one. -/
def store (r : ConfigRegister) (config : DeviceConfig) : Driver Unit := do
  write r.address (config.encode r)
  modifyCore fun c => { c with config }

/-- Waits until the output has settled. -/
def settle (d : Duration) : Driver Unit := do
  if d ≠ .zero then
    sleep (.millis d.wholeMillis)

/-- Changes what runs. Pauses if registers may not be accessed for a while, and answers how long
the output takes to settle. -/
def setPower (p : PowerState) : Driver Duration := do
  let config := (← getCore).config
  if p = config.power then
    return .zero
  store .power (config.withPower p)
  let waits := Settling.between config.power p
  if waits.pause ≠ .zero then
    sleep (.micros waits.pause.micros)
  return waits.settle

/-- Changes what runs and waits until the output has settled. -/
def setPowerAndWait (p : PowerState) : Driver Unit := do
  settle (← setPower p)

/-- Grants the wishes for one sensor: first its range and rate, then its filter, then its mode. -/
def configure {ρ : Type} [DecidableEq ρ] [Setting ρ 3] (sensor : Sensor ρ)
    (wishes : SensorRequest ρ) : Driver Duration := do
  let current := sensor.get (← getCore).config
  let target := wishes.resolve current
  if target.range ≠ current.range ∨ target.rate ≠ current.rate then
    let config := (← getCore).config
    store sensor.register
      (sensor.set { sensor.get config with range := target.range, rate := target.rate } config)
  if target.filter ≠ current.filter then
    let config := (← getCore).config
    store .filters (sensor.set { sensor.get config with filter := target.filter } config)
  let config := (← getCore).config
  setPower (sensor.set { sensor.get config with mode := target.mode } config).power

/-- Grants the wishes for either sensor. -/
def grant : Request → Driver Duration
  | .gyro wishes => configure .gyro wishes
  | .accel wishes => configure .accel wishes

/-- Turns the thermometer on or off. -/
def setTemperature (on : Bool) : Driver Duration := do
  setPower { (← getCore).config.power with temperature := on }

/-- Writes a whole configuration, whatever is in force, and records it at the end. -/
def load (config : DeviceConfig) : Driver Unit := do
  ConfigRegister.all.forM fun r => write r.address (config.encode r)
  modifyCore fun c => { c with config }

end Inertial.Driver
