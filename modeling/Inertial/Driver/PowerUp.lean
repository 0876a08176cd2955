import Inertial.Driver.Lifecycle

/-!
# Powering up

A chip is supplied, identified, reset and loaded with its default configuration, and its interrupt
line is armed. When a step fails, the rails that were switched on are switched off again and the
failure is reported.
-/

set_option autoImplicit false

namespace Inertial.Driver

/-- Checks that the chip is the expected one. -/
def identify (chip : Chip) : Driver Unit := do
  let found ← read Register.whoAmI
  if found ≠ chip.whoAmI then
    throw (.wrongIdentity chip.whoAmI found)

/-- Resets the chip and checks that it says so. -/
def reset : Driver Unit := do
  write Register.deviceConfig Register.softReset
  sleep (.millis Timing.softReset)
  let status ← read Register.intStatus
  if StatusRegister.resetDone.get status = 0 then
    throw .resetNotConfirmed

/-- Sets the interrupt pin up and routes new data to it. -/
def armInterrupt (config : PinSetup) : Driver Unit := do
  write Register.intConfig config.encode
  update Register.intConfig1 Register.asyncReset 0
  update Register.intSource0 Register.dataReadyToPin1 Register.dataReadyToPin1

/-- Brings a supplied chip to its default configuration. -/
def setUp (chip : Chip) (interrupt : PinSetup) : Driver Unit := do
  identify chip
  reset
  update Register.intfConfig0 Register.bigEndianData 0
  load chip.defaultConfig
  update Register.tmstConfig Register.timestampMask
    (Register.timestampToRegisters ||| Register.timestampEnable)
  armInterrupt interrupt
  modifyCore fun c => { c with power := { enabled := true, active := true } }

/-- Supplies a chip and brings it to its default configuration. -/
def supplyAndSetUp (chip : Chip) (interrupt : PinSetup) : Driver Unit := do
  switch .vdd true
  sleep (.millis Timing.coreSupply)
  interfaceOn
  setUp chip interrupt

/-- Powers a chip up, or undoes what was switched on and reports the first failure. -/
def powerUp (chip : Chip) (interrupt : PinSetup) : Driver Unit :=
  tryCatch (supplyAndSetUp chip interrupt) fun e => do
    releaseRails
    throw e

end Inertial.Driver
