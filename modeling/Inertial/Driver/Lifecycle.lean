import Inertial.Driver.Configure

/-!
# Suspending, resuming and shutting down

A system suspend notes what runs and then turns everything and the interface supply off; a resume
turns them on again. Runtime suspension does the same without the note, and runtime resumption
brings back the supply only. Shutting down turns everything off whatever fails on the way.
-/

set_option autoImplicit false

namespace Inertial.Driver

/-- Turns the interface supply on and waits until it is stable. -/
def interfaceOn : Driver Unit := do
  switch .vddio true
  sleep (.micros Timing.interfaceSupply)

/-- Turns the interface supply off. -/
def interfaceOff : Driver Unit :=
  switch .vddio false

/-- Lets the FIFO take samples or not. -/
def setFifo (stream : Bool) : Driver Unit :=
  write Register.fifoConfig (if stream then Register.fifoStream else Register.fifoBypass)

/-- Lets the FIFO take samples or not, and notes that it does for later resumes. -/
def setStreaming (on : Bool) : Driver Unit := do
  setFifo on
  modifyCore fun c => { c with streaming := on }

/-- Notes what runs and turns the device off, unless it is suspended at run time already. -/
def suspend : Driver Unit := do
  modifyCore fun c => { c with saved := c.config.power }
  let core ← getCore
  if core.power.suspended then
    return
  if core.streaming then
    setFifo false
  setPowerAndWait .off
  interfaceOff

/-- Turns the device on and runs what was noted by the last suspend. -/
def resume : Driver Unit := do
  interfaceOn
  modifyCore fun c => { c with power := { enabled := true, active := true } }
  setPowerAndWait (← getCore).saved
  if (← getCore).streaming then
    setFifo true

/-- Turns the device off and leaves the note of the last suspend alone. -/
def runtimeSuspend : Driver Unit := do
  setPowerAndWait .off
  interfaceOff
  modifyCore fun c => { c with power := { c.power with active := false } }

/-- Turns the interface on; the sensors stay off. -/
def runtimeResume : Driver Unit := do
  interfaceOn
  modifyCore fun c => { c with power := { c.power with active := true } }

/-- Switches off every rail that is on, that of the interface first, whatever fails. -/
def releaseRails : Driver Unit := do
  if (← getCore).rails.vddio then
    attempt (switch .vddio false)
  if (← getCore).rails.vdd then
    attempt (switch .vdd false)

/-- Turns everything off for good, whatever fails. -/
def shutdown : Driver Unit := do
  unless (← getCore).power.suspended do
    attempt (setPowerAndWait .off)
  modifyCore fun c => { c with power := { c.power with enabled := false } }
  releaseRails

end Inertial.Driver
