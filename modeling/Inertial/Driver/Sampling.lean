import Inertial.Driver.Basic

/-!
# Taking a sample

When the chip says that new data is there, the twelve data registers are read in one go and handed
to the sink together with a time. A failed access gives no sample.
-/

set_option autoImplicit false

namespace Inertial.Driver

/-- Reads the data registers if new data is there. -/
def readData : Driver (Option RawBlock) := do
  let status ← read Register.intStatus
  if StatusRegister.dataReady.get status = 0 then
    return none
  return some (← readBlock Register.accelData RawBlock.size)

/-- Takes a sample with a given time and hands it to the sink if that wants it. Gives the sample
and the sink after it. -/
def takeSample {σ : Type} [Sink σ] (timestamp : Int64) (sink : σ) :
    Routine (Option Sample × σ) := do
  match ← readData.run with
  | .ok (some raw) =>
    let sample := Sample.ofRaw raw timestamp
    if Sink.isEnabled sink then
      act (.push sample)
      let (edges, sink) := Sink.push sample sink
      edges.forM fun now => act (.raise now)
      return (some sample, sink)
    else
      return (some sample, sink)
  | .ok none | .error _ => return (none, sink)

end Inertial.Driver
