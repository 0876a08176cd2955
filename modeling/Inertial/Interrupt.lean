import Inertial.Register.Layout
import Inertial.Sample

/-!
# Interrupts

The first interrupt pin is set up for one of four triggers. When it fires, the time is noted in an
inbox and a wake-up is left there, all without the device lock; a worker takes the wake-up later
and finds the time of the newest edge. Several edges before that leave one wake-up.

A sink takes the samples. It may cause new edges while it takes one.
-/

set_option autoImplicit false

namespace Inertial

/-- What the interrupt pin does when new data is there. -/
inductive Trigger where
  | risingEdge
  | fallingEdge
  | levelHigh
  | levelLow
deriving DecidableEq, Repr

namespace Trigger

def values : List Trigger := [.risingEdge, .fallingEdge, .levelHigh, .levelLow]

def name : Trigger → String
  | .risingEdge => "RisingEdge"
  | .fallingEdge => "FallingEdge"
  | .levelHigh => "LevelHigh"
  | .levelLow => "LevelLow"

/-- The trigger of a given name, if there is one. -/
def ofName? (s : String) : Option Trigger :=
  values.find? fun t => t.name == s

/-- The pin rises to signal new data. -/
def isActiveHigh : Trigger → Bool
  | .risingEdge | .levelHigh => true
  | .fallingEdge | .levelLow => false

/-- The pin keeps its level until it is served. -/
def isLatched : Trigger → Bool
  | .levelHigh | .levelLow => true
  | .risingEdge | .fallingEdge => false

end Trigger

/-- The set-up of the interrupt pin. -/
structure PinSetup where
  trigger : Trigger := .fallingEdge
  openDrain : Bool := false
deriving DecidableEq, Repr

/-- The pin register for a set-up. -/
def PinSetup.encode (c : PinSetup) : Byte :=
  PinRegister.pin1PushPull.set (BitVec.ofBool !c.openDrain)
    (PinRegister.pin1Latched.set (BitVec.ofBool c.trigger.isLatched)
      (PinRegister.pin1ActiveHigh.set (BitVec.ofBool c.trigger.isActiveHigh) 0))

/-- When each sensor's newest data was ready, in nanoseconds. -/
structure Stamp where
  gyro : Int64 := 0
  accel : Int64 := 0
deriving DecidableEq, Repr

/-- What interrupts leave for the worker. -/
structure Inbox where
  stamp : Stamp := {}
  signalled : Bool := false
deriving DecidableEq, Repr

namespace Inbox

/-- Notes the time of an edge and leaves a wake-up. -/
def raise (now : Int64) (_ : Inbox) : Inbox where
  stamp := { gyro := now, accel := now }
  signalled := true

/-- Notes a list of edges, oldest first. -/
def raiseAll (times : List Int64) (i : Inbox) : Inbox :=
  times.foldl (fun i now => i.raise now) i

/-- Takes the wake-up if there is one and keeps the time. -/
def take? (i : Inbox) : Option Inbox :=
  if i.signalled then some { i with signalled := false } else none

/-- Without an edge the inbox is as it was. -/
@[simp] theorem raiseAll_nil (i : Inbox) : i.raiseAll [] = i := rfl

/-- Edges come in their order. -/
@[simp] theorem raiseAll_cons (now : Int64) (times : List Int64) (i : Inbox) :
    i.raiseAll (now :: times) = (i.raise now).raiseAll times := rfl

end Inbox

/-- A consumer of samples. -/
class Sink (σ : Type) where
  /-- Whether samples are wanted. -/
  isEnabled : σ → Bool := fun _ => true
  /-- Takes a sample; gives the edges caused meanwhile, oldest first, and the sink after it. -/
  push : Sample → σ → List Int64 × σ

/-- A sink that causes one edge for each sample, at given times, until none is left. -/
structure ScriptedSink where
  enabled : Bool := true
  script : List Int64 := []
deriving DecidableEq, Repr

instance : Sink ScriptedSink where
  isEnabled s := s.enabled
  push _ s := (s.script.take 1, { s with script := s.script.drop 1 })

end Inertial
