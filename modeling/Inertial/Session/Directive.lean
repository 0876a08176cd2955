import Inertial.Shared.Pool

/-!
# Directives

A session is told what to do by directives: to arrange the chip and its faults, to power a device up
and shut it down, to make calls on it, and to use the bus and the supply on their own. Each comes
with a plan of failing accesses and of edges, counted from the directive's first access.
-/

set_option autoImplicit false

namespace Inertial

/-- Faults that last. Those of reads and writes strike at flat addresses and leave a serial bus
alone; those of rails strike when a rail is switched on or off. -/
structure Faults where
  reads : List Address := []
  writes : List Address := []
  enables : List Rail := []
  disables : List Rail := []
deriving DecidableEq, Repr

namespace Faults

/-- Whether an access runs into a fault. -/
def hits (f : Faults) : Access → Bool
  | .read a | .readBlock a _ => f.reads.contains a
  | .write a _ => f.writes.contains a
  | .serial _ => false

/-- Whether a rail cannot be switched. -/
def refuses (f : Faults) (r : Rail) (on : Bool) : Bool :=
  if on then f.enables.contains r else f.disables.contains r

/-- The faults of both. -/
def merge (f g : Faults) : Faults where
  reads := f.reads ++ g.reads
  writes := f.writes ++ g.writes
  enables := f.enables ++ g.enables
  disables := f.disables ++ g.disables

end Faults

/-- What a session is told to do. -/
inductive Directive where
  | setRegisters (contents : List (Address × Byte))
  /-- Adds faults to those there are. -/
  | addFaults (f : Faults)
  | clearFaults
  /-- Powers a device up, asking for a chip by its number. -/
  | powerUp (number : Nat) (interrupt : PinSetup)
  | shutdown
  | call (c : Call ScriptedSink)
  | concurrent (calls : List (Call ScriptedSink))
  /-- Uses the bus on its own. -/
  | register (op : RegisterOp)
  /-- Uses the supply on its own. -/
  | switch (r : Rail) (on : Bool)
  /-- Replaces the bus by a new one of its kind. -/
  | renewBus

/-- A directive with its plan. -/
structure Step where
  directive : Directive
  /-- The accesses that fail. -/
  failAt : List Nat := []
  /-- The edges that come, each with the access it comes before. -/
  edgesAt : List (Nat × Int64) := []

/-- How many wake-ups a call can cause on its own. -/
def Call.wakeUps : Call ScriptedSink → Nat
  | .interrupt _ => 1
  | .process sink | .serve sink => sink.script.length
  | _ => 0

/-- How many wake-ups a directive can cause on its own. -/
def Directive.wakeUps : Directive → Nat
  | .call c => c.wakeUps
  | .concurrent calls => calls.foldl (fun n c => n + c.wakeUps) 0
  | _ => 0

namespace Step

/-- The accesses and switches that fail and the edges that come. -/
def plan (step : Step) (faults : Faults) : Plan where
  failsAccess k x := step.failAt.contains k || faults.hits x
  failsSwitch _ r on := faults.refuses r on
  edges k := step.edgesAt.filterMap fun e => if e.1 = k then some e.2 else none

/-- How many wake-ups there can be until the directive is done, with one left from before. -/
def wakeUps (step : Step) : Nat :=
  step.edgesAt.length + step.directive.wakeUps + 1

end Step

end Inertial
