import Inertial.Driver.Routine

/-!
# Routines that can fail

A driver is a routine that stops at its first failure. These are the steps that all drivers are
made of, and `Driver.exec` is what they do to a system. The statements give the effect of every step
and of sequencing, so that the effect of a driver can be read off its text.
-/

set_option autoImplicit false

namespace Inertial

/-- A routine that can fail. -/
abbrev Driver := ExceptT DriverError Routine

namespace Driver

/-- Does an action as a routine of its own. -/
def act (x : Action) : Routine x.Answer :=
  .act x .done

/-- Does an action, which itself cannot fail. -/
def perform (x : Action) : Driver x.Answer :=
  ExceptT.lift (act x)

/-- Does an operation on registers, and fails if the bus does. -/
def register (op : RegisterOp) : Driver op.Answer := do
  match ← perform (.register op) with
  | .ok answer => return answer
  | .error fault => throw (.bus fault)

def read (a : Address) : Driver Byte :=
  register (.read a)

def write (a : Address) (v : Byte) : Driver Unit :=
  register (.write a v)

def readBlock (a : Address) (count : Nat) : Driver (Vector Byte count) :=
  register (.readBlock a count)

def update (a : Address) (mask value : Byte) : Driver Unit :=
  register (.update a mask value)

def sleep (d : Delay) : Driver Unit :=
  ExceptT.lift (.sleep d (.done ()))

/-- Looks at the record of the device. -/
def getCore : Driver Core :=
  perform .getCore

/-- Changes the record of the device. -/
def modifyCore (f : Core → Core) : Driver Unit := do
  perform (.setCore (f (← getCore)))

/-- Switches a rail and notes it. -/
def switch (r : Rail) (on : Bool) : Driver Unit := do
  if ← perform (.switch r on) then
    modifyCore fun c => { c with rails := c.rails.set on r }
  else
    throw (.rail r)

/-- Does a routine and forgets whether it failed. -/
def attempt (x : Driver Unit) : Driver Unit :=
  tryCatch x fun _ => pure ()

/-- Does a driver to its end: its result or its failure, and the system after it. -/
def exec {α : Type} (x : Driver α) (s : System) : Except DriverError α × System :=
  x.run.run s

section Exec

variable {α β : Type}

/-- A driver that only answers leaves the system as it is. -/
@[simp] theorem exec_pure (a : α) (s : System) : exec (pure a) s = (.ok a, s) := rfl

/-- So does one that only fails. -/
@[simp] theorem exec_throw (e : DriverError) (s : System) :
    exec (throw e : Driver α) s = (.error e, s) := rfl

/-- The second of two steps begins where the first ended, unless that failed. -/
theorem exec_bind (x : Driver α) (f : α → Driver β) (s : System) :
    exec (x >>= f) s =
      match exec x s with
      | (.ok a, t) => exec (f a) t
      | (.error e, t) => (.error e, t) := by
  rw [exec, ExceptT.run_bind, Routine.run_bind]
  rcases hx : x.run.run s with ⟨_ | a, t⟩
  · rw [show exec x s = _ from hx]
    rfl
  · rw [show exec x s = _ from hx]
    rfl

/-- A handler begins where the failure happened. -/
theorem exec_tryCatch (x : Driver α) (f : DriverError → Driver α) (s : System) :
    exec (tryCatch x f) s =
      match exec x s with
      | (.ok a, t) => (.ok a, t)
      | (.error e, t) => exec (f e) t := by
  rw [exec, ExceptT.run_tryCatch, Routine.run_bind]
  rcases hx : x.run.run s with ⟨_ | a, t⟩
  · rw [show exec x s = _ from hx]
    rfl
  · rw [show exec x s = _ from hx]
    rfl

/-- An action answers and leaves what it does by itself. -/
@[simp] theorem exec_perform (x : Action) (s : System) :
    exec (perform x) s = (.ok (x.perform s).1, (x.perform s).2) := rfl

/-- The record is what is looked at. -/
@[simp] theorem exec_getCore (s : System) : exec getCore s = (.ok s.core, s) := rfl

/-- A change of the record changes nothing else. -/
@[simp] theorem exec_modifyCore (f : Core → Core) (s : System) :
    exec (modifyCore f) s = (.ok (), { s with core := f s.core }) := rfl

/-- Nothing but the wait happens in a wait. -/
@[simp] theorem exec_sleep (d : Delay) (s : System) :
    exec (sleep d) s = (.ok (), Routine.wait d s) := rfl

/-- An operation on registers fails just when the bus does, and it leaves the record of the device
alone. -/
theorem exec_register (op : RegisterOp) (s : System) :
    exec (register op) s =
      match op.perform.exec s.bench with
      | (.ok answer, bench) => (.ok answer, { s with bench })
      | (.error fault, bench) => (.error (.bus fault), { s with bench }) := by
  rw [register, exec_bind, exec_perform, Action.perform]
  rcases op.perform.exec s.bench with ⟨_ | answer, bench⟩ <;> rfl

/-- A switch that succeeds is noted, and one that fails is not. -/
theorem exec_switch (r : Rail) (on : Bool) (s : System) :
    exec (switch r on) s =
      match s.bench.switch r on with
      | (true, bench) =>
        (.ok (), { s with bench, core := { s.core with rails := s.core.rails.set on r } })
      | (false, bench) => (.error (.rail r), { s with bench }) := by
  rw [switch, exec_bind, exec_perform, Action.perform]
  rcases s.bench.switch r on with ⟨_ | _, bench⟩ <;> rfl

/-- An attempt never fails. -/
theorem exec_attempt (x : Driver Unit) (s : System) :
    exec (attempt x) s = (.ok (), (exec x s).2) := by
  rw [attempt, exec_tryCatch]
  rcases exec x s with ⟨_ | _, t⟩ <;> rfl

end Exec

end Driver

end Inertial
