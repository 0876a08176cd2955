import Inertial.Driver.Action

/-!
# What the lock holder does

A routine is what a task does while it holds the device lock: it acts and it waits. Nothing but a
wait interrupts a routine, so a routine is a tree whose nodes are actions and waits and whose
branches are the answers an action may get.

`Routine.run` does a routine to its end, and `Routine.advance` does it up to the next wait. The
statements say how a run goes through sequencing and that it is made of stretches between waits.
-/

set_option autoImplicit false

namespace Inertial

/-- What the lock holder does until it is done with a result. -/
inductive Routine (α : Type) : Type where
  | done (a : α)
  | act (x : Action) (next : x.Answer → Routine α)
  | sleep (d : Delay) (rest : Routine α)

namespace Routine

variable {α β γ : Type}

/-- One routine after another. -/
def bind : Routine α → (α → Routine β) → Routine β
  | .done a, f => f a
  | .act x next, f => .act x fun b => (next b).bind f
  | .sleep d rest, f => .sleep d (rest.bind f)

instance : Monad Routine where
  pure := .done
  bind := bind

/-- What follows nothing is done at once. -/
@[simp] theorem pure_bind' (a : α) (f : α → Routine β) : (pure a >>= f) = f a := rfl

/-- What follows an action follows each of its answers. -/
@[simp] theorem act_bind (x : Action) (next : x.Answer → Routine α) (f : α → Routine β) :
    (act x next >>= f) = act x fun b => next b >>= f := rfl

/-- What follows a wait is done after it. -/
@[simp] theorem sleep_bind (d : Delay) (rest : Routine α) (f : α → Routine β) :
    (sleep d rest >>= f) = sleep d (rest >>= f) := rfl

/-- A result that is left as it is leaves the routine as it is. -/
theorem map_id_eq (x : Routine α) : id <$> x = x := by
  induction x with
  | done a => rfl
  | act x next ih => exact congrArg (act x) (funext ih)
  | sleep d rest ih => exact congrArg (sleep d) ih

/-- Three routines in a row may be put together from either side. -/
theorem bind_assoc_eq (x : Routine α) (f : α → Routine β) (g : β → Routine γ) :
    x >>= f >>= g = x >>= fun a => f a >>= g := by
  induction x with
  | done a => rfl
  | act x next ih => exact congrArg (act x) (funext ih)
  | sleep d rest ih => exact congrArg (sleep d) ih

instance : LawfulMonad Routine :=
  LawfulMonad.mk' Routine map_id_eq (fun _ _ => rfl) bind_assoc_eq

/-- A wait from its beginning to its end. -/
def wait (d : Delay) (s : System) : System :=
  (s.log (.delay d)).log .woke

/-- Does a routine to its end. -/
def run : Routine α → System → α × System
  | .done a, s => (a, s)
  | .act x next, s =>
    let (b, s) := x.perform s
    (next b).run s
  | .sleep d rest, s => rest.run (wait d s)

/-- Where a routine stands after a stretch without interruption. -/
inductive Halt (α : Type) : Type where
  | done (a : α)
  /-- A wait has begun, and this follows it. -/
  | asleep (rest : Routine α)

/-- Does a routine up to the beginning of its next wait. -/
def advance : Routine α → System → Halt α × System
  | .done a, s => (.done a, s)
  | .act x next, s =>
    let (b, s) := x.perform s
    (next b).advance s
  | .sleep d rest, s => (.asleep rest, s.log (.delay d))

/-- A routine that is done changes nothing. -/
@[simp] theorem run_pure (a : α) (s : System) : (pure a : Routine α).run s = (a, s) := rfl

/-- Running one routine after another runs the second from where the first ended. -/
@[simp] theorem run_bind (x : Routine α) (f : α → Routine β) (s : System) :
    (x >>= f).run s = (f (x.run s).1).run (x.run s).2 := by
  induction x generalizing s with
  | done a => rfl
  | act x next ih => exact ih _ _
  | sleep d rest ih => exact ih _

/-- A run is a stretch up to the first wait and, after that wait, a run of what is left. -/
theorem run_eq_advance (x : Routine α) (s : System) :
    x.run s =
      match x.advance s with
      | (.done a, t) => (a, t)
      | (.asleep rest, t) => rest.run (t.log .woke) := by
  induction x generalizing s with
  | done a => rfl
  | act x next ih => exact ih _ _
  | sleep d rest ih => rfl

end Routine

end Inertial
