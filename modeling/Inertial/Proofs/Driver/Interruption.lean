import Inertial.Driver.Basic
import Inertial.Proofs.Bus.BankSelection

/-!
# What holds while a routine is interrupted

A routine is interrupted at its waits only, and since it holds the device lock, all that others can
change meanwhile is the inbox. `Routine.Upholds I Q x s` says that `I` holds whenever the routine
`x`, begun in the system `s`, is interrupted, whatever the inbox becomes meanwhile, and that `Q`
holds of its result and of the system when it is done.

The statements take `Upholds` apart along the text of a routine or a driver, one for each step that
drivers are made of. `Routine.upholds_run` and `Routine.upholds_advance` read off what it says of a
run to the end and of a stretch up to the next wait.
-/

set_option autoImplicit false

namespace Inertial

/-- The system with another inbox. -/
def System.withInbox (i : Inbox) (s : System) : System :=
  { s with bench := { s.bench with inbox := i } }

namespace Routine

variable {α β : Type}

/-- `I` holds whenever the routine is interrupted, and `Q` when it is done. -/
def Upholds (I : System → Prop) (Q : α → System → Prop) : Routine α → System → Prop
  | .done a, s => Q a s
  | .act x next, s => (next (x.perform s).1).Upholds I Q (x.perform s).2
  | .sleep d rest, s =>
    I (s.log (.delay d)) ∧ ∀ i, rest.Upholds I Q (((s.log (.delay d)).withInbox i).log .woke)

variable {I : System → Prop} {Q R : α → System → Prop}

/-- A routine that is done upholds what holds already. -/
@[simp] theorem upholds_pure (a : α) (s : System) : (pure a : Routine α).Upholds I Q s ↔ Q a s :=
  Iff.rfl

/-- One routine after another upholds what the second does from wherever the first ends. -/
theorem upholds_bind {P : β → System → Prop} (x : Routine α) (f : α → Routine β) (s : System) :
    (x >>= f).Upholds I P s ↔ x.Upholds I (fun a t => (f a).Upholds I P t) s := by
  induction x generalizing s with
  | done a => exact Iff.rfl
  | act x next ih => exact ih _ _
  | sleep d rest ih =>
    constructor
    · intro h
      exact ⟨h.1, fun i => (ih _).mp (h.2 i)⟩
    · intro h
      exact ⟨h.1, fun i => (ih _).mpr (h.2 i)⟩

/-- What is upheld may be weakened at the waits and at the end. -/
theorem Upholds.imp {J : System → Prop} {x : Routine α} {s : System} (h : x.Upholds I Q s)
    (hI : ∀ t, I t → J t) (hQ : ∀ a t, Q a t → R a t) : x.Upholds J R s := by
  induction x generalizing s with
  | done a => exact hQ a s h
  | act x next ih => exact ih _ h
  | sleep d rest ih => exact ⟨hI _ h.1, fun i => ih (h.2 i)⟩

/-- Less may be claimed of the end of a routine. -/
theorem Upholds.mono {x : Routine α} {s : System} (h : x.Upholds I Q s)
    (hQ : ∀ a t, Q a t → R a t) : x.Upholds I R s :=
  h.imp (fun _ ht => ht) hQ

/-- A run to the end, in which nothing happens during waits, ends with what is upheld. -/
theorem upholds_run {x : Routine α} {s : System} (h : x.Upholds I Q s) :
    Q (x.run s).1 (x.run s).2 := by
  induction x generalizing s with
  | done a => exact h
  | act x next ih => exact ih _ h
  | sleep d rest ih => exact ih (h.2 (s.log (.delay d)).bench.inbox)

/-- A stretch ends with what is upheld, or it ends at a wait, at which `I` holds and after which the
rest goes on to uphold. -/
theorem upholds_advance {x : Routine α} {s : System} (h : x.Upholds I Q s) :
    match x.advance s with
    | (.done a, t) => Q a t
    | (.asleep rest, t) => I t ∧ ∀ i, rest.Upholds I Q ((t.withInbox i).log .woke) := by
  induction x generalizing s with
  | done a => exact h
  | act x next ih => exact ih _ h
  | sleep d rest ih => exact h

/-- The lock is not touched by what is done under it. -/
theorem advance_locked (x : Routine α) (s : System) :
    (x.advance s).2.locked = s.locked := by
  induction x generalizing s with
  | done a => rfl
  | act x next ih =>
    have hx : (x.perform s).2.locked = s.locked := by
      cases x <;> rfl
    exact (ih _ _).trans hx
  | sleep d rest ih => rfl

end Routine

namespace Driver

variable {α β : Type}

/-- `I` holds whenever the driver is interrupted, and `Q` when it is done or has failed. -/
def Upholds (I : System → Prop) (Q : Except DriverError α → System → Prop) (x : Driver α)
    (s : System) : Prop :=
  Routine.Upholds I Q x.run s

variable {I : System → Prop} {Q R : Except DriverError α → System → Prop}

/-- Less may be claimed of the end of a driver. -/
theorem Upholds.mono {x : Driver α} {s : System} (h : x.Upholds I Q s)
    (hQ : ∀ a t, Q a t → R a t) : x.Upholds I R s :=
  Routine.Upholds.mono h hQ

/-- What is upheld with interruptions holds without any. -/
theorem upholds_exec {x : Driver α} {s : System} (h : x.Upholds I Q s) :
    Q (exec x s).1 (exec x s).2 :=
  Routine.upholds_run h

/-- A driver that only answers upholds what holds already. -/
@[simp] theorem upholds_pure (a : α) (s : System) :
    Upholds I Q (pure a) s ↔ Q (.ok a) s := Iff.rfl

/-- The second of two steps goes on from where the first ended, unless that failed. -/
theorem upholds_bind {P : Except DriverError β → System → Prop} (x : Driver α)
    (f : α → Driver β) (s : System) :
    Upholds I P (x >>= f) s ↔
      x.Upholds I (fun r t =>
        match r with
        | .ok a => (f a).Upholds I P t
        | .error e => P (.error e) t) s := by
  unfold Upholds
  rw [ExceptT.run_bind, Routine.upholds_bind]
  constructor
  · intro h
    refine Routine.Upholds.mono h ?_
    intro r t hr
    cases r <;> exact hr
  · intro h
    refine Routine.Upholds.mono h ?_
    intro r t hr
    cases r <;> exact hr

/-- A single action cannot be interrupted. -/
@[simp] theorem upholds_perform {x : Action} {Q : Except DriverError x.Answer → System → Prop}
    (s : System) : Upholds I Q (perform x) s ↔ Q (.ok (x.perform s).1) (x.perform s).2 := Iff.rfl

/-- Nor can a look at the record. -/
@[simp] theorem upholds_getCore {Q : Except DriverError Core → System → Prop} (s : System) :
    Upholds I Q getCore s ↔ Q (.ok s.core) s := Iff.rfl

/-- Nor can a change of it. -/
@[simp] theorem upholds_modifyCore {Q : Except DriverError Unit → System → Prop}
    (f : Core → Core) (s : System) :
    Upholds I Q (modifyCore f) s ↔ Q (.ok ()) { s with core := f s.core } := Iff.rfl

/-- At a wait `I` has to hold, and the inbox may be any when it is over. -/
@[simp] theorem upholds_sleep {Q : Except DriverError Unit → System → Prop} (d : Delay)
    (s : System) :
    Upholds I Q (sleep d) s ↔
      I (s.log (.delay d)) ∧ ∀ i, Q (.ok ()) (((s.log (.delay d)).withInbox i).log .woke) := Iff.rfl

/-- A switch either happens and is noted or does neither. -/
theorem upholds_switch {Q : Except DriverError Unit → System → Prop} (r : Rail) (on : Bool)
    (s : System) :
    Upholds I Q (switch r on) s ↔
      match s.bench.switch r on with
      | (true, bench) => Q (.ok ())
          { s with bench, core := { s.core with rails := s.core.rails.set on r } }
      | (false, bench) => Q (.error (.rail r)) { s with bench } := by
  unfold switch
  rw [upholds_bind, upholds_perform, Action.perform]
  rcases s.bench.switch r on with ⟨_ | _, bench⟩ <;> exact Iff.rfl

/-- An operation on registers is done as on plain memory, or it fails and changes no register. -/
theorem upholds_register {op : RegisterOp} {Q : Except DriverError op.Answer → System → Prop}
    {s : System} (hin : s.bench.InStep) (hop : op.IsRegular)
    (hok : ∀ bench events,
      op.Refines s.bench (.ok (op.onMemory s.bench.chip.memory).1) bench events →
      Q (.ok (op.onMemory s.bench.chip.memory).1) { s with bench })
    (hfail : ∀ fault bench events, op.Refines s.bench (.error fault) bench events →
      Q (.error (.bus fault)) { s with bench }) :
    Upholds I Q (register op) s := by
  obtain ⟨events, h⟩ := RegisterOp.refines_of_inStep hin hop
  unfold register
  rw [upholds_bind, upholds_perform, Action.perform]
  rcases hx : op.perform.exec s.bench with ⟨fault | answer, bench⟩
  · rw [hx] at h
    exact hfail fault bench events h
  · rw [hx] at h
    obtain ⟨_, _, hanswer, _⟩ := h.of_ok answer rfl
    subst hanswer
    exact hok bench events h

end Driver

end Inertial
