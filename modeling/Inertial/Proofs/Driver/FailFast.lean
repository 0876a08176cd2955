import Inertial.Proofs.Bus.FirstBank
import Inertial.Proofs.Driver.Composition
import Inertial.Proofs.Driver.Outcome

/-!
# Stopping at the first failure

An action that fails says with what (`Action.failure?`). A routine fails fast if it stops with that
failure at once, whatever the actions before it answered (`Routine.FailsFast`). It also says which
actions the routine may take, and with what it may fail on its own account.

That is a property of the text of a routine: it mentions neither runs nor systems. It is shown of
the steps that drivers are composed of, and so all drivers fail fast but those that go on after a
failure. Operations never fail on their own account (`Driver.Composed.failsFast`).
-/

set_option autoImplicit false

namespace Inertial

/-- What an action fails with, if it does. -/
def Action.failure? (x : Action) (answer : x.Answer) : Option DriverError :=
  match x, answer with
  | .register _, .error fault => some (.bus fault)
  | .switch r _, false => some (.rail r)
  | _, _ => none

/-! ## Kinds of actions -/

namespace Action

/-- Accesses a register of the first bank once, or has to do with the record of the device. -/
def IsLocal : Action → Prop
  | .register op => op.IsPlain ∧ op.isSingle = true
  | .getCore | .setCore _ => True
  | .switch .. | .push _ | .raise _ => False

/-- Is local or switches the supply of the interface. -/
def IsOperational (x : Action) : Prop :=
  x.IsLocal ∨ ∃ on, x = .switch .vddio on

/-- Accesses no registers but those of the first bank. -/
def IsPlain : Action → Prop
  | .register op => op.IsPlain
  | _ => True

/-- What stays in the first bank and writes no selector is plain. -/
theorem IsLocal.isPlain {x : Action} (hx : x.IsLocal) : x.IsPlain := by
  cases x with
  | register op => exact hx.1
  | _ => trivial

/-- So is all that an operation does. -/
theorem IsOperational.isPlain {x : Action} (hx : x.IsOperational) : x.IsPlain := by
  rcases hx with hx | ⟨on, rfl⟩
  · exact hx.isPlain
  · trivial

end Action

/-! ## Routines -/

/-- Whoever does the routine takes only actions of which `A` holds, stops with the failure of the
first of them that fails, and otherwise fails only with what `E` holds of. -/
def Routine.FailsFast {α : Type} (A : Action → Prop) (E : DriverError → Prop) :
    Routine (Except DriverError α) → Prop
  | .done r => ∀ e, r = .error e → E e
  | .act x next => A x ∧ ∀ answer,
    match x.failure? answer with
    | some e => next answer = .done (.error e)
    | none => (next answer).FailsFast A E
  | .sleep _ rest => rest.FailsFast A E

/-- The driver fails fast. -/
def Driver.FailsFast {α : Type} (A : Action → Prop) (E : DriverError → Prop) (x : Driver α) :
    Prop :=
  x.run.FailsFast A E

namespace Driver

variable {α β : Type} {A B : Action → Prop} {E : DriverError → Prop}

/-- More kinds of actions may be allowed. -/
theorem FailsFast.mono {x : Driver α} (hx : x.FailsFast A E) (h : ∀ y, A y → B y) :
    x.FailsFast B E := by
  have htree : ∀ y : Routine (Except DriverError α), y.FailsFast A E → y.FailsFast B E := by
    intro y hy
    induction y with
    | done r => exact hy
    | act z next ih =>
      refine ⟨h z hy.1, fun answer => ?_⟩
      have hnext := hy.2 answer
      split
      · rename_i e he
        rw [he] at hnext
        exact hnext
      · rename_i hnone
        rw [hnone] at hnext
        exact ih answer hnext
    | sleep d rest ih => exact ih hy
  exact htree x.run hx

/-- What only answers does not fail. -/
theorem failsFast_pure (a : α) : FailsFast A E (pure a : Driver α) :=
  fun _ he => nomatch he

/-- A failure that is expected may end a driver. -/
theorem failsFast_throw {e : DriverError} (he : E e) : FailsFast A E (throw e : Driver α) := by
  intro e' h
  cases h
  exact he

/-- If the first of two drivers fails the second is not begun. -/
theorem FailsFast.bind {x : Driver α} {f : α → Driver β} (hx : x.FailsFast A E)
    (hf : ∀ a, (f a).FailsFast A E) : (x >>= f).FailsFast A E := by
  have htree : ∀ y : Routine (Except DriverError α), y.FailsFast A E →
      Routine.FailsFast A E (y >>= ExceptT.bindCont f) := by
    intro y hy
    induction y with
    | done r =>
      cases r with
      | ok a => exact hf a
      | error e =>
        intro e' he
        cases he
        exact hy e rfl
    | act z next ih =>
      refine ⟨hy.1, fun answer => ?_⟩
      have hnext := hy.2 answer
      split
      · rename_i e he
        rw [he] at hnext
        dsimp only at hnext ⊢
        rw [hnext]
        rfl
      · rename_i hnone
        rw [hnone] at hnext
        exact ih answer hnext
    | sleep d rest ih => exact ih hy
  exact htree x.run hx

/-- A look at the record cannot fail. -/
theorem failsFast_getCore (hA : A .getCore) : FailsFast A E getCore :=
  ⟨hA, fun _ _ he => nomatch he⟩

/-- A change of the record cannot fail. -/
theorem failsFast_modifyCore (hA : ∀ core, A (.setCore core)) (hget : A .getCore)
    (f : Core → Core) : FailsFast A E (modifyCore f) :=
  ⟨hget, fun core => ⟨hA (f core), fun _ _ he => nomatch he⟩⟩

/-- A wait cannot fail. -/
theorem failsFast_sleep (d : Delay) : FailsFast A E (sleep d) :=
  fun _ he => nomatch he

/-- An operation on a register that fails is the end. -/
theorem failsFast_register {op : RegisterOp} (hA : A (.register op)) :
    FailsFast A E (register op) := by
  refine ⟨hA, fun answer => ?_⟩
  cases answer with
  | error fault => rfl
  | ok a => exact fun _ he => nomatch he

/-- So is a switch that fails; one that succeeds is noted. -/
theorem failsFast_switch {r : Rail} {on : Bool} (hA : A (.switch r on))
    (hset : ∀ core, A (.setCore core)) (hget : A .getCore) : FailsFast A E (switch r on) := by
  refine ⟨hA, fun answer => ?_⟩
  cases answer with
  | false => rfl
  | true => exact failsFast_modifyCore hset hget _

/-! ## Steps -/

/-- A look at the record is a local action. -/
theorem failsFast_look : FailsFast Action.IsLocal E getCore :=
  failsFast_getCore trivial

/-- A note in the record is made of local actions. -/
theorem failsFast_note (f : Core → Core) : FailsFast Action.IsLocal E (modifyCore f) :=
  failsFast_modifyCore (fun _ => trivial) trivial f

/-- Writing a register of the first bank is a local action. -/
theorem failsFast_write {offset : Byte} (h : offset < 0x80) (hselect : offset ≠ Register.bankSelect)
    (v : Byte) :
    FailsFast Action.IsLocal E (write (Register.address Register.bank0 offset) v) := by
  have hbank : Register.bankOf (Register.address Register.bank0 offset) = Register.bank0 := by
    rw [Register.bankOf_address]
    decide
  exact failsFast_register ⟨⟨Register.isRegular_write_bank0 h hselect v, hbank⟩, rfl⟩

/-- Reading a register of the first bank is a local action. -/
theorem failsFast_read {offset : Byte} (h : offset < 0x80) :
    FailsFast Action.IsLocal E (read (Register.address Register.bank0 offset)) := by
  have hbank : Register.bankOf (Register.address Register.bank0 offset) = Register.bank0 := by
    rw [Register.bankOf_address]
    decide
  have hregular : (RegisterOp.read (Register.address Register.bank0 offset)).IsRegular :=
    Register.isReachable_bank0 h
  exact failsFast_register ⟨⟨hregular, hbank⟩, rfl⟩

/-- Reading the data ends with the first access that fails. -/
theorem failsFast_readData : FailsFast Action.IsLocal E readData := by
  refine (failsFast_read (by decide)).bind fun status => ?_
  split
  · exact failsFast_pure none
  · have hregular : (RegisterOp.readBlock Register.accelData RawBlock.size).IsRegular :=
      ⟨Register.isReachable_bank0 (by decide), by decide⟩
    exact (failsFast_register ⟨⟨hregular, by decide⟩, rfl⟩).bind fun _ => failsFast_pure _

/-- A local driver is operational. -/
theorem FailsFast.operational {x : Driver α} (hx : x.FailsFast Action.IsLocal E) :
    x.FailsFast Action.IsOperational E :=
  hx.mono fun _ => Or.inl

/-- An operational driver accesses the first bank only. -/
theorem FailsFast.plain {x : Driver α} (hx : x.FailsFast Action.IsOperational E) :
    x.FailsFast Action.IsPlain E :=
  hx.mono fun _ h => h.isPlain

/-! ## From steps to drivers -/

/-- What fails fast step by step fails fast. -/
theorem sequential_failsFast : Sequential fun _ x => FailsFast A E x where
  pure := failsFast_pure
  bind := FailsFast.bind

/-- Writing a configuration register and recording it stops if the write fails. -/
theorem failsFast_store (r : ConfigRegister) (config : DeviceConfig) :
    FailsFast Action.IsLocal E (store r config) := by
  refine FailsFast.bind ?_ fun _ => failsFast_note _
  cases r <;> exact failsFast_write (by decide) (by decide) _

/-- The smallest steps of operations stop at their first failure. -/
theorem OperationStep.failsFast {n : Nat} {K : Core → Prop} {x : Driver Unit}
    (hx : OperationStep n K x) : FailsFast Action.IsOperational E x := by
  cases hx with
  | tuning hx =>
    cases hx with
    | store r config => exact (failsFast_store r config).operational
    | sleep d => exact failsFast_sleep d
  | setFifo stream => exact (failsFast_write (by decide) (by decide) _).operational
  | switch on =>
    exact failsFast_switch (Or.inr ⟨on, rfl⟩) (fun _ => Or.inl trivial) (Or.inl trivial)
  | note _ => exact (failsFast_note _).operational

/-- Operations stop at their first failure, and they never fail on their own account. -/
theorem Composed.failsFast {n : Nat} {K : Core → Prop} {x : Driver α}
    (hx : Composed OperationStep Answers n K x) : FailsFast Action.IsOperational E x :=
  hx.holds sequential_failsFast failsFast_look.operational OperationStep.failsFast

/-- A check stops at its read or fails as it says. -/
theorem failsFast_check {offset : Byte} (h : offset < 0x80) {fails : Byte → Prop}
    [DecidablePred fails] {error : Byte → DriverError} (hE : ∀ v, E (error v)) :
    FailsFast Action.IsPlain E (check (Register.address Register.bank0 offset) fails error) := by
  refine (failsFast_read h).operational.plain.bind fun found => ?_
  split
  · exact failsFast_throw (hE found)
  · exact failsFast_pure ()

/-- The steps of a set-up stop at their first failure. On their own account only checks fail. -/
theorem SetUpStep.failsFast {chip : Chip} (hE : ∀ e : DriverError, e.isBus = false → E e)
    {x : Driver Unit} (hx : SetUpStep chip x) : FailsFast Action.IsPlain E x := by
  cases hx with
  | write ha hbank v =>
    exact failsFast_register ⟨⟨ha.isReachable, ha.not_bankSelect⟩, hbank⟩
  | update ha hbank mask value =>
    exact failsFast_register ⟨⟨ha.isReachable, ha.not_bankSelect⟩, hbank⟩
  | sleep d => exact failsFast_sleep d
  | identify => exact failsFast_check (by decide) fun _ => hE _ rfl
  | confirm => exact failsFast_check (by decide) fun _ => hE _ rfl
  | record config => exact (failsFast_note _).operational.plain

/-- Up to its clean-up a power-up fails fast, and on its own account not as the bus does. -/
theorem failsFast_supplyAndSetUp (hE : ∀ e : DriverError, e.isBus = false → E e) (chip : Chip)
    (interrupt : PinSetup) : FailsFast Action.IsPlain E (supplyAndSetUp chip interrupt) := by
  refine (straight_supplyAndSetUp chip interrupt).holds sequential_failsFast ?_
  intro x hx
  cases hx with
  | setUp hx => exact hx.failsFast hE
  | switch r => exact failsFast_switch trivial (fun _ => trivial) trivial
  | activate => exact (failsFast_note _).operational.plain

end Driver

/-- An operation reports a driver that stops at its first failure. -/
theorem Operation.Reports.failsFast {α : Type} {op : Operation} {x : Driver α} {f : α → Reply}
    (hop : op.Reports x f) : x.FailsFast Action.IsOperational fun _ => False :=
  hop.composed.failsFast

end Inertial
