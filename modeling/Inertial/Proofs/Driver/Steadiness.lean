import Inertial.Proofs.Bus.Steadiness
import Inertial.Proofs.Driver.Composition
import Inertial.Proofs.Driver.Interruption

/-!
# What no driver can leave

Drivers are made of a few steps: they access registers of the first bank, switch a rail and note it,
wait, hand out a sample and change their record. A property of systems that each of these steps
keeps is steady (`System.IsSteady`). A driver that is begun where a steady property holds has it
hold at each of its waits and at its end, whatever fails on the way (`Driver.Stays`).

That goes for every driver and every operation (`Operation.stays_body`), so a property that all of
them keep needs to be looked at step by step only.
-/

set_option autoImplicit false

namespace Inertial

/-- Whether an event is neither an access nor a switch. -/
def Event.isIdle : Event → Bool
  | .access .. | .switch .. => false
  | .delay _ | .woke | .push _ => true

/-- No step of a driver leaves the systems in which `I` holds. -/
structure System.IsSteady (I : System → Prop) : Prop where
  bench : ∀ s : System, Bench.IsSteady Register.bank0 fun bench => I { s with bench }
  /-- A switch is noted in the record if it succeeded. -/
  switch : ∀ (s : System) (r : Rail) (on : Bool), I s → I ((Driver.switch r on).exec s).2
  log : ∀ (s : System) (e : Event), e.isIdle = true → I s → I (s.log e)
  record : ∀ (s : System) (core : Core), core.rails = s.core.rails → I s → I { s with core }
  /-- What others can do while somebody has the lock, and taking it and giving it back. -/
  around : ∀ (s : System) (i : Inbox) (locked : Bool), I s → I { s.withInbox i with locked }

/-- A steady property does not look at the inbox. -/
theorem System.IsSteady.withInbox {I : System → Prop} (hI : System.IsSteady I) (s : System)
    (i : Inbox) (hs : I s) : I (s.withInbox i) :=
  hI.around s i s.locked hs

/-- Begun where `I` holds, the routine has it hold at every wait and at its end. -/
def Routine.Stays {α : Type} (I : System → Prop) (x : Routine α) : Prop :=
  ∀ s : System, I s → x.Upholds I (fun _ t => I t) s

namespace Routine

variable {α β : Type} {I : System → Prop}

/-- Doing nothing keeps every property. -/
theorem stays_pure (a : α) : (pure a : Routine α).Stays I :=
  fun _ hs => hs

/-- A property that both parts keep is kept by one after the other. -/
theorem Stays.bind {x : Routine α} {f : α → Routine β} (hx : x.Stays I)
    (hf : ∀ a, (f a).Stays I) : (x >>= f).Stays I := by
  intro s hs
  rw [upholds_bind]
  exact (hx s hs).mono fun a t ht => hf a t ht

end Routine

namespace Driver

variable {α β : Type} {I : System → Prop}

/-- Begun where `I` holds, the driver has it hold at every wait and at its end. -/
def Stays (I : System → Prop) (x : Driver α) : Prop :=
  ∀ s : System, I s → x.Upholds I (fun _ t => I t) s

/-! ## Steps -/

/-- A driver that only answers keeps every property. -/
theorem stays_pure (a : α) : Stays I (pure a : Driver α) :=
  fun _ hs => hs

/-- A driver that only fails keeps every property. -/
theorem stays_throw (e : DriverError) : Stays I (throw e : Driver α) :=
  fun _ hs => hs

/-- The same for drivers, where the second part may not be reached. -/
theorem Stays.bind {x : Driver α} {f : α → Driver β} (hx : Stays I x) (hf : ∀ a, Stays I (f a)) :
    Stays I (x >>= f) := by
  intro s hs
  rw [upholds_bind]
  refine (hx s hs).mono ?_
  intro r t ht
  cases r with
  | error e => exact ht
  | ok a => exact hf a t ht

/-- A handler stays where the failure left off. -/
theorem Stays.tryCatch {x : Driver α} {f : DriverError → Driver α} (hx : Stays I x)
    (hf : ∀ e, Stays I (f e)) : Stays I (tryCatch x f) := by
  intro s hs
  unfold Upholds
  rw [ExceptT.run_tryCatch, Routine.upholds_bind]
  refine Routine.Upholds.mono (hx s hs) ?_
  intro r t ht
  cases r with
  | ok a => exact ht
  | error e => exact hf e t ht

/-- Holding a fault back keeps what the driver itself keeps. -/
theorem Stays.attempt {x : Driver Unit} (hx : Stays I x) : Stays I (attempt x) :=
  hx.tryCatch fun _ => stays_pure ()

/-- Looking at the record changes nothing. -/
theorem stays_getCore : Stays I getCore :=
  fun _ hs => hs

variable (hI : System.IsSteady I)
include hI

/-- The record may be changed in everything but its rails. -/
theorem stays_modifyCore {f : Core → Core} (hf : ∀ core, (f core).rails = core.rails) :
    Stays I (modifyCore f) := by
  intro s hs
  rw [upholds_modifyCore]
  exact hI.record s _ (hf s.core) hs

/-- A wait logs only that it begins and ends. -/
theorem stays_sleep (d : Delay) : Stays I (sleep d) := by
  intro s hs
  rw [upholds_sleep]
  have hdelay : I (s.log (.delay d)) := hI.log s _ rfl hs
  exact ⟨hdelay, fun i => hI.log _ _ rfl (hI.withInbox _ i hdelay)⟩

/-- A steady property survives an attempt to switch a rail. -/
theorem stays_switch (r : Rail) (on : Bool) : Stays I (switch r on) := by
  intro s hs
  have hswitch := hI.switch s r on hs
  rw [exec_switch] at hswitch
  rw [upholds_switch]
  rcases hx : s.bench.switch r on with ⟨_ | _, bench⟩ <;>
    · rw [hx] at hswitch
      exact hswitch

/-- A steady property survives an operation on a register of the first bank. -/
theorem stays_register (op : RegisterOp) (hop : Register.bankOf op.address = Register.bank0) :
    Stays I (register op) := by
  intro s hs
  have hregister := op.stays_perform (hI.bench s) hop s.bench hs
  unfold register
  rw [upholds_bind, upholds_perform, Action.perform]
  rcases hx : op.perform.exec s.bench with ⟨_ | _, bench⟩ <;>
    · rw [hx] at hregister
      exact hregister

/-! ## From steps to drivers -/

omit hI in
/-- What stays step by step stays. -/
theorem sequential_stays : Sequential fun _ x => Stays I x where
  pure := stays_pure
  bind := Stays.bind

/-- Setting up the FIFO touches one register and no rail. -/
theorem stays_setFifo (stream : Bool) : Stays I (setFifo stream) :=
  stays_register hI (.write Register.fifoConfig _)
    (show Register.bankOf Register.fifoConfig = _ by decide)

/-- No step of an operation leaves a steady property. -/
theorem OperationStep.stays {n : Nat} {K : Core → Prop} {x : Driver Unit}
    (hx : OperationStep n K x) : Stays I x := by
  cases hx with
  | tuning hx =>
    cases hx with
    | store r config =>
      exact (stays_register hI (.write r.address _) r.bankOf_address).bind fun _ =>
        stays_modifyCore hI (by intro core; rfl)
    | sleep d => exact stays_sleep hI d
  | setFifo stream => exact stays_setFifo hI stream
  | switch on => exact stays_switch hI .vddio on
  | note hf => exact stays_modifyCore hI hf

/-- No driver of an operation leaves a steady property. -/
theorem Composed.stays {n : Nat} {K : Core → Prop} {x : Driver α}
    (hx : Composed OperationStep Answers n K x) : Stays I x :=
  hx.holds sequential_stays stays_getCore (OperationStep.stays hI)

/-- No step of a shutdown leaves a steady property, nor does an attempt that fails. -/
theorem EndStep.stays {n : Nat} {K : Core → Prop} {x : Driver Unit} (hx : EndStep n K x) :
    Stays I x := by
  cases hx with
  | setPowerAndWait p =>
    have hpower : Composed OperationStep Answers 2 (fun _ => True) (Driver.setPowerAndWait p) :=
      (composed_setPowerAndWait p).tuning.operation
    exact (hpower.stays hI).attempt
  | switch r => exact (stays_switch hI r false).attempt
  | runtime f => exact stays_modifyCore hI (by intro core; rfl)

/-- Rails are released as the record says that they are on. -/
theorem stays_releaseRails : Stays I releaseRails := by
  have hrails : Composed EndStep Answers 0 (fun _ => True) releaseRails := composed_releaseRails
  exact hrails.holds sequential_stays stays_getCore (EndStep.stays hI)

/-- Undoing a power-up is one step after the other of the kind above. -/
theorem stays_shutdown : Stays I shutdown := by
  have hshutdown : Composed EndStep Answers 2 (fun _ => True) shutdown := composed_shutdown
  exact hshutdown.holds sequential_stays stays_getCore (EndStep.stays hI)

omit hI in
/-- A check does nothing but read. -/
theorem stays_check (hI : System.IsSteady I) {a : Address}
    (ha : Register.bankOf a = Register.bank0) (fails : Byte → Prop) [DecidablePred fails]
    (error : Byte → DriverError) : Stays I (check a fails error) := by
  refine (stays_register hI (.read a) ha).bind fun found => ?_
  split
  · exact stays_throw _
  · exact stays_pure ()

/-- No step of a set-up leaves a steady property. -/
theorem SetUpStep.stays {chip : Chip} {x : Driver Unit} (hx : SetUpStep chip x) : Stays I x := by
  cases hx with
  | write _ hbank v => exact stays_register hI (.write _ v) hbank
  | update _ hbank mask value => exact stays_register hI (.update _ mask value) hbank
  | sleep d => exact stays_sleep hI d
  | identify => exact stays_check hI rfl _ _
  | confirm => exact stays_check hI rfl _ _
  | record config => exact stays_modifyCore hI (by intro core; rfl)

/-- No step of a power-up leaves a steady property. -/
theorem StartStep.stays {chip : Chip} {x : Driver Unit} (hx : StartStep chip x) : Stays I x := by
  cases hx with
  | setUp hx => exact hx.stays hI
  | switch r => exact stays_switch hI r true
  | activate => exact stays_modifyCore hI (by intro core; rfl)

/-- Supplying the chip and setting it up keeps what is steady. -/
theorem stays_supplyAndSetUp (chip : Chip) (interrupt : PinSetup) :
    Stays I (supplyAndSetUp chip interrupt) :=
  (straight_supplyAndSetUp chip interrupt).holds sequential_stays (StartStep.stays hI)

/-- A power-up undoes what it did by steps of a shutdown. -/
theorem stays_powerUp (chip : Chip) (interrupt : PinSetup) : Stays I (powerUp chip interrupt) :=
  (stays_supplyAndSetUp hI chip interrupt).tryCatch fun e =>
    (stays_releaseRails hI).bind fun _ => stays_throw e

/-! ## Samples -/

/-- Reading the data is two operations of the first bank. -/
theorem stays_readData : Stays I readData := by
  refine (stays_register hI (.read Register.intStatus) rfl).bind fun status => ?_
  split
  · exact stays_pure none
  · exact (stays_register hI (.readBlock Register.accelData _) rfl).bind fun _ =>
      stays_pure _

/-- The edges that a sink causes change the inbox only. -/
theorem stays_raise (edges : List Int64) :
    (edges.forM fun now => act (.raise now)).Stays I := by
  induction edges with
  | nil => exact Routine.stays_pure ()
  | cons now edges ih =>
    have hnow : (act (.raise now)).Stays I := fun s => hI.withInbox s (s.bench.inbox.raise now)
    exact hnow.bind fun _ => ih

/-- Taking a sample keeps what is steady, also if edges come from the sink. -/
theorem stays_takeSample {σ : Type} [Sink σ] (time : Int64) (sink : σ) :
    (takeSample time sink).Stays I := by
  have hdata : readData.run.Stays I := stays_readData hI
  refine hdata.bind fun r => ?_
  rcases r with e | _ | raw
  · exact Routine.stays_pure _
  · exact Routine.stays_pure _
  · dsimp only
    split
    · have hpush : (act (.push (.ofRaw raw time))).Stays I := fun s => hI.log s _ rfl
      refine hpush.bind fun _ => ?_
      exact (stays_raise hI _).bind fun _ => Routine.stays_pure _
    · exact Routine.stays_pure _

end Driver

/-! ## Calls -/

namespace Operation

variable {α : Type} {I : System → Prop}

/-- How a result is reported does not matter. -/
theorem stays_reply {x : Driver α} (hx : x.Stays I) (f : α → Reply) : (reply x f).Stays I := by
  have hrun : x.run.Stays I := hx
  refine hrun.bind fun r => ?_
  cases r <;> exact Routine.stays_pure _

variable (hI : System.IsSteady I)
include hI

/-- Every operation keeps every steady property. -/
theorem stays_body (op : Operation) : op.body.Stays I := by
  obtain ⟨α, x, f, hop⟩ := op.exists_reports
  rw [hop.body]
  exact stays_reply (hop.composed.stays hI) f

end Operation

/-! ## The first bank -/

/-- Which bank a serial bus has selected is steady. -/
theorem System.isSteady_atFirstBank : IsSteady fun s => s.bench.AtFirstBank where
  bench := fun _ => Bench.isSteady_atFirstBank
  switch := by
    intro s r on hs
    rw [Driver.exec_switch]
    rcases hx : s.bench.switch r on with ⟨ok, bench⟩
    have hbus : bench.bus = s.bench.bus := by
      obtain ⟨_, rfl⟩ := Prod.mk.inj hx
      rfl
    have hbench : bench.AtFirstBank := by
      unfold Bench.AtFirstBank
      rw [hbus]
      exact hs
    cases ok <;> exact hbench
  log := fun _ _ _ h => h
  record := fun _ _ _ h => h
  around := fun _ _ _ h => h

namespace Driver

/-- Two steps succeed only if both do. -/
theorem exec_bind_eq_ok {α β : Type} {x : Driver α} {f : α → Driver β} {s t : System} {b : β}
    (h : exec (x >>= f) s = (.ok b, t)) :
    ∃ a u, exec x s = (.ok a, u) ∧ exec (f a) u = (.ok b, t) := by
  rw [exec_bind] at h
  rcases hx : exec x s with ⟨e | a, u⟩
  · rw [hx] at h
    cases h
  · rw [hx] at h
    exact ⟨a, u, rfl, h⟩

/-- A chip that was identified is reached in its first bank. -/
theorem atFirstBank_of_exec_identify {chip : Chip} {s t : System}
    (h : exec (identify chip) s = (.ok (), t)) : t.bench.AtFirstBank := by
  obtain ⟨found, u, hread, hcheck⟩ := exec_bind_eq_ok h
  have hu : u.bench.AtFirstBank := by
    rw [read, exec_register, RegisterOp.perform] at hread
    rcases hx : (Bus.read Register.whoAmI).exec s.bench with ⟨_ | v, bench⟩
    · rw [hx] at hread
      cases hread
    · rw [hx] at hread
      cases hread
      exact Bus.atFirstBank_of_exec_read (by decide) hx
  split at hcheck
  · cases hcheck
  · cases hcheck
    exact hu

/-- A power-up that succeeds has nothing to undo. -/
theorem exec_supplyAndSetUp_of_powerUp {chip : Chip} {interrupt : PinSetup} {s t : System}
    (h : exec (powerUp chip interrupt) s = (.ok (), t)) :
    exec (supplyAndSetUp chip interrupt) s = (.ok (), t) := by
  rw [powerUp, exec_tryCatch] at h
  rcases hx : exec (supplyAndSetUp chip interrupt) s with ⟨e | _, u⟩
  · rw [hx] at h
    obtain ⟨_, _, _, hthrow⟩ := exec_bind_eq_ok h
    cases hthrow
  · rw [hx] at h
    exact h

/-- A device that was set up is in its first bank, wherever the bus stood before. -/
theorem atFirstBank_of_exec_powerUp {chip : Chip} {interrupt : PinSetup} {s t : System}
    (h : exec (powerUp chip interrupt) s = (.ok (), t)) : t.bench.AtFirstBank := by
  have hI := System.isSteady_atFirstBank
  obtain ⟨_, u₁, _, h₁⟩ := exec_bind_eq_ok (exec_supplyAndSetUp_of_powerUp h)
  obtain ⟨_, u₂, _, h₂⟩ := exec_bind_eq_ok h₁
  obtain ⟨_, u₃, _, hsetUp⟩ := exec_bind_eq_ok h₂
  obtain ⟨_, u, hidentify, hrest⟩ := exec_bind_eq_ok hsetUp
  have hafter := (straight_afterIdentify chip interrupt).holds sequential_stays
    (SetUpStep.stays hI)
  have hactivate : StartStep chip _ := .activate
  have hdone := hafter.bind fun _ => hactivate.stays hI
  simp only [bind_assoc] at hdone
  have hend := upholds_exec (hdone u (atFirstBank_of_exec_identify hidentify))
  rw [hrest] at hend
  exact hend

end Driver

end Inertial
