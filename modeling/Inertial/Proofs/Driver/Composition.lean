import Inertial.Driver.PowerUp
import Inertial.Proofs.Bus.BankSelection
import Inertial.Shared.Task

/-!
# What drivers are composed of

Drivers take steps of a few kinds one after the other, and now and then they look at the record of
the device to see how to go on. `Driver.Composed` says so of a driver: which kinds of steps it
takes, how often it waits at most, and what is known of the record where each step begins. A
power-up looks at nothing on record, so it is a straight line of steps (`Driver.Straight`).

This is the one place where the text of all drivers is followed. What is shown elsewhere of every
driver, be it what they keep, how they fail or how often they wait, is shown of the kinds of steps
and goes over to the drivers by induction on how they are composed (`Driver.Composed.holds`,
`Driver.Straight.holds`). So a change of one driver is a change of its composition.
-/

set_option autoImplicit false

namespace Inertial

/-! ## The settings of a sensor -/

/-- A sensor's range and rate are in its own register only, and its filter is in that of the
filters. -/
structure Sensor.IsSeparate {ρ : Type} [Setting ρ 3] (sensor : Sensor ρ) : Prop where
  range : ∀ (c : DeviceConfig) (range : ρ) (rate : DataRate) (t : ConfigRegister),
    t ≠ sensor.register →
    (sensor.set { sensor.get c with range, rate } c).encode t = c.encode t
  filter : ∀ (c : DeviceConfig) (filter : Bandwidth) (t : ConfigRegister), t ≠ .filters →
    (sensor.set { sensor.get c with filter } c).encode t = c.encode t

/-- The gyroscope shares a register with nothing but its filter with that of the accelerometer. -/
theorem Sensor.isSeparate_gyro : Sensor.IsSeparate .gyro where
  range := by
    intro c range rate t h
    cases t with
    | gyro => exact absurd rfl h
    | _ => rfl
  filter := by
    intro c filter t h
    cases t with
    | filters => exact absurd rfl h
    | _ => rfl

/-- The accelerometer is separate as the gyroscope is. -/
theorem Sensor.isSeparate_accel : Sensor.IsSeparate .accel where
  range := by
    intro c range rate t h
    cases t with
    | accel => exact absurd rfl h
    | _ => rfl
  filter := by
    intro c filter t h
    cases t with
    | filters => exact absurd rfl h
    | _ => rfl

/-- The settings of a sensor are a part of the configuration: what is put in place is found there,
and nothing else of the configuration depends on what was there before. What runs depends on the
mode only. -/
structure Sensor.IsPart {ρ : Type} (sensor : Sensor ρ) : Prop where
  get_set : ∀ (v : SensorConfig ρ) (c : DeviceConfig), sensor.get (sensor.set v c) = v
  set_set : ∀ (v w : SensorConfig ρ) (c : DeviceConfig),
    sensor.set v (sensor.set w c) = sensor.set v c
  set_get : ∀ c : DeviceConfig, sensor.set (sensor.get c) c = c
  power : ∀ (v : SensorConfig ρ) (c : DeviceConfig), v.mode = (sensor.get c).mode →
    (sensor.set v c).power = c.power
  withPower : ∀ (v : SensorConfig ρ) (c : DeviceConfig),
    c.withPower (sensor.set v c).power = sensor.set { sensor.get c with mode := v.mode } c

/-- The settings of the gyroscope are a part of the configuration. -/
theorem Sensor.isPart_gyro : Sensor.IsPart .gyro where
  get_set := fun _ _ => rfl
  set_set := fun _ _ _ => rfl
  set_get := fun _ => rfl
  power := by
    rintro ⟨_, _, _, _⟩ ⟨⟨_, _, _, _⟩, _, _⟩ h
    cases h
    rfl
  withPower := fun _ _ => rfl

/-- The settings of the accelerometer are a part of the configuration. -/
theorem Sensor.isPart_accel : Sensor.IsPart .accel where
  get_set := fun _ _ => rfl
  set_set := fun _ _ _ => rfl
  set_get := fun _ => rfl
  power := by
    rintro ⟨_, _, _, _⟩ ⟨_, ⟨_, _, _, _⟩, _⟩ h
    cases h
    rfl
  withPower := fun _ _ => rfl

/-! ## Registers of a power-up -/

/-- The register is one that a power-up checks. -/
def Register.IsChecked (a : Address) : Prop :=
  a = whoAmI ∨ a = intStatus

/-- A serial bus reaches the registers that are checked. -/
theorem Register.IsChecked.isReachable {a : Address} (ha : IsChecked a) : IsReachable a := by
  rcases ha with rfl | rfl <;> exact isReachable_bank0 (by decide)

/-- A register that a serial bus reaches and that a power-up may write. -/
structure Register.IsOrdinary (a : Address) : Prop where
  isReachable : IsReachable a
  not_bankSelect : offsetOf a ≠ bankSelect
  not_checked : ∀ c, IsChecked c → Bus.readHeader a ≠ Bus.readHeader c

/-- No ordinary register is checked. -/
theorem Register.IsOrdinary.not_isChecked {a : Address} (ha : IsOrdinary a) : ¬ IsChecked a :=
  fun h => ha.not_checked a h rfl

/-- The registers of the first bank are ordinary but for the selector and the checked ones. -/
theorem Register.isOrdinary_bank0 {offset : Byte} (h : offset < 0x80)
    (hselect : offset ≠ bankSelect) (hwhoAmI : offset ||| readBit ≠ Bus.readHeader whoAmI)
    (hstatus : offset ||| readBit ≠ Bus.readHeader intStatus) :
    IsOrdinary (address bank0 offset) where
  isReachable := isReachable_bank0 h
  not_bankSelect := by
    rw [offsetOf_address]
    exact hselect
  not_checked := by
    rintro c hc
    rw [Bus.readHeader, offsetOf_address]
    rcases hc with rfl | rfl
    · exact hwhoAmI
    · exact hstatus

/-- The configuration registers are ordinary. -/
theorem ConfigRegister.isOrdinary (r : ConfigRegister) : Register.IsOrdinary r.address := by
  cases r <;> exact Register.isOrdinary_bank0 (by decide) (by decide) (by decide) (by decide)

namespace Driver

variable {α β : Type} {m n : Nat} {K : Core → Prop}

/-- Reads a register and fails if it holds what it should not. -/
def check (a : Address) (fails : Byte → Prop) [DecidablePred fails]
    (error : Byte → DriverError) : Driver Unit := do
  let found ← read a
  if fails found then
    throw (error found)

/-! ## Composition -/

/-- Kinds of steps: how often a step waits at most, what has to be known of the record where it
begins, and what it does. -/
abbrev Steps := Nat → (Core → Prop) → Driver Unit → Prop

/-- The driver takes steps of the kinds `S` and ends with something of the kind `L`. It waits at
most `n` times, and it may be begun where `K` holds of the record. Only a look at the record tells
what is known of it, and that is forgotten after the next step. -/
inductive Composed (S : Steps) {α : Type} (L : Nat → Driver α → Prop) :
    Nat → (Core → Prop) → Driver α → Prop where
  | last {n : Nat} {K : Core → Prop} {x : Driver α} (hx : L n x) : Composed S L n K x
  | look {n : Nat} {K : Core → Prop} {f : Core → Driver α}
      (hf : ∀ core, Composed S L n (· = core) (f core)) :
      Composed S L n K (getCore >>= f)
  | step {m n : Nat} {K : Core → Prop} {x : Driver Unit} {y : Driver α} (hx : S m K x)
      (hy : Composed S L n (fun _ => True) y) : Composed S L (m + n) K (x >>= fun _ => y)
  | weaken {m n : Nat} {K K' : Core → Prop} {x : Driver α} (hx : Composed S L m K' x)
      (hle : m ≤ n) (hK : ∀ core, K core → K' core) : Composed S L n K x

/-- A driver that ends with an answer. -/
inductive Answers : Nat → Driver α → Prop where
  | pure (a : α) : Answers 0 (pure a)

variable {S T : Steps} {L : Nat → Driver α → Prop} {M : Nat → Driver β → Prop}

namespace Composed

/-- An answer is no step. -/
theorem pure (a : α) : Composed S Answers n K (pure a) :=
  weaken (last (.pure a)) (Nat.zero_le n) fun _ h => h

/-- What comes after a step without waits is what counts. -/
theorem after {x : Driver Unit} {y : Driver α} (hx : S 0 K x)
    (hy : Composed S L n (fun _ => True) y) : Composed S L n K (x >>= fun _ => y) :=
  weaken (step hx hy) (Nat.le_of_eq (Nat.zero_add n)) fun _ h => h

/-- A step is a driver. -/
theorem of_step {x : Driver Unit} (hx : S n K x) : Composed S Answers n K x := by
  have hdone : Composed S Answers 0 (fun _ => True) (Pure.pure () : Driver Unit) := pure ()
  rw [← bind_pure_unit (x := x)]
  exact step hx hdone

/-- A driver goes on from the answer of another. -/
theorem bind {x : Driver β} {f : β → Driver α} (hx : Composed S Answers m K x)
    (hf : ∀ b, Composed S L n (fun _ => True) (f b)) : Composed S L (m + n) K (x >>= f) := by
  induction hx with
  | last hx =>
    cases hx with
    | pure b =>
      rw [pure_bind]
      exact weaken (hf b) (Nat.le_add_left _ _) fun _ _ => trivial
  | look _ ih =>
    rw [bind_assoc]
    exact look ih
  | step hx _ ih =>
    rw [bind_assoc]
    exact weaken (step hx ih) (Nat.le_of_eq (Nat.add_assoc _ _ _).symm) fun _ h => h
  | weaken _ hle hK ih => exact weaken ih (Nat.add_le_add_right hle _) hK

/-- Steps that are composed of smaller ones may be replaced by these. -/
theorem refine {L : Nat → Driver α → Prop} {M : Nat → Driver α → Prop}
    (hS : ∀ {n K x}, S n K x → Composed T Answers n K x)
    (hL : ∀ {n x}, L n x → Composed T M n (fun _ => True) x) {x : Driver α}
    (hx : Composed S L n K x) : Composed T M n K x := by
  induction hx with
  | last hx => exact weaken (hL hx) (Nat.le_refl _) fun _ _ => trivial
  | look _ ih => exact look ih
  | step hx _ ih => exact (hS hx).bind fun _ => ih
  | weaken _ hle hK ih => exact weaken ih hle hK

end Composed

/-- A straight line of steps. -/
inductive Straight (S : Driver Unit → Prop) : Driver Unit → Prop where
  | done : Straight S (pure ())
  | step {x y : Driver Unit} (hx : S x) (hy : Straight S y) : Straight S (x >>= fun _ => y)

namespace Straight

variable {S T : Driver Unit → Prop} {x y : Driver Unit}

/-- A step is a straight line. -/
theorem of_step (hx : S x) : Straight S x := by
  rw [← bind_pure_unit (x := x)]
  exact step hx done

/-- Two straight lines one after the other are one. -/
theorem andThen (hx : Straight S x) (hy : Straight S y) : Straight S (x >>= fun _ => y) := by
  induction hx with
  | done => exact hy
  | step hx _ ih =>
    rw [bind_assoc]
    exact step hx ih

/-- Kinds of steps may be seen as larger kinds. -/
theorem mono (hx : Straight S x) (h : ∀ {y}, S y → T y) : Straight T x := by
  induction hx with
  | done => exact done
  | step hx _ ih => exact step (h hx) ih

end Straight

/-! ## What goes over from steps to drivers -/

/-- A property of drivers that holds of one after another if it holds of both. -/
structure Sequential (P : (α : Type) → Driver α → Prop) : Prop where
  pure : ∀ {α : Type} (a : α), P α (pure a)
  bind : ∀ {α β : Type} {x : Driver α} {f : α → Driver β},
    P α x → (∀ a, P β (f a)) → P β (x >>= f)

/-- Such a property holds of a driver if it holds of its steps. -/
theorem Composed.holds {P : (α : Type) → Driver α → Prop} (hP : Sequential P)
    (hlook : P Core getCore) (hS : ∀ {n K x}, S n K x → P Unit x) {x : Driver α}
    (hx : Composed S Answers n K x) : P α x := by
  induction hx with
  | last hx =>
    cases hx with
    | pure a => exact hP.pure a
  | look _ ih => exact hP.bind hlook ih
  | step hx _ ih => exact hP.bind (hS hx) fun _ => ih
  | weaken _ _ _ ih => exact ih

/-- Such a property holds of a straight line if it holds of its steps. -/
theorem Straight.holds {S : Driver Unit → Prop} {P : (α : Type) → Driver α → Prop}
    (hP : Sequential P) (hS : ∀ {x}, S x → P Unit x) {x : Driver Unit} (hx : Straight S x) :
    P Unit x := by
  induction hx with
  | done => exact hP.pure ()
  | step hx _ ih => exact hP.bind (hS hx) fun _ => ih

/-! ## Changing the configuration -/

/-- Steps that change what runs. -/
inductive PowerStep : Steps where
  | store {K : Core → Prop} {config : DeviceConfig} {p : PowerState}
      (h : ∀ core, K core → config = core.config.withPower p) : PowerStep 0 K (store .power config)
  | sleep {K : Core → Prop} (d : Delay) : PowerStep 1 K (sleep d)

/-- Steps that change the other settings of a sensor, one register at a time. -/
inductive SettingStep : Steps where
  | store {K : Core → Prop} {r : ConfigRegister} {config : DeviceConfig} (hr : r ≠ .power)
      (hpower : ∀ core, K core → config.power = core.config.power)
      (hother : ∀ core, K core → ∀ t, t ≠ r → config.encode t = core.config.encode t) :
      SettingStep 0 K (store r config)

/-- A driver that ends with a change of what runs. -/
inductive SetsPower : Nat → Driver Duration → Prop where
  | setPower (p : PowerState) : SetsPower 1 (setPower p)

/-- Steps that write configuration registers and wait. -/
inductive TuningStep : Steps where
  | store {K : Core → Prop} (r : ConfigRegister) (config : DeviceConfig) :
      TuningStep 0 K (store r config)
  | sleep {K : Core → Prop} (d : Delay) : TuningStep 1 K (sleep d)

/-- A wait for the output is one wait or none. -/
theorem composed_settle (d : Duration) : Composed PowerStep Answers 1 K (settle d) := by
  unfold settle
  split
  · exact .of_step (.sleep _)
  · exact .pure ()

/-- A change of what runs is recorded with its register and may be followed by a pause. -/
theorem composed_setPower (p : PowerState) : Composed PowerStep Answers 1 K (setPower p) := by
  unfold setPower
  refine .look fun core => ?_
  dsimp only
  split
  · exact .pure _
  · refine .after (.store (p := p) fun core h => by rw [h]) ?_
    split
    · exact .step (m := 1) (n := 0) (.sleep _) (.pure _)
    · exact .pure _

/-- A change of what runs that waits for the output has one wait more. -/
theorem composed_setPowerAndWait (p : PowerState) :
    Composed PowerStep Answers 2 K (setPowerAndWait p) :=
  (composed_setPower p).bind composed_settle

/-- Granting the wishes for a sensor changes range and rate, then the filter, and then what runs. -/
theorem composed_configure {ρ : Type} [DecidableEq ρ] [Setting ρ 3] {sensor : Sensor ρ}
    (hseparate : sensor.IsSeparate) (hpart : sensor.IsPart) (hregister : sensor.register ≠ .power)
    (wishes : SensorRequest ρ) : Composed SettingStep SetsPower 1 K (configure sensor wishes) := by
  have hmode : ∀ {K : Core → Prop} (f : Core → PowerState),
      Composed SettingStep SetsPower 1 K (getCore >>= fun core => setPower (f core)) :=
    fun f => .look fun core => .last (.setPower _)
  have hfilter : ∀ {K : Core → Prop} (filter : Bandwidth) {rest : Driver Duration},
      Composed SettingStep SetsPower 1 (fun _ => True) rest →
      Composed SettingStep SetsPower 1 K (getCore >>= fun core => store .filters (sensor.set
        { sensor.get core.config with filter } core.config) >>= fun _ => rest) := by
    intro K filter rest hrest
    refine .look fun core => .after (.store (by decide) ?_ ?_) hrest
    · rintro _ rfl
      exact hpart.power _ _ rfl
    · rintro _ rfl
      exact hseparate.filter _ _
  unfold configure
  refine .look fun core => ?_
  dsimp only
  split
  · refine .look fun core => .after (.store hregister ?_ ?_) ?_
    · rintro _ rfl
      exact hpart.power _ _ rfl
    · rintro _ rfl
      exact hseparate.range _ _ _
    · split
      · exact hfilter _ (hmode _)
      · exact hmode _
  · split
    · exact hfilter _ (hmode _)
    · exact hmode _

/-- A request is one for a single sensor. -/
theorem composed_grant (request : Request) :
    Composed SettingStep SetsPower 1 K (grant request) := by
  cases request with
  | gyro wishes =>
    exact composed_configure Sensor.isSeparate_gyro Sensor.isPart_gyro (by decide) wishes
  | accel wishes =>
    exact composed_configure Sensor.isSeparate_accel Sensor.isPart_accel (by decide) wishes

/-- Turning the temperature sensor on or off is a change of what runs. -/
theorem composed_setTemperature (on : Bool) :
    Composed SettingStep SetsPower 1 K (setTemperature on) :=
  .look fun _ => .last (.setPower _)

/-- Changing what runs is tuning. -/
theorem Composed.tuning {x : Driver α} (hx : Composed PowerStep Answers n K x) :
    Composed TuningStep Answers n K x := by
  refine hx.refine ?_ fun h => .last h
  intro n K x hx
  cases hx with
  | store _ => exact .of_step (.store _ _)
  | sleep d => exact .of_step (.sleep d)

/-- Changing the settings of a sensor and what runs is tuning. -/
theorem Composed.tuning_of_settings {x : Driver Duration}
    (hx : Composed SettingStep SetsPower n K x) : Composed TuningStep Answers n K x := by
  refine hx.refine ?_ ?_
  · intro n K x hx
    cases hx with
    | store _ _ _ => exact .of_step (.store _ _)
  · intro n x hx
    cases hx with
    | setPower p => exact (composed_setPower p).tuning

/-! ## Suspending and resuming -/

/-- Steps that change what runs and whether the device is supplied. -/
inductive SupplyStep : Steps where
  | setPowerAndWait {K : Core → Prop} (p : PowerState) : SupplyStep 2 K (setPowerAndWait p)
  | interfaceOn {K : Core → Prop} : SupplyStep 1 K interfaceOn
  | interfaceOff {K : Core → Prop} : SupplyStep 0 K interfaceOff
  | runtime {K : Core → Prop} (f : RuntimePower → RuntimePower) :
      SupplyStep 0 K (modifyCore fun c => { c with power := f c.power })

/-- Steps that turn the device on or off. The FIFO is told so only if it is to take samples. -/
inductive LifeStep (stream : Bool) : Steps where
  | supply {n : Nat} {K : Core → Prop} {x : Driver Unit} (hx : SupplyStep n K x) :
      LifeStep stream n K x
  | setFifo {K : Core → Prop} (h : ∀ core, K core → core.streaming = true) :
      LifeStep stream 0 K (setFifo stream)

/-- What a suspend does once it has noted what runs. -/
def turnOff : Driver Unit := do
  let core ← getCore
  if core.power.suspended then
    return
  if core.streaming then
    setFifo false
  setPowerAndWait .off
  interfaceOff

/-- Suspending notes what runs before it turns everything off. -/
theorem suspend_eq :
    suspend = (modifyCore fun c => { c with saved := c.config.power }) >>= fun _ => turnOff :=
  rfl

/-- The FIFO is told first, then the sensors are turned off, and last the supply. -/
theorem composed_turnOff : Composed (LifeStep false) Answers 2 K turnOff := by
  have hoff : Composed (LifeStep false) Answers 2 (fun _ => True)
      (do setPowerAndWait .off; interfaceOff) :=
    .step (m := 2) (n := 0) (.supply (.setPowerAndWait .off)) (.of_step (.supply .interfaceOff))
  unfold turnOff
  refine .look fun core => ?_
  split
  · exact .pure ()
  · split
    · rename_i hon
      exact .after (.setFifo fun _ h => h ▸ hon) hoff
    · exact hoff.weaken (Nat.le_refl _) fun _ _ => trivial

/-- The supply is turned on first, then what was noted runs, and last the FIFO is told. -/
theorem composed_resume : Composed (LifeStep true) Answers 3 K resume := by
  unfold resume
  refine .step (m := 1) (n := 2) (.supply .interfaceOn) (.after (.supply (.runtime fun _ => _)) ?_)
  refine .look fun core => ?_
  refine .step (m := 2) (n := 0) (.supply (.setPowerAndWait _)) (.look fun core => ?_)
  split
  · rename_i hon
    exact .of_step (.setFifo fun _ h => h ▸ hon)
  · exact .pure ()

/-- A runtime suspension is steps of the supply, of which two wait at most. -/
theorem composed_runtimeSuspend : Composed SupplyStep Answers 2 K runtimeSuspend :=
  .step (m := 2) (n := 0) (.setPowerAndWait .off)
    (.after .interfaceOff (.of_step (.runtime fun power => { power with active := false })))

/-- The end of one waits once at most. -/
theorem composed_runtimeResume : Composed SupplyStep Answers 1 K runtimeResume :=
  .step (m := 1) (n := 0) .interfaceOn
    (.of_step (.runtime fun power => { power with active := true }))

/-! ## Operations -/

/-- The smallest steps that operations take. -/
inductive OperationStep : Steps where
  | tuning {n : Nat} {K : Core → Prop} {x : Driver Unit} (hx : TuningStep n K x) :
      OperationStep n K x
  | setFifo {K : Core → Prop} (stream : Bool) : OperationStep 0 K (setFifo stream)
  | switch {K : Core → Prop} (on : Bool) : OperationStep 0 K (switch .vddio on)
  | note {K : Core → Prop} {f : Core → Core} (hf : ∀ core, (f core).rails = core.rails) :
      OperationStep 0 K (modifyCore f)

/-- Tuning is what operations do. -/
theorem Composed.operation {x : Driver α} (hx : Composed TuningStep Answers n K x) :
    Composed OperationStep Answers n K x :=
  hx.refine (fun h => .of_step (.tuning h)) fun h => .last h

/-- Supplying the device is what operations do. -/
theorem Composed.operation_of_supply {x : Driver α} (hx : Composed SupplyStep Answers n K x) :
    Composed OperationStep Answers n K x := by
  refine hx.refine ?_ fun h => .last h
  intro n K x hx
  cases hx with
  | setPowerAndWait p => exact (composed_setPowerAndWait p).tuning.operation
  | interfaceOn => exact .after (.switch true) (.of_step (.tuning (.sleep _)))
  | interfaceOff => exact .of_step (.switch false)
  | runtime f => exact .of_step (.note fun _ => rfl)

/-- Turning the device on or off is what operations do. -/
theorem Composed.operation_of_life {stream : Bool} {x : Driver α}
    (hx : Composed (LifeStep stream) Answers n K x) : Composed OperationStep Answers n K x := by
  refine hx.refine ?_ fun h => .last h
  intro n K x hx
  cases hx with
  | supply hx => exact (Composed.of_step hx).operation_of_supply
  | setFifo _ => exact .of_step (.setFifo stream)

/-- Suspending is steps of an operation, of which two wait at most. -/
theorem composed_suspend : Composed OperationStep Answers 2 K suspend :=
  .after (.note fun _ => rfl) composed_turnOff.operation_of_life

/-- Streaming is switched without a wait. -/
theorem composed_setStreaming (on : Bool) :
    Composed OperationStep Answers 0 K (setStreaming on) :=
  .after (.setFifo on) (.of_step (.note fun _ => rfl))

/-! ## Shutting down -/

/-- Steps that shut the device down, of which those that may fail are only attempted. -/
inductive EndStep : Steps where
  | setPowerAndWait {K : Core → Prop} (p : PowerState) :
      EndStep 2 K (attempt (setPowerAndWait p))
  | switch {K : Core → Prop} (r : Rail) : EndStep 0 K (attempt (switch r false))
  | runtime {K : Core → Prop} (f : RuntimePower → RuntimePower) :
      EndStep 0 K (modifyCore fun c => { c with power := f c.power })

/-- The rails that are on are switched off, that of the interface first. -/
theorem composed_releaseRails : Composed EndStep Answers 0 K releaseRails := by
  have hvdd : ∀ {K : Core → Prop}, Composed EndStep Answers 0 K
      (do if (← getCore).rails.vdd then attempt (switch .vdd false)) := by
    refine .look fun core => ?_
    split
    · exact .of_step (.switch .vdd)
    · exact .pure ()
  unfold releaseRails
  refine .look fun core => ?_
  split
  · exact .after (.switch .vddio) hvdd
  · exact hvdd

/-- Shutting down switches off what is on and then gives up the rails. -/
theorem composed_shutdown : Composed EndStep Answers 2 K shutdown := by
  have hrails : ∀ {K : Core → Prop}, Composed EndStep Answers 0 K (do
      modifyCore fun c => { c with power := { c.power with enabled := false } }
      releaseRails) :=
    .after (.runtime fun power => { power with enabled := false }) composed_releaseRails
  unfold shutdown
  refine .look fun core => ?_
  split
  · exact hrails.weaken (Nat.zero_le _) fun _ h => h
  · exact .step (.setPowerAndWait .off) hrails

/-! ## Powering up -/

/-- Steps that set up a chip that is supplied. -/
inductive SetUpStep (chip : Chip) : Driver Unit → Prop where
  | write {a : Address} (ha : Register.IsOrdinary a) (hbank : Register.bankOf a = Register.bank0)
      (v : Byte) : SetUpStep chip (write a v)
  | update {a : Address} (ha : Register.IsOrdinary a) (hbank : Register.bankOf a = Register.bank0)
      (mask value : Byte) : SetUpStep chip (update a mask value)
  | sleep (d : Delay) : SetUpStep chip (sleep d)
  | identify : SetUpStep chip (identify chip)
  | confirm : SetUpStep chip (check Register.intStatus
      (fun v => StatusRegister.resetDone.get v = 0) fun _ => .resetNotConfirmed)
  | record (config : DeviceConfig) : SetUpStep chip (modifyCore fun c => { c with config })

/-- Steps of a power-up. -/
inductive StartStep (chip : Chip) : Driver Unit → Prop where
  | setUp {x : Driver Unit} (hx : SetUpStep chip x) : StartStep chip x
  | switch (r : Rail) : StartStep chip (switch r true)
  | activate : StartStep chip
      (modifyCore fun c => { c with power := { enabled := true, active := true } })

/-- The registers that a power-up writes besides those of the configuration. -/
def setUpRegisters : List Address :=
  [Register.deviceConfig, Register.intfConfig0, Register.tmstConfig, Register.intConfig,
    Register.intConfig1, Register.intSource0]

/-- They are ordinary registers of the first bank. -/
theorem isOrdinary_of_mem_setUpRegisters :
    ∀ a ∈ setUpRegisters, Register.IsOrdinary a ∧ Register.bankOf a = Register.bank0 := by
  have hordinary : ∀ {offset : Byte}, offset < 0x80 → offset ≠ Register.bankSelect →
      offset ||| readBit ≠ Bus.readHeader Register.whoAmI →
      offset ||| readBit ≠ Bus.readHeader Register.intStatus →
      Register.IsOrdinary (Register.address Register.bank0 offset) ∧
        Register.bankOf (Register.address Register.bank0 offset) = Register.bank0 := by
    intro offset h hselect hwhoAmI hstatus
    refine ⟨Register.isOrdinary_bank0 h hselect hwhoAmI hstatus, ?_⟩
    rw [Register.bankOf_address]
    decide
  intro a ha
  simp only [setUpRegisters, List.mem_cons, List.not_mem_nil, or_false] at ha
  rcases ha with rfl | rfl | rfl | rfl | rfl | rfl <;>
    exact hordinary (by decide) (by decide) (by decide) (by decide)

/-- The register by which the chip is reset is none of those that are checked. -/
theorem isOrdinary_deviceConfig : Register.IsOrdinary Register.deviceConfig :=
  (isOrdinary_of_mem_setUpRegisters _ (by decide)).1

variable {chip : Chip}

/-- Writing one of these registers is a step of a power-up. -/
theorem SetUpStep.write_of_mem {a : Address} (ha : a ∈ setUpRegisters) (v : Byte) :
    SetUpStep chip (Driver.write a v) :=
  .write (isOrdinary_of_mem_setUpRegisters a ha).1 (isOrdinary_of_mem_setUpRegisters a ha).2 v

/-- Updating one of these registers is a step of a power-up. -/
theorem SetUpStep.update_of_mem {a : Address} (ha : a ∈ setUpRegisters) (mask value : Byte) :
    SetUpStep chip (Driver.update a mask value) :=
  .update (isOrdinary_of_mem_setUpRegisters a ha).1 (isOrdinary_of_mem_setUpRegisters a ha).2
    mask value

/-- The chip is told to reset, and a while later it is asked whether it has. -/
theorem straight_reset (chip : Chip) : Straight (SetUpStep chip) reset :=
  .step (.write_of_mem (by decide) _) (.step (.sleep _) (.of_step .confirm))

/-- All configuration registers are written before the configuration is recorded. -/
theorem straight_load (config : DeviceConfig) : Straight (SetUpStep chip) (load config) := by
  have hwrites : ∀ registers : List ConfigRegister, Straight (SetUpStep chip)
      (registers.forM fun r => write r.address (config.encode r)) := by
    intro registers
    induction registers with
    | nil => exact .done
    | cons r registers ih => exact .step (.write r.isOrdinary r.bankOf_address _) ih
  exact (hwrites _).andThen (.of_step (.record config))

/-- The pin is set up before data is routed to it. -/
theorem straight_armInterrupt (interrupt : PinSetup) :
    Straight (SetUpStep chip) (armInterrupt interrupt) :=
  .step (.write_of_mem (by decide) _)
    (.step (.update_of_mem (by decide) _ _) (.of_step (.update_of_mem (by decide) _ _)))

/-- What is left to be set up once the chip has been identified, up to the note that it is. -/
theorem straight_afterIdentify (chip : Chip) (interrupt : PinSetup) : Straight (SetUpStep chip) (do
    reset
    update Register.intfConfig0 Register.bigEndianData 0
    load chip.defaultConfig
    update Register.tmstConfig Register.timestampMask
      (Register.timestampToRegisters ||| Register.timestampEnable)
    armInterrupt interrupt) :=
  (straight_reset chip).andThen (.step (.update_of_mem (by decide) _ _) ((straight_load _).andThen
    (.step (.update_of_mem (by decide) _ _) (straight_armInterrupt interrupt))))

/-- A chip that is supplied is identified first, and last it is noted to be set up. -/
theorem straight_setUp (chip : Chip) (interrupt : PinSetup) :
    Straight (StartStep chip) (setUp chip interrupt) := by
  have hprepared : Straight (StartStep chip) _ :=
    (straight_afterIdentify chip interrupt).mono .setUp
  have hsetUp := hprepared.andThen (.of_step .activate)
  simp only [bind_assoc] at hsetUp
  exact .step (.setUp .identify) hsetUp

/-- The interface supply is given its time. -/
theorem straight_interfaceOn : Straight (StartStep chip) interfaceOn :=
  .step (.switch .vddio) (.of_step (.setUp (.sleep _)))

/-- Up to its clean-up a power-up is a straight line. -/
theorem straight_supplyAndSetUp (chip : Chip) (interrupt : PinSetup) :
    Straight (StartStep chip) (supplyAndSetUp chip interrupt) :=
  .step (.switch .vdd) (.step (.setUp (.sleep _))
    (straight_interfaceOn.andThen (straight_setUp chip interrupt)))

end Driver

/-! ## Operations as a whole -/

/-- Whether an answer reports a failure. -/
def Reply.isFailure : Reply → Bool
  | .failed _ => true
  | _ => false

namespace Operation

/-- An operation answers what became of a driver, which waits at most three times, and says so if it
failed. -/
structure Reports {α : Type} (op : Operation) (x : Driver α) (f : α → Reply) : Prop where
  body : op.body = reply x f
  composed : Driver.Composed Driver.OperationStep Driver.Answers 3 (fun _ => True) x
  isFailure : ∀ a, (f a).isFailure = false

/-- The caller may be left to wait for the output. -/
theorem reports_settling {op : Operation} {wait : Bool} {x : Driver Duration}
    (hbody : op.body = settling wait x)
    (hx : Driver.Composed Driver.TuningStep Driver.Answers 1 (fun _ => True) x) :
    ∃ (α : Type) (y : Driver α) (f : α → Reply), op.Reports y f := by
  unfold settling at hbody
  cases wait with
  | false =>
    exact ⟨Duration, x, .settling, hbody, hx.operation.weaken (by decide) fun _ h => h,
      fun _ => rfl⟩
  | true =>
    have hsettle := hx.bind fun d => (Driver.composed_settle d).tuning
    exact ⟨Unit, x >>= Driver.settle, fun _ => .ok, hbody,
      hsettle.operation.weaken (by decide) fun _ h => h, fun _ => rfl⟩

/-- Every operation reports what became of a driver. -/
theorem exists_reports (op : Operation) :
    ∃ (α : Type) (x : Driver α) (f : α → Reply), op.Reports x f := by
  have hreports : ∀ {n : Nat} {x : Driver Unit},
      Driver.Composed Driver.OperationStep Driver.Answers n (fun _ => True) x → n ≤ 3 →
      op.body = reply x (fun _ => .ok) →
      ∃ (α : Type) (x : Driver α) (f : α → Reply), op.Reports x f :=
    fun hx hle hbody => ⟨_, _, _, hbody, hx.weaken hle fun _ h => h, fun _ => rfl⟩
  have hlook : Driver.Composed Driver.OperationStep Driver.Answers 3 (fun _ => True)
      Driver.getCore := by
    rw [← bind_pure Driver.getCore]
    exact .look fun core => .pure core
  cases op with
  | grant request wait =>
    exact reports_settling rfl (Driver.composed_grant request).tuning_of_settings
  | setTemperature on wait =>
    exact reports_settling rfl (Driver.composed_setTemperature on).tuning_of_settings
  | setPower p wait => exact reports_settling rfl (Driver.composed_setPower p).tuning
  | suspend => exact hreports Driver.composed_suspend (by decide) rfl
  | resume => exact hreports Driver.composed_resume.operation_of_life (by decide) rfl
  | runtimeSuspend =>
    exact hreports Driver.composed_runtimeSuspend.operation_of_supply (by decide) rfl
  | runtimeResume =>
    exact hreports Driver.composed_runtimeResume.operation_of_supply (by decide) rfl
  | setStreaming on => exact hreports (Driver.composed_setStreaming on) (by decide) rfl
  | getConfig => exact ⟨_, _, _, rfl, hlook, fun _ => rfl⟩
  | getPower => exact ⟨_, _, _, rfl, hlook, fun _ => rfl⟩
  | isSuspended => exact ⟨_, _, _, rfl, hlook, fun _ => rfl⟩

end Operation

end Inertial
