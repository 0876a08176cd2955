import Inertial.Driver.PowerUp
import Inertial.Proofs.Driver.Stability

/-!
# The registers mirror the configuration on record

Powering a chip up brings the four configuration registers to the encoding of the configuration on
record, and every operation keeps them there, also when it fails half-way: each write that succeeds
is recorded before anything else happens, and one that fails changes no register.
-/

set_option autoImplicit false

namespace Inertial

/-- The registers hold the configuration that is on record. -/
def Core.Mirrored (core : Core) (m : Memory) : Prop :=
  ∀ r : ConfigRegister, m r.address = core.config.encode r

namespace Core

/-- Other registers do not matter. -/
theorem Mirrored.write_of_ne {core : Core} {m : Memory} {a : Address} {v : Byte}
    (h : core.Mirrored m) (ha : ∀ r : ConfigRegister, r.address ≠ a) :
    core.Mirrored (m.write a v) := by
  intro r
  rw [Memory.write_of_ne m v (ha r)]
  exact h r

/-- Storing a configuration keeps registers and record the same. -/
theorem storeStable_mirrored : Driver.StoreStable Mirrored := by
  intro core m r config h hother t
  by_cases ht : t = r
  · rw [ht, Memory.write_same]
  · have ha : t.address ≠ r.address := fun he => ht (ConfigRegister.address_injective he)
    rw [Memory.write_of_ne m _ ha, h t]
    exact (hother t ht).symm

/-- So does every change of power. -/
theorem powerStable_mirrored : Driver.PowerStable Mirrored where
  modes := storeStable_mirrored.modes
  rails := fun _ _ _ h => h
  runtime := fun _ _ _ h => h

end Core

/-- The register of the FIFO is none of the configuration. -/
theorem ConfigRegister.address_ne_fifoConfig (r : ConfigRegister) :
    r.address ≠ Register.fifoConfig := by
  cases r <;> decide

/-- Every operation keeps the registers and the record together. -/
theorem Operation.keeps_mirrored (op : Operation) : op.body.Keeps Core.Mirrored := by
  have hpower := Core.powerStable_mirrored
  have hstore := Core.storeStable_mirrored
  have hfifo : ∀ core m (v : Byte), Core.Mirrored core m →
      Core.Mirrored core (m.write Register.fifoConfig v) :=
    fun core m v h => h.write_of_ne ConfigRegister.address_ne_fifoConfig
  cases op with
  | grant request wait =>
    exact keeps_settling ((Driver.composed_grant request).keeps_of_settings hstore) wait
  | setTemperature on wait =>
    exact keeps_settling ((Driver.composed_setTemperature on).keeps_of_settings hstore) wait
  | setPower p wait => exact keeps_settling (Driver.keeps_setPower hpower.modes p) wait
  | suspend =>
    refine keeps_reply ?_ _
    intro s hs
    exact Driver.upholds_suspend hpower (fun core m h _ => hfifo core m _ h) hs.1 hs.2
  | resume => exact keeps_reply (Driver.keeps_resume hpower fun core m h _ => hfifo core m _ h) _
  | runtimeSuspend => exact keeps_reply (Driver.keeps_runtimeSuspend hpower) _
  | runtimeResume => exact keeps_reply (Driver.keeps_runtimeResume hpower) _
  | setStreaming on =>
    exact keeps_reply (Driver.keeps_setStreaming on fun core m h => hfifo core m _ h) _
  | getConfig => exact keeps_reply Driver.keeps_getCore _
  | getPower => exact keeps_reply Driver.keeps_getCore _
  | isSuspended => exact keeps_reply Driver.keeps_getCore _

namespace Driver

/-- Writing one register after the other has each hold its part of the configuration. -/
theorem leads_writes (config : DeviceConfig) (rs done : List ConfigRegister) :
    Leads (fun _ m => ∀ r ∈ done, m r.address = config.encode r)
      (fun _ m => ∀ r ∈ done ++ rs, m r.address = config.encode r)
      (rs.forM fun r => write r.address (config.encode r)) := by
  induction rs generalizing done with
  | nil =>
    rw [List.append_nil]
    exact (keeps_pure ()).leads
  | cons r rs ih =>
    have hrest := ih (done ++ [r])
    rw [List.append_assoc] at hrest
    refine Leads.bind ?_ fun _ => hrest
    apply leads_write (r.isRegular_write _)
    intro core m hdone t ht
    by_cases htr : t = r
    · rw [htr, Memory.write_same]
    · have ha : t.address ≠ r.address := fun he => htr (ConfigRegister.address_injective he)
      rw [Memory.write_of_ne m _ ha]
      rcases List.mem_append.mp ht with ht | ht
      · exact hdone t ht
      · exact absurd (List.mem_singleton.mp ht) htr

/-- Loading a configuration brings all registers to it, whatever they held. -/
theorem leads_load (config : DeviceConfig) :
    Leads (fun _ _ => True) Core.Mirrored (load config) := by
  have hwrites : Leads (fun _ _ => True) (fun _ m => ∀ r : ConfigRegister,
      m r.address = config.encode r)
      (ConfigRegister.all.forM fun r => write r.address (config.encode r)) := by
    intro s hs a t hexec
    obtain ⟨hin, hall⟩ := leads_writes config ConfigRegister.all [] s ⟨hs.1, by simp⟩ a t hexec
    exact ⟨hin, fun r => hall r r.mem_all⟩
  exact hwrites.bind fun _ => leads_modifyCore fun core m h => h

/-- A check leaves the bus in step. -/
theorem keeps_check {a : Address} (ha : Register.IsReachable a) (fails : Byte → Prop)
    [DecidablePred fails] (error : Byte → DriverError) :
    Keeps (fun _ _ => True) (check a fails error) := by
  refine (keeps_read ha).bind fun found => ?_
  split
  · exact keeps_throw _
  · exact keeps_pure ()

/-- The steps of a set-up leave the bus in step. -/
theorem SetUpStep.keeps {chip : Chip} {x : Driver Unit} (hx : SetUpStep chip x) :
    Keeps (fun _ _ => True) x := by
  have hregular : ∀ {a : Address}, Register.IsOrdinary a → ∀ v,
      (RegisterOp.write a v).IsRegular := fun ha _ => ⟨ha.isReachable, ha.not_bankSelect⟩
  cases hx with
  | write ha _ v => exact keeps_register (hregular ha v) fun _ _ _ => trivial
  | update ha _ mask value =>
    have hop : (RegisterOp.update _ mask value).IsRegular := hregular ha value
    exact keeps_register hop fun _ _ _ => trivial
  | sleep d => exact keeps_sleep d
  | identify => exact keeps_check (Register.isReachable_bank0 (by decide)) _ _
  | confirm => exact keeps_check (Register.isReachable_bank0 (by decide)) _ _
  | record config => exact keeps_modifyCore fun _ _ _ => trivial

/-- An update of another register does not matter. -/
theorem keeps_update_other {offset : Byte} (hoffset : offset < 0x80)
    (hselect : offset ≠ Register.bankSelect)
    (ha : ∀ r : ConfigRegister, r.address ≠ Register.address Register.bank0 offset)
    (mask value : Byte) :
    Keeps Core.Mirrored (update (Register.address Register.bank0 offset) mask value) :=
  keeps_register (Register.isRegular_update_bank0 hoffset hselect mask value) fun _ _ h =>
    h.write_of_ne ha

/-- The registers that are set up after the configuration hold no part of it. -/
theorem address_ne_setUp (r : ConfigRegister) : ∀ a ∈ [Register.tmstConfig, Register.intConfig,
    Register.intConfig1, Register.intSource0], r.address ≠ a := by
  cases r <;> decide

/-- Setting up the interrupt pin touches no register of the configuration. -/
theorem keeps_armInterrupt (config : PinSetup) : Keeps Core.Mirrored (armInterrupt config) := by
  have hwrite : Keeps Core.Mirrored (write Register.intConfig config.encode) :=
    keeps_register (Register.isRegular_write_bank0 (by decide) (by decide) _) fun _ _ h =>
      h.write_of_ne fun r => address_ne_setUp r _ (by decide)
  refine hwrite.bind fun _ => Keeps.bind ?_ fun _ => ?_
  · exact keeps_update_other (by decide) (by decide)
      (fun r => address_ne_setUp r Register.intConfig1 (by decide)) _ _
  · exact keeps_update_other (by decide) (by decide)
      (fun r => address_ne_setUp r Register.intSource0 (by decide)) _ _

/-- A chip that was set up mirrors its default configuration. -/
theorem leads_setUp (chip : Chip) (interrupt : PinSetup) :
    Leads (fun _ _ => True) Core.Mirrored (setUp chip interrupt) := by
  have hreset : Keeps (fun _ _ => True) reset :=
    (straight_reset chip).holds sequential_keeps SetUpStep.keeps
  have horder : SetUpStep chip (update Register.intfConfig0 Register.bigEndianData 0) :=
    .update_of_mem (by decide) _ _
  have hclock : Keeps Core.Mirrored (update Register.tmstConfig Register.timestampMask
      (Register.timestampToRegisters ||| Register.timestampEnable)) :=
    keeps_update_other (by decide) (by decide)
      (fun r => address_ne_setUp r Register.tmstConfig (by decide)) _ _
  have hdone : Keeps Core.Mirrored (modifyCore fun c =>
      { c with power := { enabled := true, active := true } }) :=
    keeps_modifyCore fun _ _ h => h
  refine SetUpStep.identify.keeps.leads.bind fun _ => hreset.leads.bind fun _ => ?_
  refine horder.keeps.leads.bind fun _ => (leads_load chip.defaultConfig).bind fun _ => ?_
  exact (hclock.bind fun _ => (keeps_armInterrupt interrupt).bind fun _ => hdone).leads

/-- A power-up that succeeds ends with the registers mirroring the record, whatever they held. -/
theorem leads_powerUp (chip : Chip) (interrupt : PinSetup) :
    Leads (fun _ _ => True) Core.Mirrored (powerUp chip interrupt) := by
  have hswitch : ∀ r on, Keeps (fun _ _ => True) (switch r on) :=
    fun r on => keeps_switch r on fun _ _ _ => trivial
  have hsupply : Leads (fun _ _ => True) Core.Mirrored (supplyAndSetUp chip interrupt) := by
    refine (hswitch .vdd true).leads.bind fun _ => (keeps_sleep _).leads.bind fun _ => ?_
    have hinterface : Keeps (fun _ _ => True) interfaceOn :=
      (hswitch .vddio true).bind fun _ => keeps_sleep _
    exact hinterface.leads.bind fun _ => leads_setUp chip interrupt
  intro s hs a t hexec
  unfold powerUp at hexec
  rw [exec_tryCatch] at hexec
  rcases hx : exec (supplyAndSetUp chip interrupt) s with ⟨e | answer, u⟩
  · -- What failed is reported after the rails were released.
    rw [hx] at hexec
    dsimp only at hexec
    rw [exec_bind] at hexec
    rcases hrelease : exec releaseRails u with ⟨e' | _, v⟩
    · rw [hrelease] at hexec
      cases hexec
    · rw [hrelease] at hexec
      cases hexec
  · rw [hx] at hexec
    cases hexec
    exact hsupply s hs answer _ hx

end Driver

end Inertial
