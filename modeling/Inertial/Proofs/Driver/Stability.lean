import Inertial.Proofs.Driver.Agreement
import Inertial.Proofs.Driver.Composition

/-!
# What each call asks of a relation

For each driver and each call this is what a relation between the record of the device and the
registers has to survive so that the call keeps it. A relation that survives changes of power is
kept by suspending and resuming, and one that survives the change of one register at a time is kept
by changes of the configuration.
-/

set_option autoImplicit false

namespace Inertial

/-- A configuration register is written regularly. -/
theorem ConfigRegister.isRegular_write (r : ConfigRegister) (v : Byte) :
    (RegisterOp.write r.address v).IsRegular := by
  cases r <;> exact Register.isRegular_write_bank0 (by decide) (by decide) v

namespace Driver

variable {α β : Type} {n : Nat} {J K : Core → Memory → Prop} {Known : Core → Prop}

/-! ## From steps to drivers -/

/-- Begun where `J` holds and the record is as known, the driver has `J` hold at every wait and at
its end. -/
def KeepsFrom (J : Core → Memory → Prop) (Known : Core → Prop) (x : Driver α) : Prop :=
  ∀ s : System, s.Agrees J → Known s.core →
    x.Upholds (System.Agrees J) (fun _ t => t.Agrees J) s

/-- What is kept whatever the record may be is kept if something is known of it. -/
theorem Keeps.keepsFrom {x : Driver α} (hx : Keeps J x) : KeepsFrom J Known x :=
  fun s hs _ => hx s hs

/-- A driver keeps a relation that its steps keep. Each step is begun where the relation holds, and
what is known of the record is what the last look at it has shown. -/
theorem Composed.keepsFrom {S : Steps} {L : Nat → Driver α → Prop} {x : Driver α}
    (hS : ∀ {n Known x}, S n Known x → KeepsFrom J Known x) (hL : ∀ {n x}, L n x → Keeps J x)
    (hx : Composed S L n Known x) : KeepsFrom J Known x := by
  induction hx with
  | last hx => exact (hL hx).keepsFrom
  | look _ ih =>
    intro s hs _
    rw [upholds_bind, upholds_getCore]
    exact ih s.core s hs rfl
  | step hx _ ih =>
    intro s hs hknown
    rw [upholds_bind]
    refine (hS hx s hs hknown).mono ?_
    intro r t ht
    cases r with
    | ok _ => exact ih t ht trivial
    | error e => exact ht
  | weaken _ _ hknown ih => exact fun s hs h => ih s hs (hknown s.core h)

/-- A driver that may be begun whatever is on record keeps a relation that its steps keep. -/
theorem Composed.keeps {S : Steps} {L : Nat → Driver α → Prop} {x : Driver α}
    (hS : ∀ {n Known x}, S n Known x → KeepsFrom J Known x) (hL : ∀ {n x}, L n x → Keeps J x)
    (hx : Composed S L n (fun _ => True) x) : Keeps J x :=
  fun s hs => hx.keepsFrom hS hL s hs trivial

/-- What both of two steps keep they keep one after the other. -/
theorem sequential_keeps : Sequential fun _ x => Keeps J x where
  pure := keeps_pure
  bind := Keeps.bind

/-- An answer keeps every relation. -/
theorem Answers.keeps {x : Driver α} (hx : Answers n x) : Keeps J x := by
  cases hx with
  | pure a => exact keeps_pure a

/-! ## Power -/

/-- A relation that survives a change of what runs. -/
def ModeStable (J : Core → Memory → Prop) : Prop :=
  ∀ core m p, J core m → J { core with config := core.config.withPower p }
    (m.write Register.pwrMgmt0 (PowerRegister.encode p))

/-- A relation that survives what changes the power of the device: changing what runs, switching
rails and noting the runtime state. -/
structure PowerStable (J : Core → Memory → Prop) : Prop where
  modes : ModeStable J
  rails : ∀ core m rails, J core m → J { core with rails } m
  runtime : ∀ core m power, J core m → J { core with power } m

/-- A wait for the output keeps every relation. -/
theorem keeps_settle (d : Duration) : Keeps J (settle d) := by
  unfold settle
  split
  · exact keeps_sleep _
  · exact keeps_pure ()

/-- The power register is written and recorded at once. -/
theorem PowerStep.keepsFrom {x : Driver Unit} (hx : PowerStep n Known x) (hJ : ModeStable J) :
    KeepsFrom J Known x := by
  cases hx with
  | @store _ config p hconfig =>
    intro s hs hknown
    refine upholds_write_bind (f := fun c => { c with config }) hs
      (ConfigRegister.isRegular_write .power _) ?_
    rw [hconfig s.core hknown]
    exact hJ _ _ p hs.2
  | sleep d => exact (keeps_sleep d).keepsFrom

/-- A change of what runs keeps what survives such a change. -/
theorem keeps_setPower (hJ : ModeStable J) (p : PowerState) : Keeps J (setPower p) :=
  (composed_setPower p).keeps (fun h => h.keepsFrom hJ) Answers.keeps

/-- So does a change of what runs that waits for the output. -/
theorem keeps_setPowerAndWait (hJ : ModeStable J) (p : PowerState) :
    Keeps J (setPowerAndWait p) :=
  (composed_setPowerAndWait p).keeps (fun h => h.keepsFrom hJ) Answers.keeps

/-- Turning the interface on notes a rail and waits. -/
theorem keeps_interfaceOn (hJ : PowerStable J) : Keeps J interfaceOn :=
  (keeps_switch .vddio true fun core m h => hJ.rails core m _ h).bind fun _ => keeps_sleep _

/-- Turning the interface off notes a rail. -/
theorem keeps_interfaceOff (hJ : PowerStable J) : Keeps J interfaceOff :=
  keeps_switch .vddio false fun core m h => hJ.rails core m _ h

/-- What survives changes of power survives each step that makes one. -/
theorem SupplyStep.keepsFrom {x : Driver Unit} (hx : SupplyStep n Known x) (hJ : PowerStable J) :
    KeepsFrom J Known x := by
  cases hx with
  | setPowerAndWait p => exact (keeps_setPowerAndWait hJ.modes p).keepsFrom
  | interfaceOn => exact (keeps_interfaceOn hJ).keepsFrom
  | interfaceOff => exact (keeps_interfaceOff hJ).keepsFrom
  | runtime f => exact (keeps_modifyCore fun core m h => hJ.runtime core m _ h).keepsFrom

/-- A runtime suspension keeps what survives changes of power. -/
theorem keeps_runtimeSuspend (hJ : PowerStable J) : Keeps J runtimeSuspend :=
  composed_runtimeSuspend.keeps (fun h => h.keepsFrom hJ) Answers.keeps

/-- So does the end of one. -/
theorem keeps_runtimeResume (hJ : PowerStable J) : Keeps J runtimeResume :=
  composed_runtimeResume.keeps (fun h => h.keepsFrom hJ) Answers.keeps

/-- Writing the FIFO register is regular. -/
theorem isRegular_write_fifoConfig (v : Byte) :
    (RegisterOp.write Register.fifoConfig v).IsRegular :=
  Register.isRegular_write_bank0 (by decide) (by decide) v

/-- Turning the FIFO on or off keeps what the write keeps. -/
theorem upholds_setFifo {s : System} (hs : s.Agrees J) (stream : Bool)
    (hmem : J s.core (s.bench.chip.memory.write Register.fifoConfig
      (if stream then Register.fifoStream else Register.fifoBypass))) :
    Upholds (System.Agrees J) (fun _ t => t.Agrees J) (setFifo stream) s :=
  upholds_write hs (isRegular_write_fifoConfig _) hmem

/-- The FIFO is told something only if it is to take samples, so the relation has to survive that
only where the record says so. -/
theorem LifeStep.keepsFrom {stream : Bool} {x : Driver Unit} (hx : LifeStep stream n Known x)
    (hJ : PowerStable J)
    (hfifo : ∀ core m, J core m → core.streaming = true → J core (m.write Register.fifoConfig
      (if stream then Register.fifoStream else Register.fifoBypass))) :
    KeepsFrom J Known x := by
  cases hx with
  | supply hx => exact hx.keepsFrom hJ
  | setFifo hknown =>
    intro s hs h
    exact upholds_setFifo hs stream (hfifo _ _ hs.2 (hknown s.core h))

/-- A resume also turns the FIFO on, if it was on. -/
theorem keeps_resume (hJ : PowerStable J)
    (hstream : ∀ core m, J core m → core.streaming = true →
      J core (m.write Register.fifoConfig Register.fifoStream)) : Keeps J resume :=
  composed_resume.keeps (fun h => h.keepsFrom hJ hstream) Answers.keeps

/-- A suspend first notes what runs; if that makes `J` hold, the rest keeps it. The FIFO is turned
off only if it is on. -/
theorem upholds_suspend (hJ : PowerStable J)
    (hbypass : ∀ core m, J core m → core.streaming = true →
      J core (m.write Register.fifoConfig Register.fifoBypass))
    {s : System} (hin : s.bench.InStep)
    (hs : J { s.core with saved := s.core.config.power } s.bench.chip.memory) :
    Upholds (System.Agrees J) (fun _ t => t.Agrees J) suspend s := by
  have hoff : Keeps J turnOff :=
    composed_turnOff.keeps (fun h => h.keepsFrom hJ hbypass) Answers.keeps
  rw [suspend_eq, upholds_bind, upholds_modifyCore]
  exact hoff _ ⟨hin, hs⟩

/-- Streaming keeps what survives the flag for it. -/
theorem keeps_setStreaming (on : Bool)
    (hset : ∀ core m, J core m → J { core with streaming := on }
      (m.write Register.fifoConfig (if on then Register.fifoStream else Register.fifoBypass))) :
    Keeps J (setStreaming on) := by
  intro s hs
  exact upholds_write_bind hs (isRegular_write_fifoConfig _) (hset _ _ hs.2)

/-! ## Configuration -/

/-- A relation that survives a change of what one register holds of the configuration. -/
def StoreStable (J : Core → Memory → Prop) : Prop :=
  ∀ core m (r : ConfigRegister) (config : DeviceConfig), J core m →
    (∀ t, t ≠ r → config.encode t = core.config.encode t) →
    J { core with config } (m.write r.address (config.encode r))

/-- What runs is in the power register only. -/
theorem StoreStable.modes (hJ : StoreStable J) : ModeStable J := by
  intro core m p h
  refine hJ core m .power (core.config.withPower p) h ?_
  intro t ht
  cases t with
  | power => exact absurd rfl ht
  | _ => rfl

/-- Each register is written and recorded at once. -/
theorem SettingStep.keepsFrom {x : Driver Unit} (hx : SettingStep n Known x)
    (hJ : StoreStable J) : KeepsFrom J Known x := by
  cases hx with
  | @store _ r config _ _ hother =>
    intro s hs hknown
    exact upholds_write_bind (f := fun c => { c with config }) hs (r.isRegular_write _)
      (hJ _ _ r config hs.2 (hother s.core hknown))

/-- A driver that changes settings and ends with a change of what runs keeps what survives changes
of the configuration. -/
theorem Composed.keeps_of_settings {x : Driver Duration}
    (hx : Composed SettingStep SetsPower n (fun _ => True) x) (hJ : StoreStable J) : Keeps J x := by
  refine hx.keeps (fun h => h.keepsFrom hJ) ?_
  intro n x hx
  cases hx with
  | setPower p => exact keeps_setPower hJ.modes p

/-! ## Samples -/

/-- Reading a register keeps every relation. -/
theorem keeps_read {a : Address} (ha : Register.IsReachable a) : Keeps J (read a) :=
  keeps_register (show (RegisterOp.read a).IsRegular from ha) fun _ _ h => h

/-- So does reading the data. -/
theorem keeps_readData : Keeps J readData := by
  refine (keeps_read (Register.isReachable_bank0 (by decide))).bind fun status => ?_
  split
  · exact keeps_pure none
  · refine Keeps.bind ?_ fun raw => keeps_pure _
    have hop : (RegisterOp.readBlock Register.accelData RawBlock.size).IsRegular :=
      ⟨Register.isReachable_bank0 (by decide), by decide⟩
    exact keeps_register hop fun _ _ h => h

/-- Taking a sample keeps every relation: it reads, and the sink only causes edges. -/
theorem keeps_takeSample {σ : Type} [Sink σ] (timestamp : Int64) (sink : σ) :
    (takeSample timestamp sink).Keeps J := by
  have hraise : ∀ (edges : List Int64), (edges.forM fun now => act (.raise now)).Keeps J := by
    intro edges
    induction edges with
    | nil =>
      intro s hs
      exact hs
    | cons now edges ih =>
      intro s hs
      change Routine.Upholds _ _ (act (.raise now) >>= fun _ => edges.forM fun now =>
        act (.raise now)) s
      rw [Routine.upholds_bind]
      exact ih _ hs
  intro s hs
  unfold takeSample
  rw [Routine.upholds_bind]
  refine Routine.Upholds.mono (keeps_readData s hs) ?_
  intro r t ht
  rcases r with e | _ | raw
  · exact ht
  · exact ht
  · dsimp only
    split
    · rw [Routine.upholds_bind]
      have hpush : (t.log (.push (.ofRaw raw timestamp))).Agrees J := ht
      change Routine.Upholds _ _ (((Sink.push (.ofRaw raw timestamp) sink).1.forM fun now =>
        act (.raise now)) >>= fun _ => pure _) (t.log (.push (.ofRaw raw timestamp)))
      rw [Routine.upholds_bind]
      exact hraise _ _ hpush
    · exact ht

end Driver

/-! ## Calls -/

/-- Taking a wake-up out of the inbox touches nothing else. -/
theorem System.takeWakeUp?_eq_some {s t : System} (h : s.takeWakeUp? = some t) :
    ∃ i, t = s.withInbox i := by
  unfold System.takeWakeUp? at h
  obtain ⟨i, _, rfl⟩ := Option.map_eq_some_iff.mp h
  exact ⟨i, rfl⟩

namespace Operation

variable {J : Core → Memory → Prop} {α : Type}

/-- How a result is reported does not matter. -/
theorem keeps_reply {x : Driver α} (hx : x.Keeps J) (f : α → Reply) : (reply x f).Keeps J := by
  intro s hs
  unfold reply
  rw [Routine.upholds_bind]
  refine Routine.Upholds.mono (hx s hs) ?_
  intro r t ht
  cases r <;> exact ht

/-- Nor does whether a change is waited for. -/
theorem keeps_settling {x : Driver Duration} (hx : x.Keeps J) (wait : Bool) :
    (settling wait x).Keeps J := by
  unfold settling
  split
  · exact keeps_reply (hx.bind Driver.keeps_settle) _
  · exact keeps_reply hx _

end Operation

namespace Routine

variable {J : Core → Memory → Prop} {α β : Type}

/-- Nor does what becomes of the result. -/
theorem Keeps.map {x : Routine α} (hx : x.Keeps J) (f : α → β) : (f <$> x).Keeps J := by
  intro s hs
  rw [← bind_pure_comp, upholds_bind]
  exact hx s hs

end Routine

namespace Task

variable {J : Core → Memory → Prop} {σ : Type} [Sink σ]

/-- A sample call keeps every relation, whatever its sink does. -/
theorem keeps_processBody (timestamp : Int64) (sink : σ) :
    (processBody timestamp sink).Keeps J := by
  intro s hs
  unfold processBody
  rw [Routine.upholds_bind]
  exact Driver.keeps_takeSample timestamp sink s hs

/-- So does a worker for each wake-up. -/
theorem keeps_serveBody (timestamp : Int64) (sink : σ) : (serveBody timestamp sink).Keeps J := by
  intro s hs
  unfold serveBody
  rw [Routine.upholds_bind]
  exact Driver.keeps_takeSample timestamp sink s hs

end Task

end Inertial
