import Inertial.Proofs.Shared.Reachable
import Inertial.Proofs.Shared.Sequence

/-!
# Suspending and resuming

A suspend takes note of what runs, and a resume that succeeds brings it back. In between the device
may be suspended and resumed at run time, resumes may fail, and samples may be taken: none of this
touches the note, nor any setting that does not say what runs (`SuspendedFrom`).
-/

set_option autoImplicit false

namespace Inertial

/-- The device is as a suspend left it, but for what runs and what is supplied: `before` is the
record from before the suspend, and `fifo` is what the FIFO register held. -/
structure SuspendedFrom (before : Core) (fifo : Byte) (core : Core) (m : Memory) : Prop where
  mirrored : core.Mirrored m
  config : core.config = before.config.withPower core.config.power
  saved : core.saved = before.config.power
  streaming : core.streaming = before.streaming
  fifo_eq : before.streaming = false → m Register.fifoConfig = fifo

namespace SuspendedFrom

variable {before core : Core} {fifo : Byte} {m : Memory}

/-- A FIFO that is on may be turned off and on again. -/
theorem write_fifoConfig (h : SuspendedFrom before fifo core m) (hon : core.streaming = true)
    (v : Byte) : SuspendedFrom before fifo core (m.write Register.fifoConfig v) := by
  refine ⟨h.mirrored.write_of_ne ConfigRegister.address_ne_fifoConfig, h.config, h.saved,
    h.streaming, ?_⟩
  intro hoff
  rw [← h.streaming, hon] at hoff
  cases hoff

/-- What was saved survives every change of power. -/
theorem powerStable : Driver.PowerStable (SuspendedFrom before fifo) where
  modes := by
    intro core m p h
    refine ⟨Core.powerStable_mirrored.modes core m p h.mirrored, ?_, h.saved, h.streaming, ?_⟩
    · change core.config.withPower p = before.config.withPower p
      rw [h.config, DeviceConfig.withPower_withPower]
    · intro hoff
      rw [Memory.write_of_ne m _ (by decide)]
      exact h.fifo_eq hoff
  rails := fun _ _ _ h => ⟨h.mirrored, h.config, h.saved, h.streaming, h.fifo_eq⟩
  runtime := fun _ _ _ h => ⟨h.mirrored, h.config, h.saved, h.streaming, h.fifo_eq⟩

end SuspendedFrom

namespace Driver

variable {J : Core → Memory → Prop}

/-- A change of what runs that succeeds has the wished run. -/
theorem leads_setPowerAndWait (hJ : ModeStable J) (p : PowerState) :
    Leads J (fun core m => J core m ∧ core.config.power = p) (setPowerAndWait p) := by
  have hset : Leads J (fun core m => J core m ∧ core.config.power = p) (setPower p) := by
    unfold setPower
    apply leads_getCore_bind
    intro core
    dsimp only
    split
    · rename_i hp
      intro s hs a t hexec
      cases hexec
      obtain ⟨hin, hcore, hJs⟩ := hs
      subst hcore
      exact ⟨hin, hJs, hp.symm⟩
    · have hstore : Leads (fun core' m => core' = core ∧ J core m)
          (fun core m => J core m ∧ core.config.power = p)
          (store .power (core.config.withPower p)) := by
        refine Leads.bind (K := fun core' m => core' = core ∧
            J { core with config := core.config.withPower p } m) ?_ fun _ => ?_
        · exact leads_write (ConfigRegister.isRegular_write .power _) fun core' m h =>
            ⟨h.1, hJ core m p h.2⟩
        · apply leads_modifyCore
          intro core' m h
          rw [h.1]
          exact ⟨h.2, rfl⟩
      refine hstore.bind fun _ => ?_
      split
      · exact ((keeps_sleep _).bind fun _ => keeps_pure _).leads
      · exact (keeps_pure _).leads
  exact hset.bind fun settle => (keeps_settle settle).leads

/-- What is left of a suspended device when it has been resumed. -/
structure ResumedFrom (before : Core) (fifo : Byte) (core : Core) (m : Memory) : Prop where
  suspended : SuspendedFrom before fifo core m
  supplied : core.rails.vddio = true
  active : core.power = { enabled := true, active := true }

/-- A resume that succeeds ends with the interface supplied, the device active, what was noted
running, and the FIFO on if it was to be. -/
theorem leads_resume {before : Core} {fifo : Byte} :
    Leads (SuspendedFrom before fifo)
      (fun core m => ResumedFrom before fifo core m ∧ core.config.power = before.config.power ∧
        (before.streaming = true → m Register.fifoConfig = Register.fifoStream))
      resume := by
  have hstable : ModeStable (ResumedFrom before fifo) := fun core m p h =>
    ⟨SuspendedFrom.powerStable.modes core m p h.suspended, h.supplied, h.active⟩
  have hsupply : Leads (SuspendedFrom before fifo)
      (fun core m => SuspendedFrom before fifo core m ∧ core.rails.vddio = true) interfaceOn := by
    refine Leads.bind (leads_switch ?_) fun _ => (keeps_sleep _).leads
    intro core m h
    exact ⟨SuspendedFrom.powerStable.rails core m _ h, rfl⟩
  have hactive : Leads (fun core m => SuspendedFrom before fifo core m ∧ core.rails.vddio = true)
      (ResumedFrom before fifo)
      (modifyCore fun c => { c with power := { enabled := true, active := true } }) :=
    leads_modifyCore fun core m h =>
      ⟨SuspendedFrom.powerStable.runtime core m _ h.1, h.2, rfl⟩
  have hmodes : ∀ core, Leads (fun core' m => core' = core ∧ ResumedFrom before fifo core m)
      (fun core m => ResumedFrom before fifo core m ∧ core.config.power = before.config.power)
      (setPowerAndWait core.saved) := by
    intro core s hs a t hexec
    obtain ⟨hin, hcore, h⟩ := hs
    rw [h.suspended.saved] at hexec
    exact leads_setPowerAndWait hstable _ s ⟨hin, hcore ▸ h⟩ a t hexec
  have hfifo : Leads
      (fun core m => ResumedFrom before fifo core m ∧ core.config.power = before.config.power)
      (fun core m => ResumedFrom before fifo core m ∧ core.config.power = before.config.power ∧
        (before.streaming = true → m Register.fifoConfig = Register.fifoStream))
      (getCore >>= fun core => if core.streaming then setFifo true else pure ()) := by
    apply leads_getCore_bind
    intro core
    split
    · rename_i hon
      have hop := Register.isRegular_write_bank0 (by decide : (0x16 : Byte) < 0x80) (by decide)
        Register.fifoStream
      apply leads_write hop
      rintro _ m ⟨rfl, h, hpower⟩
      refine ⟨⟨h.suspended.write_fifoConfig hon _, h.supplied, h.active⟩, hpower, ?_⟩
      intro _
      exact Memory.write_same m _ _
    · rename_i hoff
      rintro s ⟨hin, rfl, h, hpower⟩ a t hexec
      cases hexec
      refine ⟨hin, h, hpower, ?_⟩
      intro hon
      rw [← h.suspended.streaming] at hon
      exact absurd hon hoff
  -- The four steps in the order in which a resume takes them.
  refine hsupply.bind fun _ => hactive.bind fun _ => ?_
  exact leads_getCore_bind fun core => (hmodes core).bind fun _ => hfifo

end Driver

namespace Call

variable {σ : Type} [Sink σ]

/-- A call that neither changes the configuration nor suspends the device. -/
def LeavesConfig : Call σ → Prop
  | .operation op =>
    op ∈ [.resume, .runtimeSuspend, .runtimeResume, .getConfig, .getPower, .isSuspended]
  | _ => True

omit [Sink σ] in
/-- Calls that leave the configuration alone keep what was saved. -/
theorem LeavesConfig.keeps {op : Operation} (hop : (Call.operation op : Call σ).LeavesConfig)
    (before : Core) (fifo : Byte) : op.body.Keeps (SuspendedFrom before fifo) := by
  have hpower : Driver.PowerStable (SuspendedFrom before fifo) := SuspendedFrom.powerStable
  cases op with
  | resume =>
    exact Operation.keeps_reply
      (Driver.keeps_resume hpower fun _ _ h hon => h.write_fifoConfig hon _) _
  | runtimeSuspend => exact Operation.keeps_reply (Driver.keeps_runtimeSuspend hpower) _
  | runtimeResume => exact Operation.keeps_reply (Driver.keeps_runtimeResume hpower) _
  | getConfig => exact Operation.keeps_reply Driver.keeps_getCore _
  | getPower => exact Operation.keeps_reply Driver.keeps_getCore _
  | isSuspended => exact Operation.keeps_reply Driver.keeps_getCore _
  | _ => simp [LeavesConfig] at hop

/-- A suspend, further calls that leave the configuration alone, and a resume that succeeds bring
back the configuration from before the suspend. The FIFO is on if it was and otherwise as it was,
the interface is supplied and the device is active. Any call before the last resume may fail. -/
theorem config_of_suspend_resume {s v : System} (hs : s.IsReachable) (wakeUps : Nat)
    {calls : List (Call σ)} (hcalls : ∀ c ∈ calls, c.LeavesConfig)
    (hresume : (Call.operation .resume : Call σ).perform wakeUps
      (performAll wakeUps calls ((Call.operation .suspend : Call σ).perform wakeUps s).2).2 =
        (some .ok, v)) :
    v.core.config = s.core.config ∧
      (∀ r : ConfigRegister, v.bench.chip.memory r.address = s.core.config.encode r) ∧
      v.core.streaming = s.core.streaming ∧
      v.bench.chip.memory Register.fifoConfig =
        (if s.core.streaming then Register.fifoStream
          else s.bench.chip.memory Register.fifoConfig) ∧
      v.core.rails.vddio = true ∧ v.core.power = { enabled := true, active := true } := by
  obtain ⟨hin, hmirror⟩ := hs.agrees
  let J := SuspendedFrom s.core (s.bench.chip.memory Register.fifoConfig)
  have hsuspend : ((Call.operation .suspend : Call σ).perform wakeUps s).2.Agrees J := by
    have hsaved : J { s.core with saved := s.core.config.power } s.bench.chip.memory :=
      ⟨hmirror, rfl, rfl, rfl, fun _ => rfl⟩
    have hup := Driver.upholds_exec (Driver.upholds_suspend SuspendedFrom.powerStable
      (fun _ _ h hon => h.write_fifoConfig hon _) hin hsaved)
    rw [perform, Operation.body, Operation.run_reply_snd]
    exact hup
  have hbetween := agrees_performAll (fun op hop => (hcalls _ hop).keeps _ _) wakeUps hsuspend
  -- What the calls in between did does not matter beyond what they keep.
  generalize performAll wakeUps calls _ = u at hresume hbetween
  have hexec : Driver.resume.exec u.2 = (.ok (), v) := by
    apply Operation.exec_of_run_reply
    obtain ⟨hok, hv⟩ := Prod.mk.inj hresume
    exact Prod.ext (Option.some.inj hok) hv
  obtain ⟨_, h, hpower, hfifo⟩ := Driver.leads_resume u.2 hbetween () v hexec
  have hconfig : v.core.config = s.core.config := by
    rw [h.suspended.config, hpower, DeviceConfig.withPower_power]
  refine ⟨hconfig, ?_, h.suspended.streaming, ?_, h.supplied, h.active⟩
  · intro r
    rw [← hconfig]
    exact h.suspended.mirrored r
  · cases hon : s.core.streaming with
    | true => exact hfifo hon
    | false => exact h.suspended.fifo_eq hon

/-- A device that streams into its FIFO is suspended and suspended again at run time; the first
resume finds its supply refused, and the second brings everything back. -/
theorem config_of_suspend_refused_resume :
    let bench : Bench := {
      chip := {
        memory := Memory.zero.writeAll [(Register.whoAmI, 0x67), (Register.intStatus, 0x10)] }
      supply := .switched
      plan := { failsSwitch := fun k _ _ => k == 4 } }
    let start :=
      ((Driver.powerUp .icm42670 {}).exec { bench, core := .fresh .icm42670 }).2.withInbox {}
    let streaming : List (Call ScriptedSink) := [.operation (.setStreaming true)]
    let s := ((Pool.ofCalls streaming start).follow 0 [0]).system
    let suspended := ((Call.operation .suspend : Call ScriptedSink).perform 0 s).2
    let calls : List (Call ScriptedSink) :=
      [.operation .runtimeSuspend, .operation .resume, .process {}]
    let between := performAll 0 calls suspended
    let v := ((Call.operation .resume : Call ScriptedSink).perform 0 between.2).2
    s.IsReachable ∧ s.core.config.power ≠ .off ∧ between.2.core.config.power = .off ∧
      between.1.map Prod.fst = [some .ok, some (.failed (.rail .vddio)), some (.sample none)] ∧
      v.core.config = s.core.config ∧
      v.bench.chip.memory Register.fifoConfig = Register.fifoStream := by
  intro bench start streaming s suspended calls between v
  have hstart : start.IsReachable :=
    .powerUp trivial (Except.eq_ok_of_toOption (by decide +kernel))
  have hs : s.IsReachable := hstart.follow (by decide +kernel) _ 0 [0]
  have hcalls : ∀ c ∈ calls, c.LeavesConfig := by
    intro c hc
    simp only [calls, List.mem_cons, List.not_mem_nil, or_false] at hc
    rcases hc with rfl | rfl | rfl
    · simp [LeavesConfig]
    · simp [LeavesConfig]
    · trivial
  have hok : ((Call.operation .resume : Call ScriptedSink).perform 0 between.2).1 = some .ok := by
    decide +kernel
  have hresume : (Call.operation .resume : Call ScriptedSink).perform 0 between.2 =
      (some .ok, v) := by
    rw [← hok]
  obtain ⟨hconfig, _, _, hfifo, _, _⟩ := config_of_suspend_resume hs 0 hcalls hresume
  rw [show s.core.streaming = true by decide +kernel] at hfifo
  refine ⟨hs, by decide +kernel, by decide +kernel, by decide +kernel, hconfig, hfifo⟩

end Call

end Inertial
