import Inertial.Proofs.Driver.FailedPowerUp
import Inertial.Proofs.Driver.Effect

/-!
# Sensors that run after a power-up

A sensor that leaves its off mode needs a pause before the next access. A change of what runs makes
that pause, but a power-up loads a whole configuration at once and does not. This is harmless for
the chips whose default configuration has both sensors off: their power-ups never tell a sensor to
run. The one chip whose sensors run by default has its next register written at once.

`Driver.powerUp_rouses` says what a power-up logs that can matter here, and
`Driver.powerUp_pauses_iff` concludes which power-ups make the pause.
-/

set_option autoImplicit false

namespace Inertial

namespace PowerRegister

open Setting

/-- A sensor is not in its off mode under this content of the power register. -/
def runsSensor (v : Byte) : Bool :=
  accelMode.get v != code SensorMode.off || gyroMode.get v != code SensorMode.off

end PowerRegister

/-- The event writes the power register such that a sensor is not in its off mode. -/
def Event.Rouses (e : Event) (c : SerialChip) : Prop :=
  ∃ v, (Register.pwrMgmt0, v) ∈ e.writes c ∧ PowerRegister.runsSensor v = true

/-- The time for which an event asks to wait. -/
def Event.delayed : Event → Duration
  | .delay d => d.duration
  | _ => .zero

/-- For how many microseconds events ask to wait. -/
def waited : List Event → Nat
  | [] => 0
  | e :: rest => e.delayed.micros + waited rest

/-- One of the events rouses a sensor of the chip. -/
def Rouses (events : List Event) (c : SerialChip) : Prop :=
  ∃ before e after, events = before ++ e :: after ∧ e.Rouses (replay before c)

/-- After a sensor was roused the pause is asked for before the next access. -/
def MakesPause (events : List Event) (c : SerialChip) : Prop :=
  ∀ before e between x ok after, events = before ++ e :: (between ++ .access x ok :: after) →
    e.Rouses (replay before c) → Timing.accessPause ≤ waited between

/-! ## Events that rouse nothing -/

/-- The event rouses no sensor, whatever bank the chip has selected. -/
def Event.IsIdle (e : Event) : Prop :=
  ∀ c, ¬ e.Rouses c

namespace Event

/-- What writes no register rouses no sensor. -/
theorem IsIdle.of_isHarmless {e : Event} (he : e.IsHarmless) : e.IsIdle := by
  rintro c ⟨v, hv, _⟩
  rw [e.writes_of_isHarmless he] at hv
  cases hv

/-- An access that fails rouses no sensor. -/
theorem isIdle_failed (x : Access) : IsIdle (.access x false) := by
  rintro c ⟨v, hv, _⟩
  cases hv

/-- The one byte that the access by which a register is written can write is at the offset of that
register. -/
theorem mem_writes_writeAccess {bus : Bus} {a a' : Address} {v v' : Byte} {ok : Bool}
    {c : SerialChip} (h : (a', v') ∈ (Event.access (bus.writeAccess a v) ok).writes c) :
    Register.offsetOf a' = Register.offsetOf a ∧ v' = v := by
  cases ok with
  | false => cases h
  | true =>
    cases bus with
    | flat =>
      cases List.mem_singleton.mp h
      exact ⟨rfl, rfl⟩
    | serial current =>
      change (a', v') ∈ c.written (Register.offsetOf a) 0 v ++ [] at h
      rw [List.append_nil, SerialChip.written] at h
      split at h
      · cases h
      · rename_i hwrites
        rw [not_or, Classical.not_not] at hwrites
        cases List.mem_singleton.mp h
        have hkeep : ∀ o : Byte, o &&& readBit = 0 → o &&& ~~~readBit = o := by decide
        refine ⟨?_, rfl⟩
        rw [hkeep _ hwrites.1]
        exact Register.offsetOf_address c.bank (Register.offsetOf a)

/-- Writing another register rouses no sensor, and neither does turning the sensors off. -/
theorem isIdle_writeAccess {a : Address} {v : Byte}
    (h : Register.offsetOf Register.pwrMgmt0 ≠ Register.offsetOf a ∨
      PowerRegister.runsSensor v = false) (bus : Bus) (ok : Bool) :
    IsIdle (.access (bus.writeAccess a v) ok) := by
  rintro c ⟨v', hmem, hruns⟩
  obtain ⟨hoffset, rfl⟩ := mem_writes_writeAccess hmem
  rcases h with h | h
  · exact h hoffset
  · rw [h] at hruns
    cases hruns

end Event

namespace Driver

variable {chip : Chip} {interrupt : PinSetup}

/-- A driver that writes no register rouses no sensor. -/
theorem logs_of_isHarmless {α : Type} {x : Driver α} (hx : Logs Event.IsHarmless x) :
    Logs Event.IsIdle x := by
  intro s
  obtain ⟨events, hevents, htrace⟩ := hx s
  exact ⟨events, fun e he => .of_isHarmless (hevents e he), htrace⟩

/-- A write rouses no sensor if it is of another register or leaves both sensors in their off
modes. -/
theorem logs_write {a : Address} {v : Byte}
    (h : Register.offsetOf Register.pwrMgmt0 ≠ Register.offsetOf a ∨
      PowerRegister.runsSensor v = false) : Logs Event.IsIdle (write a v) := by
  intro s
  have hselecting : ∀ x ∈ s.bench.bus.selecting a, ∀ ok, Event.IsIdle (.access x ok) := by
    intro x hx ok
    unfold Bus.selecting at hx
    split at hx
    · cases hx
    · split at hx
      · cases hx
      · rw [List.mem_singleton.mp hx]
        exact .of_isHarmless (Event.isHarmless_selection _ ok)
  have hscript : ∀ x ∈ s.bench.bus.selecting a ++ [s.bench.bus.writeAccess a v], ∀ ok,
      Event.IsIdle (.access x ok) := by
    intro x hx ok
    rcases List.mem_append.mp hx with hx | hx
    · exact hselecting x hx ok
    · rw [List.mem_singleton.mp hx]
      exact Event.isIdle_writeAccess h _ ok
  have htrace : (exec (write a v) s).2.bench.trace =
      ((Bus.write a v).exec s.bench).2.trace := by
    rw [write, exec_register, RegisterOp.perform]
    rcases (Bus.write a v).exec s.bench with ⟨_ | _, _⟩ <;> rfl
  rw [htrace]
  obtain ⟨_, _, hplayed⟩ | ⟨good, last, rest, hsplit, _, hplayed⟩ := Bus.plays_write a v s.bench
  · refine ⟨_, ?_, hplayed⟩
    intro e he
    obtain ⟨x, hx, rfl⟩ := List.mem_map.mp he
    exact hscript x hx true
  · refine ⟨_, ?_, hplayed⟩
    intro e he
    rcases List.mem_append.mp he with he | he
    · obtain ⟨x, hx, rfl⟩ := List.mem_map.mp he
      exact hscript x (hsplit ▸ List.mem_append_left _ hx) true
    · rw [List.mem_singleton.mp he]
      exact Event.isIdle_failed last

/-- An update of another register than that for the power rouses no sensor. -/
theorem logs_update {a : Address} (h : Register.offsetOf Register.pwrMgmt0 ≠ Register.offsetOf a)
    (mask value : Byte) : Logs Event.IsIdle (update a mask value) := by
  intro s
  rw [exec_update]
  refine (logs_of_isHarmless (logs_read a)).bind (fun old => ?_) s
  split
  · exact logs_write (.inl h)
  · exact logs_pure ()

end Driver

/-! ## Loading a configuration -/

/-- At most one of the events rouses a sensor: the one that writes the power register for a
configuration, which is followed at once by the write of the register for the range of the
gyroscope. -/
def RousesAtOnce (config : DeviceConfig) (events : List Event) : Prop :=
  (∀ e ∈ events, e.IsIdle) ∨ ∃ before power gyro ok after,
    events = before ++ .access power true :: .access gyro ok :: after ∧
      (∃ bus : Bus, power = bus.writeAccess Register.pwrMgmt0 (config.encode .power)) ∧
      (∃ bus : Bus, gyro = bus.writeAccess Register.gyroConfig0 (config.encode .gyro)) ∧
      ∀ e ∈ before ++ .access gyro ok :: after, e.IsIdle

namespace RousesAtOnce

variable {config : DeviceConfig} {events idle : List Event}

/-- What rouses nothing may come afterwards. -/
theorem append_idle (h : RousesAtOnce config events) (hidle : ∀ e ∈ idle, e.IsIdle) :
    RousesAtOnce config (events ++ idle) := by
  obtain hall | ⟨before, power, gyro, ok, after, rfl, hpower, hgyro, hall⟩ := h
  · refine .inl fun e he => ?_
    exact (List.mem_append.mp he).elim (hall e) (hidle e)
  · refine .inr ⟨before, power, gyro, ok, after ++ idle, by simp, hpower, hgyro, fun e he => ?_⟩
    rw [← List.cons_append, ← List.append_assoc] at he
    exact (List.mem_append.mp he).elim (hall e) (hidle e)

/-- What rouses nothing may come before. -/
theorem idle_append (h : RousesAtOnce config events) (hidle : ∀ e ∈ idle, e.IsIdle) :
    RousesAtOnce config (idle ++ events) := by
  obtain hall | ⟨before, power, gyro, ok, after, rfl, hpower, hgyro, hall⟩ := h
  · refine .inl fun e he => ?_
    exact (List.mem_append.mp he).elim (hidle e) (hall e)
  · refine .inr ⟨idle ++ before, power, gyro, ok, after, by simp, hpower, hgyro, fun e he => ?_⟩
    rw [List.append_assoc] at he
    exact (List.mem_append.mp he).elim (hidle e) (hall e)

/-- An element of a list with one element marked comes before the mark, is the marked one or comes
after it. -/
theorem mem_or_eq_of_append_cons {before after first rest : List Event} {e marked : Event}
    (h : before ++ e :: after = first ++ marked :: rest) :
    e ∈ first ∨ (e = marked ∧ after = rest) ∨ e ∈ rest := by
  obtain ⟨between, hfirst, hrest⟩ | ⟨between, hfirst, hrest⟩ := List.append_eq_append_iff.mp h
  · cases between with
    | nil => exact .inr (.inl (List.cons.inj hrest))
    | cons _ between =>
      rw [hfirst, (List.cons.inj hrest).1]
      exact .inl (by simp)
  · cases between with
    | nil =>
      obtain ⟨hmarked, hafter⟩ := List.cons.inj hrest
      exact .inr (.inl ⟨hmarked.symm, hafter.symm⟩)
    | cons _ between =>
      rw [(List.cons.inj hrest).2]
      exact .inr (.inr (by simp))

/-- If one of the events rouses a sensor the configuration does, and the next event is the access
that follows at once. -/
theorem of_rouses (h : RousesAtOnce config events) {before after : List Event} {e : Event}
    {c : SerialChip} (hsplit : events = before ++ e :: after) (he : e.Rouses c) :
    PowerRegister.runsSensor (config.encode .power) = true ∧ ∃ (bus : Bus) (ok : Bool) (rest : _),
      after = .access (bus.writeAccess Register.gyroConfig0 (config.encode .gyro)) ok :: rest := by
  obtain hall | ⟨first, power, gyro, ok, rest, hevents, ⟨bus, rfl⟩, ⟨bus', rfl⟩, hall⟩ := h
  · exact absurd he (hall e (by rw [hsplit]; simp) c)
  · -- The event can be none of the idle ones before and after the one write.
    rw [hsplit] at hevents
    rcases mem_or_eq_of_append_cons hevents with hmem | ⟨rfl, rfl⟩ | hmem
    · exact absurd he (hall e (List.mem_append_left _ hmem) c)
    · obtain ⟨v, hmem, hruns⟩ := he
      rw [(Event.mem_writes_writeAccess hmem).2] at hruns
      exact ⟨hruns, bus', ok, rest, rfl⟩
    · exact absurd he (hall e (List.mem_append_right _ hmem) c)

end RousesAtOnce

namespace Driver

variable {chip : Chip} {interrupt : PinSetup}

/-- What is left of loading a configuration once the range of the gyroscope was written. -/
def loadRest (config : DeviceConfig) : Driver Unit := do
  write Register.accelConfig0 (config.encode .accel)
  write Register.gyroAccelConfig0 (config.encode .filters)
  modifyCore fun c => { c with config }

/-- Loading a configuration written out: the power register comes first. -/
theorem load_eq (config : DeviceConfig) :
    load config = (do
      write Register.pwrMgmt0 (config.encode .power)
      write Register.gyroConfig0 (config.encode .gyro)
      loadRest config) := by
  have hall : ConfigRegister.all.forM (fun r => write r.address (config.encode r)) = (do
      write Register.pwrMgmt0 (config.encode .power)
      write Register.gyroConfig0 (config.encode .gyro)
      write Register.accelConfig0 (config.encode .accel)
      write Register.gyroAccelConfig0 (config.encode .filters)
      pure ()) := rfl
  rw [load, hall]
  simp only [bind_assoc, pure_bind, loadRest]

/-- Loading a configuration writes the power register first and the range of the gyroscope next. -/
theorem rousesAtOnce_load (config : DeviceConfig) {s : System} (hs : s.bench.AtFirstBank) :
    ∃ events, RousesAtOnce config events ∧
      (exec (load config) s).2.bench.trace = s.bench.trace ++ events := by
  have hrest : Logs Event.IsIdle (loadRest config) :=
    (logs_write (.inl (by decide))).bind fun _ => (logs_write (.inl (by decide))).bind fun _ =>
      logs_modifyCore _
  have hpower := trace_write hs (by decide : Register.bankOf Register.pwrMgmt0 = _)
    (config.encode .power)
  obtain ⟨hafter, _⟩ := effect_write (by decide : Register.bankOf Register.pwrMgmt0 = _)
    (config.encode .power) s rfl hs
  rw [load_eq, exec_bind]
  rcases hx : exec (write Register.pwrMgmt0 (config.encode .power)) s with ⟨_ | _, t⟩
  · rw [hx] at hpower
    refine ⟨_, .inl ?_, hpower⟩
    intro e he
    rw [List.mem_singleton.mp he]
    exact Event.isIdle_failed _
  · rw [hx] at hpower hafter
    obtain ⟨events, hidle, htrace⟩ := trace_bind_logs
      (write Register.gyroConfig0 (config.encode .gyro)) (fun _ => hrest) t
    rw [trace_write hafter (by decide : Register.bankOf Register.gyroConfig0 = _), hpower,
      List.append_assoc, List.append_assoc] at htrace
    refine ⟨_, .inr ⟨[], _, _, _, events, rfl, ⟨_, rfl⟩, ⟨_, rfl⟩, ?_⟩, htrace⟩
    intro e he
    rcases List.mem_cons.mp he with rfl | he
    · exact Event.isIdle_writeAccess (.inl (by decide)) _ _
    · exact hidle e he

/-! ## The whole power-up -/

/-- What a power-up does until it loads the configuration. -/
def beforeLoad (chip : Chip) : Driver Unit := do
  supply
  identify chip
  reset
  update Register.intfConfig0 Register.bigEndianData 0

/-- What a power-up does after it has loaded the configuration. -/
def afterLoad (interrupt : PinSetup) : Driver Unit := do
  update Register.tmstConfig Register.timestampMask
    (Register.timestampToRegisters ||| Register.timestampEnable)
  armInterrupt interrupt
  modifyCore fun c => { c with power := { enabled := true, active := true } }

/-- A power-up loads the configuration once, with the rest before and after. -/
theorem supplyAndSetUp_eq_beforeLoad (chip : Chip) (interrupt : PinSetup) :
    supplyAndSetUp chip interrupt =
      (beforeLoad chip >>= fun _ => load chip.defaultConfig >>= fun _ => afterLoad interrupt) := by
  simp only [supplyAndSetUp_eq, prepare, beforeLoad, afterLoad, bind_assoc]

/-- Nothing before the configuration is loaded rouses a sensor. -/
theorem logs_beforeLoad (chip : Chip) : Logs Event.IsIdle (beforeLoad chip) := by
  have hreset : Logs Event.IsIdle reset :=
    (logs_write (.inl (by decide))).bind fun _ =>
      (logs_sleep (fun _ he => .of_isHarmless (isHarmless_of_isWait he)) _).bind fun _ =>
        logs_of_isHarmless (logs_check _)
  exact (logs_of_isHarmless logs_supply).bind fun _ => (logs_of_isHarmless (logs_check _)).bind
    fun _ => hreset.bind fun _ => logs_update (by decide) _ _

/-- Nothing after that does either. -/
theorem logs_afterLoad (interrupt : PinSetup) : Logs Event.IsIdle (afterLoad interrupt) :=
  (logs_update (by decide) _ _).bind fun _ => Logs.bind
    ((logs_write (.inl (by decide))).bind fun _ => (logs_update (by decide) _ _).bind fun _ =>
      logs_update (by decide) _ _) fun _ => logs_modifyCore _

/-- What a power-up does until it loads the configuration is a straight line too. -/
theorem straight_beforeLoad : Straight (StartStep chip) (beforeLoad chip) := by
  have hreset : Straight (StartStep chip) reset := (straight_reset chip).mono .setUp
  have hendian : SetUpStep chip (update Register.intfConfig0 Register.bigEndianData 0) :=
    .update_of_mem (by decide) _ _
  exact straight_supply.andThen
    (.step (.setUp .identify) (hreset.andThen (.of_step (.setUp hendian))))

/-- Once the chip was identified its first bank is selected. -/
theorem atFirstBank_of_exec_beforeLoad {s t : System} (h : exec (beforeLoad chip) s = (.ok (), t)) :
    t.bench.AtFirstBank := by
  obtain ⟨_, u, _, h⟩ := exec_bind_eq_ok h
  obtain ⟨_, v, hidentify, h⟩ := exec_bind_eq_ok h
  have hv := atFirstBank_of_exec_identify hidentify
  have hrest : Tunes (do reset; update Register.intfConfig0 Register.bigEndianData 0) :=
    ((straight_reset chip).holds sequential_tunes SetUpStep.tunes).bind fun _ =>
      tunes_register (.update Register.intfConfig0 _ _) rfl
  obtain ⟨hafter, _⟩ := hrest v.core v rfl hv
  rw [h] at hafter
  exact hafter

/-- Whatever fails, a power-up rouses the sensors at most once, by loading the default
configuration, and then makes its next access at once. -/
theorem rousesAtOnce_powerUp (chip : Chip) (interrupt : PinSetup) (s : System) :
    ∃ events, RousesAtOnce chip.defaultConfig events ∧
      (exec (powerUp chip interrupt) s).2.bench.trace = s.bench.trace ++ events := by
  have hsetUp : ∃ events, RousesAtOnce chip.defaultConfig events ∧
      (exec (supplyAndSetUp chip interrupt) s).2.bench.trace = s.bench.trace ++ events := by
    obtain ⟨before, hbefore, htrace⟩ := logs_beforeLoad chip s
    rw [supplyAndSetUp_eq_beforeLoad, exec_bind]
    rcases hx : exec (beforeLoad chip) s with ⟨_ | _, t⟩
    · -- A power-up that fails releases its rails, which rouses nothing.
      rw [hx] at htrace
      exact ⟨before, .inl hbefore, htrace⟩
    · rw [hx] at htrace
      obtain ⟨events, hevents, hload⟩ :=
        rousesAtOnce_load chip.defaultConfig (atFirstBank_of_exec_beforeLoad hx)
      obtain ⟨after, hafter, hend⟩ :=
        trace_bind_logs (load chip.defaultConfig) (fun _ => logs_afterLoad interrupt) t
      rw [hload, htrace, List.append_assoc, List.append_assoc] at hend
      exact ⟨_, (hevents.append_idle hafter).idle_append hbefore, hend⟩
  obtain ⟨events, hevents, htrace⟩ := hsetUp
  rw [exec_powerUp]
  rcases hx : exec (supplyAndSetUp chip interrupt) s with ⟨_ | _, t⟩
  · rw [hx] at htrace
    obtain ⟨interface, core, u, hu, hrelease⟩ := exec_releaseRails t
    have hidle : ∀ r ok, ∀ e ∈ releasing t.core.rails r ok, e.IsIdle := by
      intro r ok e he
      unfold releasing at he
      split at he
      · rw [List.mem_singleton.mp he]
        exact .of_isHarmless fun _ => rfl
      · cases he
    have hreleased : ∀ e ∈ releasing t.core.rails .vddio interface ++
        releasing t.core.rails .vdd core, e.IsIdle :=
      fun e he => (List.mem_append.mp he).elim (hidle _ _ e) (hidle _ _ e)
    refine ⟨_, hevents.append_idle hreleased, ?_⟩
    dsimp only
    rw [hu, hrelease, htrace, List.append_assoc]
  · rw [hx] at htrace
    exact ⟨events, hevents, htrace⟩

/-- Only one chip has sensors that run by default. -/
theorem runsSensor_defaultConfig (chip : Chip) :
    PowerRegister.runsSensor (chip.defaultConfig.encode .power) = true ↔ chip = .icm42670 := by
  cases chip <;> decide

/-- Whatever a driver does, the trace only grows. -/
theorem exists_trace_of_exec {α : Type} {x : Driver α} {s t : System} {r : Except DriverError α}
    (h : exec x s = (r, t)) : ∃ events, t.bench.trace = s.bench.trace ++ events := by
  have hrun := x.run.exists_trace_run s
  rw [show x.run.run s = (r, t) from h] at hrun
  exact hrun

/-- A power-up that succeeds has written the power register, which rouses the sensors if the default
configuration has them run. -/
theorem rouses_of_exec_powerUp {b : Bench} (hin : b.InStep)
    (hruns : PowerRegister.runsSensor (chip.defaultConfig.encode .power) = true) {t : System}
    (h : exec (powerUp chip interrupt) { bench := b, core := .fresh chip } = (.ok (), t))
    {events : List Event} (htrace : t.bench.trace = b.trace ++ events) :
    Rouses events b.chip := by
  have hsetUp := exec_supplyAndSetUp_of_powerUp h
  rw [supplyAndSetUp_eq_beforeLoad, load_eq, bind_assoc] at hsetUp
  obtain ⟨_, s, hbeforeLoad, hloaded⟩ := exec_bind_eq_ok hsetUp
  obtain ⟨_, u, hwrite, hrest⟩ := exec_bind_eq_ok hloaded
  have hin' : s.bench.InStep :=
    (straight_beforeLoad.keepsPace.inPace (inPace_start hin _ (.fresh chip)) hbeforeLoad).inStep
  have hfirst := atFirstBank_of_exec_beforeLoad hbeforeLoad
  obtain ⟨before, _, hbefore⟩ := logs_beforeLoad chip { bench := b, core := .fresh chip }
  rw [hbeforeLoad] at hbefore
  have hpower := trace_write hfirst (by decide : Register.bankOf Register.pwrMgmt0 = _)
    (chip.defaultConfig.encode .power)
  rw [hwrite] at hpower
  obtain ⟨after, hend⟩ := exists_trace_of_exec hrest
  dsimp only at hbefore hpower
  rw [hpower, hbefore, htrace, List.append_assoc, List.append_assoc] at hend
  refine ⟨before, _, after, List.append_cancel_left hend, _, ?_, hruns⟩
  have hreach : Register.IsReachable Register.pwrMgmt0 := Register.isReachable_bank0 (by decide)
  have hwrites := Bus.writes_accessing hin' hreach (by decide) (chip.defaultConfig.encode .power)
  rw [Bus.accessing, Bus.selecting_of_atFirstBank hfirst (by decide), List.map_nil, List.nil_append,
    writes, writes, List.append_nil, chip_exec hbeforeLoad hbefore] at hwrites
  exact hwrites.symm ▸ List.mem_singleton_self _

/-- A chip is powered up, and anything may fail meanwhile. The pause that a sensor needs is made
just if no sensor is roused: a write that rouses one is the write of the power register in the
middle of the default configuration, which the next access follows at once. No power-up rouses a
sensor of a chip whose sensors are off by default, and every power-up that succeeds rouses those of
the other chip. -/
theorem powerUp_pauses_iff {b : Bench} (hin : b.InStep) {chip : Chip} {interrupt : PinSetup}
    {r : Except DriverError Unit} {t : System}
    (h : exec (powerUp chip interrupt) { bench := b, core := .fresh chip } = (r, t))
    {events : List Event} (htrace : t.bench.trace = b.trace ++ events) :
    (MakesPause events b.chip ↔ ¬ Rouses events b.chip) ∧
      (chip ≠ .icm42670 → ¬ Rouses events b.chip) ∧
      (chip = .icm42670 → r = .ok () → Rouses events b.chip) ∧
      ∀ before e after, events = before ++ e :: after → e.Rouses (replay before b.chip) →
        ∃ (bus : Bus) (ok : Bool) (rest : List Event), after =
          .access (bus.writeAccess Register.gyroConfig0 (chip.defaultConfig.encode .gyro)) ok ::
            rest := by
  obtain ⟨events', hatOnce, htrace'⟩ :=
    rousesAtOnce_powerUp chip interrupt { bench := b, core := .fresh chip }
  rw [h, htrace] at htrace'
  cases List.append_cancel_left htrace'
  refine ⟨⟨?_, ?_⟩, ?_, ?_, ?_⟩
  · rintro hpause ⟨before, e, after, hsplit, he⟩
    obtain ⟨_, bus, ok, rest, rfl⟩ := hatOnce.of_rouses hsplit he
    exact absurd (hpause before e [] _ ok rest hsplit he) (by decide)
  · intro hnone before e between x ok after hsplit he
    exact absurd ⟨before, e, _, hsplit, he⟩ hnone
  · rintro hchip ⟨before, e, after, hsplit, he⟩
    exact hchip ((runsSensor_defaultConfig chip).mp (hatOnce.of_rouses hsplit he).1)
  · rintro hchip rfl
    exact rouses_of_exec_powerUp hin ((runsSensor_defaultConfig chip).mpr hchip) h htrace
  · intro before e after hsplit he
    exact (hatOnce.of_rouses hsplit he).2

/-- The range of the gyroscope cannot be written when the sensors were just roused. No pause was
made before that access either. -/
theorem powerUp_pauses_iff_past_fault :
    let bench : Bench := {
      chip := {
        memory := Memory.zero.writeAll [(Register.whoAmI, 0x67), (Register.intStatus, 0x10)] }
      bus := .serial Register.bank0
      supply := .pins
      plan := { failsAccess := fun k _ => k == 5 } }
    let t := (exec (powerUp .icm42670 {}) { bench, core := .fresh .icm42670 }).2
    let range : Access := .serial [.write [Register.offsetOf Register.gyroConfig0, 0x07]]
    Rouses t.bench.trace bench.chip ∧ ¬ MakesPause t.bench.trace bench.chip ∧
      .access range false ∈ t.bench.trace := by
  intro bench t range
  have hrouses : Rouses t.bench.trace bench.chip :=
    ⟨t.bench.trace.take 12,
      .access (.serial [.write [Register.offsetOf Register.pwrMgmt0, 0x2f]]) true,
      t.bench.trace.drop 13, by decide +kernel, 0x2f, by decide +kernel, by decide⟩
  have h : exec (powerUp .icm42670 {}) { bench, core := .fresh .icm42670 } =
      (.error (.bus .transfer), t) := eq_error_of_match (by decide +kernel)
  obtain ⟨hiff, _⟩ := powerUp_pauses_iff (show bench.InStep from rfl) h
    (List.nil_append t.bench.trace).symm
  exact ⟨hrouses, fun hpause => hiff.mp hpause hrouses, by decide +kernel⟩

/-- The sensors are off when the chip whose sensors run by default is powered up, and nothing fails.
The power register is written and so is the next register, with no wait between the two. -/
theorem powerUp_omits_pause :
    let bench : Bench := {
      chip := {
        memory := Memory.zero.writeAll [(Register.whoAmI, 0x67), (Register.intStatus, 0x10)] } }
    let r := exec (powerUp .icm42670 {}) { bench, core := .fresh .icm42670 }
    PowerRegister.runsSensor (bench.chip.memory Register.pwrMgmt0) = false ∧
      r.1.toOption = some () ∧ ¬ MakesPause r.2.bench.trace bench.chip := by
  intro bench r
  refine ⟨by decide +kernel, by decide +kernel, ?_⟩
  intro hpause
  have hshort := hpause (r.2.bench.trace.take 12) (.access (.write Register.pwrMgmt0 0x2f) true) []
    (.write Register.gyroConfig0 0x07) true (r.2.bench.trace.drop 14) (by decide +kernel)
    ⟨0x2f, List.mem_singleton_self _, by decide⟩
  exact absurd hshort (by decide)

end Driver

end Inertial
