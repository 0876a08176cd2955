import Inertial.Proofs.Driver.Effect

/-!
# What changes of power come to

Each way in which a suspend or a resume can end, whatever fails on the way, with the record that it
leaves and the log: the sensors and the interface are turned off (`TurnsOff`), the device is
suspended with a note of what ran (`Suspends`), and the interface is turned on before anything else
(`TurnsOn`).
-/

set_option autoImplicit false

namespace Inertial.Driver

/-- The write that has the FIFO take no more samples. -/
def bypassing (bus : Bus) (ok : Bool) : Event :=
  .access (bus.writeAccess Register.fifoConfig Register.fifoBypass) ok

/-- The ways in which it can end to turn the sensors off and then the interface. The sensors are
left alone if none of them runs. -/
inductive TurnsOff (c : Core) : Except DriverError Unit → Core → List Event → Prop where
  | fails {e : DriverError} {quiet : List Event} (hquiet : IsQuiet quiet)
      (hruns : c.config.power ≠ .off) : TurnsOff c (.error e) c quiet
  | refused {quiet : List Event} (hquiet : IsQuiet quiet)
      (hidle : c.config.power = .off → quiet = []) :
      TurnsOff c (.error (.rail .vddio)) { c with config := c.config.withPower .off }
        (quiet ++ [.switch .vddio false false])
  | off {quiet : List Event} (hquiet : IsQuiet quiet)
      (hidle : c.config.power = .off → quiet = []) :
      TurnsOff c (.ok ())
        { c with config := c.config.withPower .off, rails := c.rails.set false .vddio }
        (quiet ++ [.switch .vddio false true])

/-- The ways in which a suspend can end. What ran when it began is noted in any case. -/
inductive Suspends (c : Core) : Except DriverError Unit → Core → List Event → Prop where
  | asleep (hasleep : c.power.suspended = true) :
      Suspends c (.ok ()) { c with saved := c.config.power } []
  | bypassFails {e : DriverError} (bus : Bus) (hawake : c.power.suspended = false)
      (hstream : c.streaming = true) :
      Suspends c (.error e) { c with saved := c.config.power } [bypassing bus false]
  | turnsOff {r : Except DriverError Unit} {d : Core} {events : List Event} (bus : Bus)
      (hawake : c.power.suspended = false)
      (hoff : TurnsOff { c with saved := c.config.power } r d events) :
      Suspends c r d ((if c.streaming then [bypassing bus true] else []) ++ events)

/-- The ways in which it can end to turn the interface on. -/
inductive TurnsOn (c : Core) : Except DriverError Unit → Core → List Event → Prop where
  | refused : TurnsOn c (.error (.rail .vddio)) c [.switch .vddio true false]
  | on : TurnsOn c (.ok ()) { c with rails := c.rails.set true .vddio }
      [.switch .vddio true true, .delay (.micros Timing.interfaceSupply), .woke]

variable {c : Core}

/-- Turning the interface on ends in one of these ways. -/
theorem effect_interfaceOn : Effect c (TurnsOn c) interfaceOn := by
  refine (effect_switch .vddio true).bind ?_ ?_
  · rintro _ _ _ ⟨rfl, rfl⟩
    refine (effect_sleep _).mono ?_
    rintro _ _ _ ⟨rfl, rfl, rfl⟩
    exact .on
  · rintro _ _ _ ⟨rfl, rfl, rfl⟩
    exact .refused

/-- So does turning off, which stops nothing that does not run. -/
theorem effect_turnOff : Effect c (TurnsOff c) (do setPowerAndWait .off; interfaceOff) := by
  refine effect_setPowerAndWait_off.bind ?_ ?_
  · rintro _ _ quiet ⟨hquiet, hidle, rfl⟩
    have hnone : c.config.power = .off → quiet = [] := fun h => (hidle h).2
    refine (effect_switch .vddio false).mono ?_
    rintro (e | _) _ _ h
    · obtain ⟨rfl, rfl, rfl⟩ := h
      exact .refused hquiet hnone
    · obtain ⟨rfl, rfl⟩ := h
      exact .off hquiet hnone
  · rintro e _ quiet ⟨hquiet, hidle, rfl⟩
    exact .fails hquiet fun h => nomatch (hidle h).1

/-- Setting up the FIFO is one write of its register. -/
theorem effect_setFifo (stream : Bool) :
    Effect c (fun r d events => (∃ bus : Bus, events = [.access (bus.writeAccess Register.fifoConfig
      (if stream then Register.fifoStream else Register.fifoBypass)) r.isOk]) ∧ d = c)
      (setFifo stream) :=
  effect_write (by decide : Register.bankOf Register.fifoConfig = Register.bank0) _

/-- A suspend ends in one of these ways, each with what it logs and leaves on record. -/
theorem effect_suspend : Effect c (Suspends c) suspend := by
  unfold suspend
  apply effect_modifyCore_bind
  apply effect_getCore_bind
  dsimp only
  split
  · rename_i hasleep
    exact effect_pure (.asleep hasleep)
  · rename_i hawake
    have hawake : c.power.suspended = false := by simpa using hawake
    split
    · rename_i hstream
      refine (effect_setFifo false).bind ?_ ?_
      · rintro _ _ _ ⟨⟨bus, rfl⟩, rfl⟩
        refine effect_turnOff.mono ?_
        intro r d events hoff
        have h := Suspends.turnsOff bus hawake hoff
        rw [if_pos hstream] at h
        exact h
      · rintro e _ _ ⟨⟨bus, rfl⟩, rfl⟩
        exact .bypassFails bus hawake hstream
    · rename_i hstream
      refine effect_turnOff.mono ?_
      intro r d events hoff
      have h := Suspends.turnsOff .flat hawake hoff
      rw [if_neg hstream] at h
      exact h

/-- A resume that gets the interface on has the device active, and nothing of what comes then
switches a rail. -/
theorem effect_resume :
    Effect c (fun r d events =>
      (r = .error (.rail .vddio) ∧ d = c ∧ events = [.switch .vddio true false]) ∨
      ∃ quiet config, IsQuiet quiet ∧ events = .switch .vddio true true :: quiet ∧
        d = { c with
          config
          rails := c.rails.set true .vddio
          power := { enabled := true, active := true } }) resume := by
  have hwait : ∀ d : Core, Effect d (fun _ d' events => IsQuiet events ∧ ∃ config,
      d' = { d with config }) (do
        setPowerAndWait (← getCore).saved
        if (← getCore).streaming then setFifo true) := by
    have hfifo : Tunes (setFifo true) :=
      tunes_register (.write Register.fifoConfig _)
        (show Register.bankOf Register.fifoConfig = Register.bank0 by decide)
    have hstream : Tunes (do if (← getCore).streaming then setFifo true) := by
      refine tunes_getCore.bind fun core => ?_
      split
      · exact hfifo
      · exact tunes_pure ()
    exact tunes_getCore.bind fun core =>
      (composed_setPowerAndWait core.saved).tuning.tunes.bind fun _ => hstream
  unfold resume
  refine effect_interfaceOn.bind ?_ ?_
  · rintro _ _ _ ⟨⟩
    apply effect_modifyCore_bind
    refine (hwait _).mono ?_
    rintro r _ events ⟨hquiet, config, rfl⟩
    have hpause : IsQuiet [.delay (.micros Timing.interfaceSupply), .woke] := by
      simp [IsQuiet, Event.isSwitch]
    exact Or.inr ⟨_, config, hpause.append hquiet, rfl, rfl⟩
  · rintro _ _ _ ⟨⟩
    exact Or.inl ⟨rfl, rfl, rfl⟩

/-- The device is noted as suspended only if everything was turned off. -/
theorem effect_runtimeSuspend :
    Effect c (fun r d events =>
      (∃ e, r = .error e ∧ TurnsOff c (.error e) d events) ∨
      ∃ d', r = .ok () ∧ TurnsOff c (.ok ()) d' events ∧
        d = { d' with power := { c.power with active := false } }) runtimeSuspend := by
  have hsame : runtimeSuspend = (do setPowerAndWait .off; interfaceOff) >>= fun _ =>
      modifyCore fun c => { c with power := { c.power with active := false } } := by
    rw [runtimeSuspend, bind_assoc]
  rw [hsame]
  refine effect_turnOff.bind ?_ fun e d events h => Or.inl ⟨e, rfl, h⟩
  rintro _ d events h
  refine effect_modifyCore ?_
  rw [List.append_nil]
  have hpower : d.power = c.power := by
    cases h
    rfl
  exact Or.inr ⟨d, rfl, h, by rw [hpower]⟩

/-- The end of a runtime suspension fails at its rail and logs that, or it succeeds. -/
theorem effect_runtimeResume :
    Effect c (fun r d events =>
      (r = .error (.rail .vddio) ∧ d = c ∧ events = [.switch .vddio true false]) ∨
      ∃ quiet, IsQuiet quiet ∧ events = .switch .vddio true true :: quiet ∧ r = .ok () ∧
        d = { c with
          rails := c.rails.set true .vddio
          power := { c.power with active := true } }) runtimeResume := by
  unfold runtimeResume
  refine effect_interfaceOn.bind ?_ ?_
  · rintro _ _ _ ⟨⟩
    refine effect_modifyCore (Or.inr ⟨_, ?_, rfl, rfl, rfl⟩)
    simp [IsQuiet, Event.isSwitch]
  · rintro _ _ _ ⟨⟩
    exact Or.inl ⟨rfl, rfl, rfl⟩

/-- Streaming is noted just if the FIFO could be set up. -/
theorem effect_setStreaming (on : Bool) :
    Effect c (fun r d events => IsQuiet events ∧
      match r with
      | .ok _ => d = { c with streaming := on }
      | .error _ => d = c) (setStreaming on) := by
  have hquiet : ∀ bus : Bus, ∀ a v ok, IsQuiet [.access (bus.writeAccess a v) ok] := by
    simp [IsQuiet, Event.isSwitch]
  unfold setStreaming
  refine (effect_setFifo on).bind ?_ ?_
  · rintro _ _ _ ⟨⟨bus, rfl⟩, rfl⟩
    refine effect_modifyCore ⟨?_, rfl⟩
    rw [List.append_nil]
    exact hquiet bus _ _ _
  · rintro e _ _ ⟨⟨bus, rfl⟩, rfl⟩
    exact ⟨hquiet bus _ _ _, rfl⟩

end Inertial.Driver
