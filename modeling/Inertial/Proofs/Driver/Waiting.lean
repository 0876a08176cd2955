import Inertial.Driver.Lifecycle
import Inertial.Driver.Sampling
import Inertial.Proofs.Driver.Mirror
import Inertial.Proofs.Driver.Watched

/-!
# What drivers wait for

A change of what runs is followed by the pause that it asks for, and its answer is long enough for
a gyroscope that was stopped; switching the interface supply on is followed by the time that the
supply takes. So whoever watches an operation from where nobody owes a pause sees all pauses made,
and no rail is switched off by a task that has stopped the gyroscope and not waited for it.
-/

set_option autoImplicit false

namespace Inertial

/-- The task at position `i` has to pause, and after that the watch is still. -/
def Watch.Owes (i : Nat) (d : Delay) (t : Duration) (w : Watch) (s : System) : Prop :=
  w.phase = .owing i d ∧ Still i t { w with phase := .open } s

/-- Where nothing has to happen next, the watch is still already. -/
theorem Watch.Still.of_open {i : Nat} {t : Duration} {w : Watch} {s : System}
    (h : Still i t { w with phase := .open } s) (hphase : w.phase = .open) : Still i t w s :=
  ⟨h.inStep, h.power, h.chip, hphase, h.stopping⟩

namespace Driver

open Watch

variable {α : Type} {i : Nat}

/-! ## Pauses -/

/-- A pause that is owed is made. -/
theorem watched_pause (n : Nat) (t : Duration) :
    Watched i (Owes i (.micros n) t) (sleep (.micros n)) fun _ => Still i t := by
  refine watched_sleep ?_ ?_
  · intro w s hw
    unfold nextPhase
    rw [hw.1]
    exact if_pos ⟨rfl, rfl⟩
  · intro w w' s inbox hw hchip hphase hstopping
    have hstill := hw.2
    refine ⟨hstill.inStep, hstill.power, hchip.trans hstill.chip, hphase, ?_⟩
    intro hi
    rw [hstopping, Bool.and_eq_true] at hi
    exact hstill.stopping hi.1

/-! ## Changes of what runs -/

/-- The power register is written and recorded. That tells which pause is owed and how long the
gyroscope takes. -/
theorem watched_store_power (core : Core) (p : PowerState) :
    let waits := Settling.between core.config.power p
    Watched i (fun w s => Still i .zero w s ∧ s.core = core)
      (store .power (core.config.withPower p)) fun _ w s =>
        if waits.pause ≠ .zero then Owes i (.micros waits.pause.micros) waits.settle w s
        else Still i waits.settle w s := by
  intro waits past w₀ s hs
  obtain ⟨_, _, hstill, rfl⟩ := id hs
  unfold store
  rw [upholds_bind]
  refine (upholds_watched_register (ConfigRegister.isRegular_write .power _)
    (hs.mono fun w hw => hw.1)).mono ?_
  rintro (e | _) t ⟨hcore, hseen, hmemory⟩
  · refine hseen.mono fun w hw => (hcore ▸ hw).still ?_
    rw [congrFun hmemory, hcore, hstill.power]
  · have hwritten : t.bench.chip.memory =
        s.bench.chip.memory.write Register.pwrMgmt0 (PowerRegister.encode p) := hmemory
    have hnew : t.bench.chip.memory Register.pwrMgmt0 = PowerRegister.encode p := by
      rw [hwritten, Memory.write_same]
    dsimp only
    rw [upholds_modifyCore]
    obtain ⟨events, hevents, hw⟩ := hseen
    have hphase := hw.phase
    have hstops := hw.stopping
    rw [hnew, PowerRegister.startsSensor_encode] at hphase
    rw [hnew, PowerRegister.stopsGyro_encode] at hstops
    -- The register tells the watch what the record tells the driver: whether a sensor was started,
    -- and whether the gyroscope was stopped.
    have hlong : (w₀.follow (History.of i events)).stopping i = true →
        Timing.gyroStop ≤ waits.settle.wholeMillis :=
      fun hi => Settling.gyroStop_le_settle (hstops hi)
    have hpause : waits.pause =
        if s.core.config.power.accel.leavesOff p.accel ||
            s.core.config.power.gyro.leavesOff p.gyro then .ofMicros Timing.accessPause
        else .zero := rfl
    refine ⟨events, hevents, ?_⟩
    split at hphase
    · rename_i hstarts
      rw [if_pos hstarts] at hpause
      rw [hpause, if_pos (by decide)]
      exact ⟨hphase, hw.inStep, hnew, hw.chip, rfl, hlong⟩
    · rename_i hstarts
      rw [if_neg hstarts] at hpause
      rw [hpause, if_neg (by decide)]
      exact ⟨hw.inStep, hnew, hw.chip, hphase, hlong⟩

/-- A change of what runs makes the pause that it asks for, and its answer is long enough for a
gyroscope that it stopped. -/
theorem watched_setPower (p : PowerState) :
    Watched i (Still i .zero) (setPower p) (Still i) := by
  unfold setPower
  refine watched_getCore_bind fun core => ?_
  dsimp only
  split
  · exact watched_pure fun _ _ hw => hw.1
  · refine (watched_store_power core p).bind fun _ => ?_
    split
    · exact (watched_pause _ _).bind fun _ => watched_pure fun _ _ hw => hw
    · exact watched_pure fun _ _ hw => hw

/-- A change of what runs that waits for the output leaves no window open. -/
theorem watched_setPowerAndWait (p : PowerState) :
    Watched i (Still i .zero) (setPowerAndWait p) fun _ => Still i .zero :=
  (watched_setPower p).bind watched_settle

/-! ## Rails -/

/-- A rail is switched with whatever success, and only the rails on record follow. -/
structure Switched (r : Rail) (on ok : Bool) (s t : System) : Prop where
  trace : t.bench.trace = s.bench.trace ++ [.switch r on ok]
  chip : t.bench.chip = s.bench.chip
  bus : t.bench.bus = s.bench.bus
  config : t.core.config = s.core.config

/-- A switch is logged with whether it succeeded, and noted if it did. -/
theorem upholds_switched {I : System → Prop} (r : Rail) (on : Bool) (s : System) :
    Upholds I (fun x t => ∃ ok, Switched r on ok s t ∧ (ok = true ↔ x = .ok ())) (switch r on)
      s := by
  rw [upholds_switch]
  rcases hx : s.bench.switch r on with ⟨_ | _, bench⟩
  all_goals
    obtain ⟨hok, rfl⟩ := Prod.mk.inj hx
    rw [hok]
  · exact ⟨false, ⟨rfl, rfl, rfl, rfl⟩, by simp⟩
  · exact ⟨true, ⟨rfl, rfl, rfl, rfl⟩, by simp⟩

/-- Once what has to happen next is done, the watch is still as it was before the switch. -/
theorem Switched.still {r : Rail} {on ok : Bool} {w : Watch} {s t : System}
    (h : Switched r on ok s t) (hw : Still i .zero w s) :
    Still i .zero { w.step (i, .switch r on ok) with phase := .open } t := by
  refine ⟨?_, ?_, hw.chip.trans h.chip.symm, rfl, ?_⟩
  · have hin := hw.inStep
    unfold Bench.InStep at hin ⊢
    rw [h.bus, h.chip]
    exact hin
  · rw [h.chip, h.config, hw.power]
  · have hnote : (w.step (i, .switch r on ok)).stopping i = w.stopping i := by
      refine (if_pos rfl).trans ?_
      unfold nextNote
      rw [hw.phase]
      simp [Event.stopsGyro, Event.effect]
    exact fun hi => hw.stopping (hnote ▸ hi)

/-- Where the gyroscope has not been stopped, a rail may be switched off. -/
theorem watched_switch_off (r : Rail) :
    Watched i (Still i .zero) (switch r false) fun _ => Still i .zero := by
  intro past w₀ s hs
  refine (upholds_switched r false s).mono ?_
  rintro x t ⟨ok, hswitched, _⟩
  have hnow : Seen i past w₀ (Still i .zero) t := by
    refine hs.append hswitched.trace fun w hw => ?_
    have hphase : w.nextPhase i (.switch r false ok) = .open := by
      unfold nextPhase
      rw [hw.phase, hw.stopping_eq_false]
      rfl
    exact (hswitched.still hw).of_open hphase
  cases x <;> exact hnow

/-- The interface supply is switched on and given its time. -/
theorem watched_interfaceOn :
    Watched i (Still i .zero) interfaceOn fun _ => Still i .zero := by
  refine Watched.bind ?_ fun _ => watched_pause Timing.interfaceSupply .zero
  intro past w₀ s hs
  refine (upholds_switched .vddio true s).mono ?_
  rintro (e | _) t ⟨ok, hswitched, hok⟩
  · refine hs.append hswitched.trace fun w hw => ?_
    have hfailed : ok = false := Bool.eq_false_iff.mpr fun h => nomatch hok.mp h
    have hphase : w.nextPhase i (.switch .vddio true ok) = .open := by
      unfold nextPhase
      rw [hw.phase, hfailed]
      rfl
    exact (hswitched.still hw).of_open hphase
  · refine hs.append hswitched.trace fun w hw => ⟨?_, hswitched.still hw⟩
    change w.nextPhase i _ = _
    unfold nextPhase
    rw [hw.phase, hok.mpr rfl]
    rfl

/-- An attempt goes on after a failure too. -/
theorem Watched.attempt {x : Driver Unit}
    (hx : Watched i (Still i .zero) x fun _ => Still i .zero) :
    Watched i (Still i .zero) (attempt x) fun _ => Still i .zero := by
  intro past w₀ s hs
  unfold Driver.attempt Upholds
  rw [ExceptT.run_tryCatch, Routine.upholds_bind]
  refine Routine.Upholds.mono (hx past w₀ s hs) ?_
  rintro (e | a) t ht <;> exact ht

/-! ## From steps to drivers -/

/-- What does not change the configuration on record, the watch does not see. -/
theorem watched_note {f : Core → Core} (hf : ∀ core, (f core).config = core.config) :
    Watched i (Still i .zero) (modifyCore f) fun _ => Still i .zero := by
  refine watched_modifyCore fun w s hw => ⟨hw.inStep, ?_, hw.chip, hw.phase, hw.stopping⟩
  change _ = PowerRegister.encode (f s.core).config.power
  rw [hf, ← hw.power]

/-- Setting up the FIFO opens no window. -/
theorem watched_setFifo (stream : Bool) :
    Watched i (Still i .zero) (setFifo stream) fun _ => Still i .zero := by
  have hother : Register.pwrMgmt0 ≠ Register.fifoConfig :=
    ConfigRegister.address_ne_fifoConfig .power
  refine watched_register (Register.isRegular_write_bank0 (by decide) (by decide) _) fun m => ?_
  have hwritten : ∀ v, ((RegisterOp.write Register.fifoConfig v).onMemory m).2 =
      m.write Register.fifoConfig v := fun _ => rfl
  rw [hwritten, Memory.write_of_ne _ _ hother]

/-- The watch is still after a driver if it is still after each of its steps. How it ends tells what
holds then. -/
theorem Composed.watched {S : Steps} {L : Nat → Driver α → Prop} {n : Nat} {Known : Core → Prop}
    {x : Driver α} {B : α → Watch → System → Prop} (hx : Composed S L n Known x)
    (hS : ∀ {n Known x}, S n Known x →
      Watched i (fun w s => Still i .zero w s ∧ Known s.core) x fun _ => Still i .zero)
    (hL : ∀ {n x}, L n x → Watched i (Still i .zero) x B) :
    Watched i (fun w s => Still i .zero w s ∧ Known s.core) x B := by
  induction hx with
  | last hx => exact (hL hx).pre fun _ _ hw => hw.1
  | look _ ih =>
    exact watched_getCore_bind fun core => (ih core).pre fun _ _ hw => ⟨hw.1.1, hw.2⟩
  | step hx _ ih => exact (hS hx).bind fun _ => ih.pre fun _ _ hw => ⟨hw, trivial⟩
  | weaken _ _ hknown ih => exact ih.pre fun _ s hw => ⟨hw.1, hknown s.core hw.2⟩

/-- A driver that may be begun whatever is on record is watched from where the watch is still. -/
theorem Composed.watched_still {S : Steps} {L : Nat → Driver α → Prop} {n : Nat} {x : Driver α}
    {B : α → Watch → System → Prop} (hx : Composed S L n (fun _ => True) x)
    (hS : ∀ {n Known x}, S n Known x →
      Watched i (fun w s => Still i .zero w s ∧ Known s.core) x fun _ => Still i .zero)
    (hL : ∀ {n x}, L n x → Watched i (Still i .zero) x B) : Watched i (Still i .zero) x B :=
  (hx.watched hS hL).pre fun _ _ hw => ⟨hw, trivial⟩

/-- An answer is seen by nobody. -/
theorem Answers.watched {n : Nat} {x : Driver Unit} (hx : Answers n x) :
    Watched i (Still i .zero) x fun _ => Still i .zero := by
  cases hx with
  | pure a => exact watched_pure fun _ _ hw => hw

variable {n : Nat} {Known : Core → Prop}

/-- Settings other than what runs make nobody wait. -/
theorem SettingStep.watched {x : Driver Unit} (hx : SettingStep n Known x) :
    Watched i (fun w s => Still i .zero w s ∧ Known s.core) x fun _ => Still i .zero := by
  cases hx with
  | store hr hpower _ => exact watched_store hr hpower

/-- A driver that ends with a change of what runs answers long enough for a gyroscope that it
stopped. -/
theorem SetsPower.watched {x : Driver Duration} (hx : SetsPower n x) :
    Watched i (Still i .zero) x (Still i) := by
  cases hx with
  | setPower p => exact watched_setPower p

/-- Changing the settings of a sensor makes all pauses, whichever of the steps are needed. -/
theorem Composed.watched_settings {x : Driver Duration}
    (hx : Composed SettingStep SetsPower n (fun _ => True) x) :
    Watched i (Still i .zero) x (Still i) :=
  hx.watched_still SettingStep.watched SetsPower.watched

/-- The gyroscope has stopped before the supply is switched off. -/
theorem SupplyStep.watched {x : Driver Unit} (hx : SupplyStep n Known x) :
    Watched i (Still i .zero) x fun _ => Still i .zero := by
  cases hx with
  | setPowerAndWait p => exact watched_setPowerAndWait p
  | interfaceOn => exact watched_interfaceOn
  | interfaceOff => exact watched_switch_off .vddio
  | runtime f => exact watched_note fun _ => rfl

/-- A device that is only supplied or not makes all pauses. -/
theorem Composed.watched_supply {x : Driver Unit}
    (hx : Composed SupplyStep Answers n (fun _ => True) x) :
    Watched i (Still i .zero) x fun _ => Still i .zero :=
  hx.watched_still (fun h => h.watched.pre fun _ _ hw => hw.1) Answers.watched

/-- So does one that is turned on or off. -/
theorem Composed.watched_life {stream : Bool} {x : Driver Unit}
    (hx : Composed (LifeStep stream) Answers n (fun _ => True) x) :
    Watched i (Still i .zero) x fun _ => Still i .zero := by
  refine hx.watched_still (fun h => ?_) Answers.watched
  cases h with
  | supply h => exact h.watched.pre fun _ _ hw => hw.1
  | setFifo _ => exact (watched_setFifo stream).pre fun _ _ hw => hw.1

/-- A suspend takes a note and turns the device off. -/
theorem watched_suspend : Watched i (Still i .zero) suspend fun _ => Still i .zero := by
  rw [suspend_eq]
  refine Watched.bind ?_ fun _ => composed_turnOff.watched_life
  exact watched_note fun _ => rfl

/-- Nor does switching streaming on or off. -/
theorem watched_setStreaming (on : Bool) :
    Watched i (Still i .zero) (setStreaming on) fun _ => Still i .zero :=
  (watched_setFifo on).bind fun _ => watched_note fun _ => rfl

/-- A shutdown makes all pauses, whatever fails on the way. -/
theorem watched_shutdown : Watched i (Still i .zero) shutdown fun _ => Still i .zero := by
  have hshutdown : Composed EndStep Answers 2 (fun _ => True) shutdown := composed_shutdown
  refine hshutdown.watched_still (fun h => ?_) Answers.watched
  cases h with
  | setPowerAndWait p => exact (watched_setPowerAndWait p).attempt.pre fun _ _ hw => hw.1
  | switch r => exact (watched_switch_off r).attempt.pre fun _ _ hw => hw.1
  | runtime f =>
    refine Watched.pre ?_ fun _ _ hw => hw.1
    exact watched_note fun _ => rfl

/-! ## Operations and samples -/

/-- What is watched to its end ends where anything may happen next. -/
theorem Watched.reply {x : Driver α} {B : α → Watch → System → Prop}
    (hx : Watched i (Still i .zero) x B) (hB : ∀ a w s, B a w s → w.phase = .open) (f : α → Reply)
    {past : List Event} {w₀ : Watch} {s : System} (hs : Seen i past w₀ (Still i .zero) s) :
    (Operation.reply x f).Upholds (Seen i past w₀ fun w _ => w.phase.isSettled = true)
      (fun _ t => Seen i past w₀ (fun w _ => w.phase = .open) t) s := by
  unfold Operation.reply
  rw [Routine.upholds_bind]
  refine Routine.Upholds.mono (hx past w₀ s hs) ?_
  intro r t ht
  have hopen : Seen i past w₀ (fun w _ => w.phase = .open) t := by
    cases r with
    | error e => exact ht.mono fun _ hw => hw.phase
    | ok a => exact ht.mono fun w hw => hB a w t hw
  cases r <;> exact hopen

/-- The caller may be left to wait for the output. -/
theorem Watched.settling {x : Driver Duration} (hx : Watched i (Still i .zero) x (Still i))
    (wait : Bool) {past : List Event} {w₀ : Watch} {s : System}
    (hs : Seen i past w₀ (Still i .zero) s) :
    (Operation.settling wait x).Upholds (Seen i past w₀ fun w _ => w.phase.isSettled = true)
      (fun _ t => Seen i past w₀ (fun w _ => w.phase = .open) t) s := by
  unfold Operation.settling
  split
  · exact (hx.bind watched_settle).reply (fun _ _ _ hw => hw.phase) _ hs
  · exact hx.reply (fun _ _ _ hw => hw.phase) _ hs

/-- Every operation makes the pauses that it owes. -/
theorem upholds_watched_body (op : Operation) {past : List Event} {w₀ : Watch} {s : System}
    (hs : Seen i past w₀ (Still i .zero) s) :
    op.body.Upholds (Seen i past w₀ fun w _ => w.phase.isSettled = true)
      (fun _ t => Seen i past w₀ (fun w _ => w.phase = .open) t) s := by
  have hdone : ∀ {x : Driver Unit}, Watched i (Still i .zero) x (fun _ => Still i .zero) →
      (Operation.reply x fun _ => .ok).Upholds (Seen i past w₀ fun w _ => w.phase.isSettled = true)
        (fun _ t => Seen i past w₀ (fun w _ => w.phase = .open) t) s :=
    fun hx => hx.reply (fun _ _ _ hw => hw.phase) _ hs
  have hlook : Watched i (Still i .zero) getCore fun _ => Still i .zero :=
    watched_look fun _ => watched_pure fun _ _ hw => hw
  cases op with
  | grant request wait => exact (composed_grant request).watched_settings.settling wait hs
  | setTemperature on wait => exact (composed_setTemperature on).watched_settings.settling wait hs
  | setPower p wait => exact (watched_setPower p).settling wait hs
  | suspend => exact hdone watched_suspend
  | resume => exact hdone composed_resume.watched_life
  | runtimeSuspend => exact hdone composed_runtimeSuspend.watched_supply
  | runtimeResume => exact hdone composed_runtimeResume.watched_supply
  | setStreaming on => exact hdone (watched_setStreaming on)
  | getConfig => exact hlook.reply (fun _ _ _ hw => hw.phase) _ hs
  | getPower => exact hlook.reply (fun _ _ _ hw => hw.phase) _ hs
  | isSuspended => exact hlook.reply (fun _ _ _ hw => hw.phase) _ hs

/-- Taking a sample starts and stops nothing. -/
theorem upholds_watched_takeSample {σ : Type} [Sink σ] {I : System → Prop} (time : Int64) (sink : σ)
    {past : List Event} {w₀ : Watch} {s : System} (hs : Seen i past w₀ (Still i .zero) s) :
    (takeSample time sink).Upholds I
      (fun _ t => Seen i past w₀ (fun w _ => w.phase = .open ∧ w.stopping i = false) t) s := by
  refine Routine.Upholds.mono (upholds_takeSample time sink s) ?_
  rintro _ t ⟨⟨events, hevents, hsample⟩, _⟩
  refine hs.append hevents fun w hw => ?_
  have hwork : ∀ e ∈ events, isWork e = true := by
    intro e he
    cases hsample e he <;> rfl
  have hharmless : ∀ e ∈ events, e.IsHarmless := by
    intro e he
    cases hsample e he with
    | read hharmless => exact hharmless
    | push _ => exact fun _ => rfl
  obtain ⟨hphase, hsame⟩ := follow_harmless hw.phase hwork hharmless
  exact ⟨hphase, hsame.trans hw.stopping_eq_false⟩

end Driver

end Inertial
