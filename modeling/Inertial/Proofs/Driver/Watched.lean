import Inertial.Proofs.Driver.SampleLog
import Inertial.Proofs.Driver.Stability
import Inertial.Proofs.Shared.Windows

/-!
# Drivers under watch

While a task has the lock, a watch goes along with what it does. `Driver.Watched i A x B` says that
the driver `x`, done by the task at position `i` from where `A` holds of the watch and the system,
gets to where `B` holds, or to a failure after which the watch is still; and wherever it can be
interrupted no pause is owed.

Whether a write starts a sensor or stops the gyroscope is told by the register, and how long the
driver waits is told by the record. The two agree on what runs, which is part of what `Watch.Still`
says, and so each window that a write opens is closed by the wait that follows it.
-/

set_option autoImplicit false

namespace Inertial

namespace Watch

/-- The watch knows the chip, the record says what runs, and anything may happen next, but that the
task at position `i` may have to wait for the gyroscope for a given time. -/
structure Still (i : Nat) (d : Duration) (w : Watch) (s : System) : Prop where
  inStep : s.bench.InStep
  power : s.bench.chip.memory Register.pwrMgmt0 = PowerRegister.encode s.core.config.power
  chip : w.chip = s.bench.chip
  phase : w.phase = .open
  stopping : w.stopping i = true → Timing.gyroStop ≤ d.wholeMillis

/-- Who does not have to wait has not stopped the gyroscope. -/
theorem Still.stopping_eq_false {i : Nat} {w : Watch} {s : System} (h : Still i .zero w s) :
    w.stopping i = false :=
  Bool.eq_false_iff.mpr fun hi => absurd (h.stopping hi) (by decide)

/-- What a task has done since the trace was `past` and the watch `w₀` leads to where `P` holds. -/
def Seen (i : Nat) (past : List Event) (w₀ : Watch) (P : Watch → System → Prop) (s : System) :
    Prop :=
  ∃ events, s.bench.trace = past ++ events ∧ P (w₀.follow (History.of i events)) s

variable {i : Nat} {past : List Event} {w₀ w : Watch} {P Q : Watch → System → Prop}
  {s t : System} {d' : Delay}

/-- Less may be claimed of what was seen. -/
theorem Seen.mono (h : Seen i past w₀ P s) (hPQ : ∀ w, P w s → Q w s) : Seen i past w₀ Q s := by
  obtain ⟨events, hevents, hP⟩ := h
  exact ⟨events, hevents, hPQ _ hP⟩

/-- More events lead further. -/
theorem Seen.append (h : Seen i past w₀ P s) {later : List Event}
    (htrace : t.bench.trace = s.bench.trace ++ later)
    (hPQ : ∀ w, P w s → Q (w.follow (History.of i later)) t) : Seen i past w₀ Q t := by
  obtain ⟨events, hevents, hP⟩ := h
  refine ⟨events ++ later, ?_, ?_⟩
  · rw [htrace, hevents, List.append_assoc]
  · rw [History.of_append, follow_append]
    exact hPQ _ hP

/-- One more event leads the watch one step further. -/
theorem Seen.log (h : Seen i past w₀ P s) {e : Event}
    (hPQ : ∀ w, P w s → Q (w.step (i, e)) (s.log e)) : Seen i past w₀ Q (s.log e) :=
  h.append rfl hPQ

/-- The event is an access or hands a sample to the sink. -/
def isWork : Event → Bool
  | .access .. | .push _ => true
  | _ => false

/-- While nobody has to wait, it is the power register that tells what has to happen after an access
and whether the gyroscope was stopped. -/
theorem step_work (hphase : w.phase = .open) {e : Event} (hwork : isWork e = true) :
    w.nextPhase i e =
        (if e.startsSensor w.chip then .owing i (.micros Timing.accessPause) else .open) ∧
      w.nextNote i e = (w.stopping i || e.stopsGyro w.chip) := by
  unfold nextPhase nextNote
  rw [hphase]
  cases e with
  | access x ok => exact ⟨rfl, rfl⟩
  | push sample => exact ⟨by simp [Event.startsSensor, Event.effect], rfl⟩
  | _ => cases hwork

/-- Work that changes no register makes nobody wait. -/
theorem follow_harmless (hphase : w.phase = .open) {events : List Event}
    (hwork : ∀ e ∈ events, isWork e = true) (hharmless : ∀ e ∈ events, e.IsHarmless) :
    (w.follow (History.of i events)).phase = .open ∧
      (w.follow (History.of i events)).stopping i = w.stopping i := by
  induction events generalizing w with
  | nil => exact ⟨hphase, rfl⟩
  | cons e events ih =>
    obtain ⟨hnext, hnote⟩ := step_work (i := i) hphase (hwork e List.mem_cons_self)
    have hsame := hharmless e List.mem_cons_self w.chip
    unfold Event.startsSensor at hnext
    unfold Event.stopsGyro at hnote
    rw [hsame, PowerRegister.startsSensor_self] at hnext
    rw [hsame, PowerRegister.stopsGyro_self, Bool.or_false] at hnote
    obtain ⟨hrest, hstopping⟩ := ih (w := w.step (i, e)) hnext
      (fun e' he' => hwork e' (List.mem_cons_of_mem e he'))
      fun e' he' => hharmless e' (List.mem_cons_of_mem e he')
    exact ⟨hrest, hstopping.trans ((if_pos rfl).trans hnote)⟩

/-- After the accesses of one operation on registers, it is the power register that tells what has
to happen next. -/
theorem follow_accesses (hphase : w.phase = .open) {quiet last : List Event}
    (hwork : ∀ e ∈ quiet ++ last, isWork e = true) (hquiet : ∀ e ∈ quiet, e.IsHarmless)
    (hlast : last.length ≤ 1) {old new : Byte} (hold : w.chip.memory Register.pwrMgmt0 = old)
    (hnew : (replay (quiet ++ last) w.chip).memory Register.pwrMgmt0 = new) :
    (w.follow (History.of i (quiet ++ last))).phase =
        (if PowerRegister.startsSensor old new then .owing i (.micros Timing.accessPause)
          else .open) ∧
      (w.follow (History.of i (quiet ++ last))).stopping i =
        (w.stopping i || PowerRegister.stopsGyro old new) := by
  obtain ⟨hopen, hsame⟩ := follow_harmless (i := i) hphase
    (fun e he => hwork e (List.mem_append_left last he)) hquiet
  have hchip : (w.follow (History.of i quiet)).chip = replay quiet w.chip := by
    rw [chip_follow, History.map_snd_of]
  have hbefore : (replay quiet w.chip).memory Register.pwrMgmt0 = old :=
    (congrFun (memory_replay_of_isHarmless hquiet w.chip) _).trans hold
  rw [replay_append] at hnew
  rw [History.of_append, follow_append]
  match last, hlast with
  | [], _ =>
    rw [replay_nil, hbefore] at hnew
    rw [← hnew, PowerRegister.startsSensor_self, PowerRegister.stopsGyro_self, Bool.or_false]
    exact ⟨hopen, hsame⟩
  | [e], _ =>
    obtain ⟨hnext, hnote⟩ := step_work (i := i) hopen
      (hwork e (List.mem_append_right quiet (List.mem_singleton_self e)))
    unfold Event.startsSensor at hnext
    unfold Event.stopsGyro at hnote
    rw [replay_cons, replay_nil, ← hchip] at hnew
    rw [← hchip] at hbefore
    rw [hbefore, hnew] at hnext hnote
    rw [hsame] at hnote
    exact ⟨hnext, (if_pos rfl).trans hnote⟩

/-- A wait that is in order ends where anything may happen next. If it was long enough, the
gyroscope has stopped. -/
theorem step_wait (hnext : w.nextPhase i (.delay d') = .waiting i d') :
    ((w.step (i, .delay d')).step (i, .woke)).phase = .open ∧
      ((w.step (i, .delay d')).step (i, .woke)).stopping i =
        (w.stopping i && !endsStop d') := by
  have hphase : (w.step (i, .delay d')).phase = .waiting i d' := hnext
  have hnote : (w.step (i, .delay d')).stopping i = w.stopping i := by
    refine (if_pos rfl).trans ?_
    simp [nextNote, Event.stopsGyro, Event.effect]
  constructor
  · change nextPhase _ i .woke = .open
    unfold nextPhase
    rw [hphase]
    exact if_pos rfl
  · refine (if_pos rfl).trans ?_
    unfold nextNote
    rw [hphase, ← hnote]

/-- An operation on registers has just been done. The power register held `old` before it, and it
tells what has to happen next. -/
structure Written (i : Nat) (old : Byte) (w : Watch) (s : System) : Prop where
  inStep : s.bench.InStep
  chip : w.chip = s.bench.chip
  phase : w.phase =
    if PowerRegister.startsSensor old (s.bench.chip.memory Register.pwrMgmt0) then
      .owing i (.micros Timing.accessPause)
    else .open
  stopping : w.stopping i = true →
    PowerRegister.stopsGyro old (s.bench.chip.memory Register.pwrMgmt0) = true

/-- If the power register holds what it held, the watch is still. -/
theorem Written.still {w : Watch} {s : System}
    (h : Written i (PowerRegister.encode s.core.config.power) w s)
    (hpower : s.bench.chip.memory Register.pwrMgmt0 = PowerRegister.encode s.core.config.power) :
    Still i .zero w s := by
  have hphase := h.phase
  have hstopping := h.stopping
  rw [hpower, PowerRegister.startsSensor_self] at hphase
  rw [hpower, PowerRegister.stopsGyro_self] at hstopping
  exact ⟨h.inStep, hpower, h.chip, hphase, fun hi => nomatch hstopping hi⟩

/-- What one operation on registers does to the watch. -/
theorem Still.written {w : Watch} {s t : System} (hw : Still i .zero w s) (hin : t.bench.InStep)
    {quiet last : List Event} (hlogged : s.bench.Logged t.bench (quiet ++ last))
    (hquiet : ∀ e ∈ quiet, e.IsHarmless) (hlast : last.length ≤ 1) :
    Written i (PowerRegister.encode s.core.config.power)
      (w.follow (History.of i (quiet ++ last))) t := by
  have hwork : ∀ e ∈ quiet ++ last, isWork e = true := by
    intro e he
    obtain ⟨x, ok, rfl⟩ := hlogged.isAccess e he
    rfl
  have hchip : (w.follow (History.of i (quiet ++ last))).chip = t.bench.chip := by
    rw [chip_follow, History.map_snd_of, hw.chip, hlogged.chip]
  obtain ⟨hphase, hstopping⟩ := follow_accesses (i := i) hw.phase hwork hquiet hlast
    (hw.chip ▸ hw.power) (by rw [hw.chip, ← hlogged.chip])
  refine ⟨hin, hchip, hphase, ?_⟩
  intro hi
  rwa [hstopping, hw.stopping_eq_false, Bool.false_or] at hi

end Watch

namespace Driver

open Watch

variable {α β : Type} {i : Nat}

/-- Done by the task at position `i` from where `A` holds, the driver gets to where `B` holds or to
a failure, and it can be interrupted only where no pause is owed. -/
def Watched (i : Nat) (A : Watch → System → Prop) (x : Driver α)
    (B : α → Watch → System → Prop) : Prop :=
  ∀ (past : List Event) (w₀ : Watch) (s : System), Seen i past w₀ A s →
    x.Upholds (Seen i past w₀ fun w _ => w.phase.isSettled = true)
      (fun r t =>
        match r with
        | .ok a => Seen i past w₀ (B a) t
        | .error _ => Seen i past w₀ (Still i .zero) t) s

variable {A A' : Watch → System → Prop} {B : α → Watch → System → Prop}
  {C : β → Watch → System → Prop}

/-- More may be asked before a driver. -/
theorem Watched.pre {x : Driver α} (hx : Watched i A x B) (hA : ∀ w s, A' w s → A w s) :
    Watched i A' x B :=
  fun past w₀ s hs => hx past w₀ s (hs.mono fun w => hA w s)

/-- A driver that only answers leaves the watch as it is. -/
theorem watched_pure {a : α} (h : ∀ w s, A w s → B a w s) : Watched i A (pure a) B :=
  fun _ _ s hs => hs.mono fun w => h w s

/-- The watch follows one driver after the other, and is followed to the failure of the first if it
fails. -/
theorem Watched.bind {x : Driver α} {f : α → Driver β} (hx : Watched i A x B)
    (hf : ∀ a, Watched i (B a) (f a) C) : Watched i A (x >>= f) C := by
  intro past w₀ s hs
  rw [upholds_bind]
  refine (hx past w₀ s hs).mono ?_
  intro r t ht
  cases r with
  | ok a => exact hf a past w₀ t ht
  | error e => exact ht

/-- What follows a look at the record knows it. -/
theorem watched_getCore_bind {f : Core → Driver α}
    (hf : ∀ core, Watched i (fun w s => A w s ∧ s.core = core) (f core) B) :
    Watched i A (getCore >>= f) B := by
  intro past w₀ s hs
  rw [upholds_bind, upholds_getCore]
  exact hf s.core past w₀ s (hs.mono fun w hw => ⟨hw, rfl⟩)

/-- What follows a look at the record may do without it. -/
theorem watched_look {f : Core → Driver α} (hf : ∀ core, Watched i A (f core) B) :
    Watched i A (getCore >>= f) B :=
  watched_getCore_bind fun core => (hf core).pre fun _ _ hw => hw.1

/-- The watch does not see the record. -/
theorem watched_modifyCore {B : Unit → Watch → System → Prop} {f : Core → Core}
    (h : ∀ w s, A w s → B () w { s with core := f s.core }) : Watched i A (modifyCore f) B := by
  intro past w₀ s hs
  rw [upholds_modifyCore]
  obtain ⟨events, hevents, hA⟩ := hs
  exact ⟨events, hevents, h _ s hA⟩

/-! ## Registers -/

/-- An operation on registers is done as on plain memory or not at all, and the watch follows it. -/
theorem upholds_watched_register {I : System → Prop} {op : RegisterOp} (hop : op.IsRegular)
    {past : List Event} {w₀ : Watch} {s : System} (hs : Seen i past w₀ (Still i .zero) s) :
    Upholds I (fun r t => t.core = s.core ∧
      Seen i past w₀ (Written i (PowerRegister.encode s.core.config.power)) t ∧
      match r with
      | .ok _ => t.bench.chip.memory = (op.onMemory s.bench.chip.memory).2
      | .error _ => t.bench.chip.memory = s.bench.chip.memory) (register op) s := by
  obtain ⟨_, _, hstill⟩ := id hs
  obtain ⟨events, hrefines⟩ := RegisterOp.refines_of_inStep hstill.inStep hop
  obtain ⟨quiet, last, hlogged, hquiet, hlast⟩ := op.exists_logged s.bench
  have hseen : ∀ t : System, t.bench = (op.perform.exec s.bench).2 →
      Seen i past w₀ (Written i (PowerRegister.encode s.core.config.power)) t := by
    intro t ht
    rw [← ht] at hlogged hrefines
    exact hs.append hlogged.trace fun w hw =>
      hw.written hrefines.inStep hlogged hquiet hlast
  unfold register
  rw [upholds_bind, upholds_perform, Action.perform]
  rcases hx : op.perform.exec s.bench with ⟨fault | answer, bench⟩
  · rw [hx] at hrefines hseen
    exact ⟨rfl, hseen _ rfl, (hrefines.of_error fault rfl).2⟩
  · rw [hx] at hrefines hseen
    exact ⟨rfl, hseen _ rfl, (hrefines.of_ok answer rfl).2.2.2⟩

/-- An operation on registers that leaves the power register alone leaves the watch still. -/
theorem watched_register {op : RegisterOp} (hop : op.IsRegular)
    (hpower : ∀ m : Memory, (op.onMemory m).2 Register.pwrMgmt0 = m Register.pwrMgmt0) :
    Watched i (Still i .zero) (register op) fun _ => Still i .zero := by
  intro past w₀ s hs
  obtain ⟨_, _, hstill⟩ := id hs
  refine (upholds_watched_register hop hs).mono ?_
  rintro r t ⟨hcore, hseen, hmemory⟩
  have hsame : t.bench.chip.memory Register.pwrMgmt0 =
      PowerRegister.encode t.core.config.power := by
    rw [hcore, ← hstill.power]
    cases r with
    | ok _ => rw [hmemory, hpower]
    | error _ => rw [hmemory]
  have hnow : Seen i past w₀ (Still i .zero) t :=
    hseen.mono fun w hw => (hcore ▸ hw).still hsame
  cases r <;> exact hnow

/-- Another register than the power register is written and recorded. -/
theorem watched_store {r : ConfigRegister} (hr : r ≠ .power) {Known : Core → Prop}
    {config : DeviceConfig} (hpower : ∀ core, Known core → config.power = core.config.power) :
    Watched i (fun w s => Still i .zero w s ∧ Known s.core) (store r config)
      fun _ => Still i .zero := by
  intro past w₀ s hs
  obtain ⟨_, _, hstill, hknown⟩ := id hs
  have haddress : Register.pwrMgmt0 ≠ r.address := fun h =>
    hr (ConfigRegister.address_injective (t := .power) h.symm)
  have hsame : ∀ {t : System}, t.core = s.core →
      t.bench.chip.memory Register.pwrMgmt0 = s.bench.chip.memory Register.pwrMgmt0 →
      Seen i past w₀ (Written i (PowerRegister.encode s.core.config.power)) t →
      Seen i past w₀ (Still i .zero) t := by
    intro t hcore hmemory hseen
    refine hseen.mono fun w hw => (hcore ▸ hw).still ?_
    rw [hmemory, hcore, hstill.power]
  unfold store
  rw [upholds_bind]
  refine (upholds_watched_register (r.isRegular_write _) (hs.mono fun w hw => hw.1)).mono ?_
  rintro (e | _) t ⟨hcore, hseen, hmemory⟩
  · exact hsame hcore (congrFun hmemory _) hseen
  · have hwritten : t.bench.chip.memory =
        s.bench.chip.memory.write r.address (config.encode r) := hmemory
    have hkept : t.bench.chip.memory Register.pwrMgmt0 =
        s.bench.chip.memory Register.pwrMgmt0 := by
      rw [hwritten, Memory.write_of_ne _ _ haddress]
    dsimp only
    rw [upholds_modifyCore]
    obtain ⟨events, hevents, hnow⟩ := hsame hcore hkept hseen
    have hruns : t.bench.chip.memory Register.pwrMgmt0 = PowerRegister.encode config.power := by
      rw [hnow.power, hcore, hpower s.core hknown]
    exact ⟨events, hevents, hnow.inStep, hruns, hnow.chip, hnow.phase, hnow.stopping⟩

/-! ## Waits -/

/-- A wait that is in order leads to where anything may happen next. -/
theorem watched_sleep {d : Delay} {B : Unit → Watch → System → Prop}
    (hA : ∀ w s, A w s → w.nextPhase i (.delay d) = .waiting i d)
    (hB : ∀ w w' s inbox, A w s → w'.chip = w.chip → w'.phase = .open →
      w'.stopping i = (w.stopping i && !endsStop d) →
      B () w' (((s.log (.delay d)).withInbox inbox).log .woke)) :
    Watched i A (sleep d) B := by
  intro past w₀ s hs
  rw [upholds_sleep]
  constructor
  · refine hs.log fun w hw => ?_
    rw [show (w.step (i, .delay d)).phase = .waiting i d from hA w s hw]
    rfl
  · intro inbox
    have hwait : (((s.log (.delay d)).withInbox inbox).log .woke).bench.trace =
        s.bench.trace ++ [.delay d, .woke] := List.append_assoc ..
    refine hs.append hwait fun w hw => ?_
    obtain ⟨hphase, hstopping⟩ := step_wait (hA w s hw)
    exact hB w _ s inbox hw rfl hphase hstopping

/-- A wait for the output is long enough for the gyroscope to stop if it was stopped. -/
theorem watched_settle (d : Duration) :
    Watched i (Still i d) (settle d) fun _ => Still i .zero := by
  unfold settle
  split
  · refine watched_sleep ?_ ?_
    · intro w s hw
      unfold nextPhase
      rw [hw.phase]
    · intro w w' s inbox hw hchip hphase hstopping
      refine ⟨hw.inStep, hw.power, hchip.trans hw.chip, hphase, ?_⟩
      intro hstill
      rw [hstopping, Bool.and_eq_true, Bool.not_eq_true'] at hstill
      have hlong : endsStop (.millis d.wholeMillis) = true :=
        decide_eq_true (Nat.mul_le_mul_left 1000 (hw.stopping hstill.1))
      rw [hlong] at hstill
      cases hstill.2
  · rename_i hzero
    rw [Decidable.not_not] at hzero
    subst hzero
    exact watched_pure fun _ _ hw => hw

end Driver

end Inertial
