import Inertial.Proofs.Driver.Logged
import Inertial.Proofs.Driver.Pace
import Inertial.Proofs.Driver.Rails

/-!
# Power-ups that fail

A power-up that fails ends at its first failure: up to there it has done what it would have done on
a bench where nothing fails, and after that it attempts to switch off each rail that it switched on,
that of the interface first, and does nothing else (`Driver.powerUp_stops_at_first_failure`).

So the writes that took effect are the first of those that a power-up makes where nothing fails. A
chip with another identity has not been written at all, and one that does not confirm its reset has
been written the reset only.
-/

set_option autoImplicit false

namespace Inertial

/-! ## Undoing what was switched on -/

/-- The attempt to switch off a rail, with whether it succeeds, if the rail was last switched on. -/
def undoing (events : List Event) (r : Rail) (ok : Bool) : List Event :=
  if lastSwitch r events = some true then [.switch r false ok] else []

/-- Switching rails off writes no register. -/
theorem writes_undoing (events : List Event) (r : Rail) (ok : Bool) (c : SerialChip) :
    writes (undoing events r ok) c = [] := by
  unfold undoing
  split <;> rfl

/-- An event that stands for a failure switches nothing. -/
theorem Bench.switched?_of_failure? {b : Bench} {chip : Chip} {e : Event} {error : DriverError}
    (h : b.failure? chip e = some error) (r : Rail) : e.switched? r = none := by
  cases e with
  | switch t on ok =>
    cases ok with
    | false => rfl
    | true => cases h
  | _ => rfl

/-- An event that stands for a failure writes what it would write as a success, or nothing. -/
theorem Bench.writes_of_failure? {b : Bench} {chip : Chip} {e : Event} {error : DriverError}
    (h : b.failure? chip e = some error) (c : SerialChip) :
    e.writes c <+: e.asSuccess.writes c := by
  cases e with
  | access x ok =>
    cases ok with
    | false => exact List.nil_prefix
    | true => exact List.prefix_rfl
  | _ => exact List.nil_prefix

/-- The wrong identity is reported only where the chip has it. -/
theorem Bench.failure?_eq_wrongIdentity {b : Bench} {chip : Chip} {e : Event}
    {expected found : Byte} (h : b.failure? chip e = some (.wrongIdentity expected found)) :
    b.chip.memory Register.whoAmI ≠ chip.whoAmI ∧ expected = chip.whoAmI ∧
      found = b.chip.memory Register.whoAmI := by
  unfold failure? at h
  split at h
  · cases h
  · split at h
    · rename_i hcheck
      cases h
      exact ⟨hcheck.2, rfl, rfl⟩
    · split at h <;> cases h
  · cases h
  · cases h

/-- A missing reset is reported only where the status says so. -/
theorem Bench.failure?_eq_resetNotConfirmed {b : Bench} {chip : Chip} {e : Event}
    (h : b.failure? chip e = some .resetNotConfirmed) :
    StatusRegister.resetDone.get (b.chip.memory Register.intStatus) = 0 := by
  unfold failure? at h
  split at h
  · cases h
  · split at h
    · cases h
    · split at h
      · rename_i hcheck
        exact hcheck.2
      · cases h
  · cases h
  · cases h

/-! ## Where nothing fails -/

/-- That nothing has failed is steady as long as nothing can fail. -/
theorem System.isSteady_flawlessSince (past : List Event) :
    IsSteady fun s => s.bench.FlawlessSince past where
  bench := fun _ => Bench.isSteady_flawlessSince _ past
  switch := by
    intro s r on hs
    have hok := hs.1.switch_fst r on
    have hswitch : (s.bench.switch r on).2.FlawlessSince past := by
      refine hs.concat rfl rfl ?_
      rw [Bench.switch] at hok
      exact congrArg (Event.switch r on) hok.symm
    rw [Driver.exec_switch]
    rcases hx : s.bench.switch r on with ⟨_ | _, bench⟩ <;>
      · rw [hx] at hswitch
        exact hswitch
  log := by
    intro s e he hs
    refine hs.concat rfl rfl ?_
    cases e with
    | access _ _ | switch _ _ _ => cases he
    | _ => rfl
  record := fun _ _ _ h => h
  around := fun _ _ _ h => ⟨h.1.congr rfl, h.2⟩

/-- On a flawless bench nothing fails. -/
theorem Bench.neverFails_flawless (b : Bench) (chip : Chip) : (b.flawless chip).NeverFails where
  access := fun _ _ => rfl
  switch := fun _ _ _ => rfl

/-- Where both checks pass, no event that succeeded stands for a failure. -/
theorem Bench.failure?_flawless {b : Bench} {chip : Chip} {e : Event} (he : e.asSuccess = e) :
    (b.flawless chip).failure? chip e = none := by
  obtain ⟨_, _, hidentified, hconfirmed⟩ := b.shows_flawless chip
  rw [← he]
  cases e with
  | access x ok =>
    unfold Event.asSuccess failure?
    dsimp only
    rw [if_neg fun h => h.2 hidentified, if_neg fun h => hconfirmed h.2]
  | _ => rfl

namespace Driver

variable {b : Bench} {chip : Chip} {interrupt : PinSetup} {s t u : System} {e : DriverError}

/-- A power-up begins in pace with one where nothing fails. -/
theorem inPace_start (hin : b.InStep) (core core' : Core) :
    System.InPace b chip { bench := b, core } { bench := b.flawless chip, core := core' } :=
  ⟨hin, hin, rfl, rfl, b.neverFails_flawless chip, b.shows_flawless chip⟩

/-- On a flawless bench the set-up gets to its end. -/
theorem exec_supplyAndSetUp_flawless (hin : b.InStep) :
    (exec (supplyAndSetUp chip interrupt) { bench := b.flawless chip, core := .fresh chip }).1 =
      .ok () := by
  let start : System := { bench := b.flawless chip, core := .fresh chip }
  have hshows := b.shows_flawless chip
  have hself : System.InPace (b.flawless chip) chip start start :=
    ⟨hin, hin, rfl, rfl, b.neverFails_flawless chip,
      ⟨fun _ _ => rfl, fun _ _ => rfl, hshows.identified, hshows.confirmed⟩⟩
  obtain ⟨_, _, ⟨_, hok, _⟩ | ⟨e, good, last, rest, hfalters⟩⟩ :=
    (straight_supplyAndSetUp chip interrupt).keepsPace start start hself
  · exact hok
  · -- All that is logged are successes, so nothing of it stands for a failure.
    obtain ⟨_, events, hevents, hall⟩ := upholds_exec (stays_supplyAndSetUp
      (System.isSteady_flawlessSince start.bench.trace) chip interrupt start
      (b.neverFails_flawless chip).flawlessSince)
    have hsame := List.append_cancel_left (hfalters.trace.symm.trans hevents)
    have hlast := hfalters.last
    rw [Bench.failure?_flawless (hall last (by rw [← hsame]; simp))] at hlast
    cases hlast

/-- Where nothing fails a power-up succeeds, and it is done once the chip is set up. -/
theorem exec_powerUp_flawless (hin : b.InStep) :
    let start : System := { bench := b.flawless chip, core := .fresh chip }
    exec (powerUp chip interrupt) start =
      (.ok (), (exec (supplyAndSetUp chip interrupt) start).2) := by
  intro start
  have hok : (exec (supplyAndSetUp chip interrupt) start).1 = .ok () :=
    exec_supplyAndSetUp_flawless hin
  rw [exec_powerUp]
  rcases hx : exec (supplyAndSetUp chip interrupt) start with ⟨_ | _, t⟩
  · rw [hx] at hok
    cases hok
  · rfl

/-! ## The writes of a power-up that fails its checks -/

/-- Turns both supplies on and waits until they are stable. -/
def supply : Driver Unit := do
  switch .vdd true
  sleep (.millis Timing.coreSupply)
  interfaceOn

/-- Sets up what is left once the chip was reset. -/
def prepare (chip : Chip) (interrupt : PinSetup) : Driver Unit := do
  update Register.intfConfig0 Register.bigEndianData 0
  load chip.defaultConfig
  update Register.tmstConfig Register.timestampMask
    (Register.timestampToRegisters ||| Register.timestampEnable)
  armInterrupt interrupt
  modifyCore fun c => { c with power := { enabled := true, active := true } }

/-- The set-up is supplying, identifying, resetting and preparing the chip, in this order. -/
theorem supplyAndSetUp_eq (chip : Chip) (interrupt : PinSetup) :
    supplyAndSetUp chip interrupt = (do
      supply
      identify chip
      reset
      prepare chip interrupt) := by
  simp only [supplyAndSetUp, supply, setUp, prepare, bind_assoc]

/-- Of two steps that fail either the first fails or the second. -/
theorem exec_bind_eq_error {α β : Type} {x : Driver α} {f : α → Driver β}
    (h : exec (x >>= f) s = (.error e, u)) :
    exec x s = (.error e, u) ∨ ∃ a t, exec x s = (.ok a, t) ∧ exec (f a) t = (.error e, u) := by
  rw [exec_bind] at h
  rcases hx : exec x s with ⟨e' | a, t⟩
  · rw [hx] at h
    cases h
    exact Or.inl rfl
  · rw [hx] at h
    exact Or.inr ⟨a, t, rfl, h⟩

/-! ### What is logged -/

/-- A wait changes no register. -/
theorem isHarmless_of_isWait {e : Event} (he : e.isWait = true) : e.IsHarmless := by
  cases e with
  | delay d => exact fun _ => rfl
  | woke => exact fun _ => rfl
  | _ => cases he

/-- Switching a rail logs nothing that changes a register. -/
theorem logs_switch (r : Rail) (on : Bool) : Logs Event.IsHarmless (switch r on) := by
  intro s
  refine ⟨[.switch r on (s.bench.switch r on).1], ?_, ?_⟩
  · intro e he
    rw [List.mem_singleton.mp he]
    exact fun _ => rfl
  · have htrace : (s.bench.switch r on).2.trace =
        s.bench.trace ++ [.switch r on (s.bench.switch r on).1] := rfl
    rw [exec_switch]
    rcases hx : s.bench.switch r on with ⟨_ | _, bench⟩ <;>
      · rw [hx] at htrace
        exact htrace

/-- Nor does reading one. -/
theorem logs_read (a : Address) : Logs Event.IsHarmless (read a) := by
  intro s
  obtain ⟨events, hlogged, hharmless⟩ := Bus.logged_read a s.bench
  refine ⟨events, hharmless, ?_⟩
  have htrace := hlogged.trace
  rw [read, exec_register, RegisterOp.perform]
  rcases hx : (Bus.read a).exec s.bench with ⟨_ | _, bench⟩ <;>
    · rw [hx] at htrace
      exact htrace

/-- Nor does checking what was read. -/
theorem logs_check (a : Address) {fails : Byte → Prop} [DecidablePred fails]
    {error : Byte → DriverError} : Logs Event.IsHarmless (check a fails error) := by
  refine (logs_read a).bind fun found => ?_
  split
  · exact fun _ => ⟨[], by simp, (List.append_nil _).symm⟩
  · exact logs_pure ()

/-- Nor does supplying the chip. -/
theorem logs_supply : Logs Event.IsHarmless supply :=
  (logs_switch .vdd true).bind fun _ => (logs_sleep (fun _ => isHarmless_of_isWait) _).bind fun _ =>
    (logs_switch .vddio true).bind fun _ => logs_sleep (fun _ => isHarmless_of_isWait) _

/-! ### What a check that passed says -/

/-- A check passes only if what was in the register passes. -/
theorem check_passed {a : Address} (ha : Register.IsChecked a) {fails : Byte → Prop}
    [DecidablePred fails] {error : Byte → DriverError} (hst : System.InPace b chip s t)
    (h : exec (check a fails error) s = (.ok (), u)) : ¬ fails (b.chip.memory a) := by
  obtain ⟨found, v, hread, hcheck⟩ := exec_bind_eq_ok h
  have hfound : found = b.chip.memory a := by
    obtain ⟨_, _, _, ⟨_, hok, _⟩ | ⟨_, _, _, _, hfalters⟩⟩ := read_inPace ha.isReachable hst
    · rw [hread] at hok
      cases hok
      exact hst.memory.kept a ha
    · have herror := hfalters.error
      rw [hread] at herror
      cases herror
  rw [← hfound]
  intro hfails
  rw [if_pos hfails] at hcheck
  cases hcheck

/-- A chip that passes is the expected one. -/
theorem whoAmI_of_exec_identify (hst : System.InPace b chip s t)
    (h : exec (identify chip) s = (.ok (), u)) :
    b.chip.memory Register.whoAmI = chip.whoAmI :=
  Classical.not_not.mp (check_passed (Or.inl rfl) hst h)

/-- A reset that passes was confirmed by the chip. -/
theorem resetDone_of_exec_reset (hst : System.InPace b chip s t) (h : exec reset s = (.ok (), u)) :
    StatusRegister.resetDone.get (b.chip.memory Register.intStatus) ≠ 0 := by
  obtain ⟨_, v, hv, hrest⟩ := exec_bind_eq_ok h
  obtain ⟨_, w, hw, hcheck⟩ := exec_bind_eq_ok hrest
  have hv := (keepsPace_write isOrdinary_deviceConfig _).inPace hst hv
  exact check_passed (Or.inr rfl) ((keepsPace_sleep _).inPace hv hw) hcheck

/-! ### Which writes there are -/

/-- The driver never fails as a reset that was not confirmed. -/
def NoReset {α : Type} (x : Driver α) : Prop :=
  ∀ s, (exec x s).1 ≠ .error .resetNotConfirmed

/-- Two drivers in a row report a missing reset only if one of them does. -/
theorem NoReset.bind {α β : Type} {x : Driver α} {f : α → Driver β} (hx : NoReset x)
    (hf : ∀ a, NoReset (f a)) : NoReset (x >>= f) := by
  intro s
  have hfirst := hx s
  rw [exec_bind]
  rcases hexec : exec x s with ⟨e | a, t⟩
  · rw [hexec] at hfirst
    exact fun h => hfirst (congrArg Except.error (Except.error.inj h))
  · exact hf a t

/-- An operation on a register reports no missing reset. -/
theorem noReset_register (op : RegisterOp) : NoReset (register op) := by
  intro s
  rw [exec_register]
  rcases op.perform.exec s.bench with ⟨_ | _, _⟩ <;> exact nofun

/-- Nor does switching a rail. -/
theorem noReset_switch (r : Rail) (on : Bool) : NoReset (switch r on) := by
  intro s
  rw [exec_switch]
  rcases s.bench.switch r on with ⟨_ | _, _⟩ <;> exact nofun

/-- Nor does all that comes before the reset. -/
theorem noReset_supplyAndIdentify : NoReset (do supply; identify chip) := by
  have hsleep : ∀ d, NoReset (sleep d) := fun d s => nofun
  have hsupply : NoReset supply :=
    (noReset_switch .vdd true).bind fun _ => (hsleep _).bind fun _ =>
      (noReset_switch .vddio true).bind fun _ => hsleep _
  refine hsupply.bind fun _ => (noReset_register (.read Register.whoAmI)).bind fun found => ?_
  split
  · exact fun s => nofun
  · exact fun s => nofun

/-- Supplying the chip is where a power-up begins. -/
theorem straight_supply : Straight (StartStep chip) supply :=
  .step (.switch .vdd) (.step (.setUp (.sleep _)) straight_interfaceOn)

/-- All that comes before the reset leaves the registers as they were. -/
theorem logs_supplyAndIdentify (chip : Chip) : Logs Event.IsHarmless (do supply; identify chip) :=
  logs_supply.bind fun _ => logs_check _

/-- A power-up of a chip with another identity writes nothing. -/
theorem writes_of_whoAmI_ne (hin : b.InStep) {core : Core} {events : List Event}
    (h : exec (supplyAndSetUp chip interrupt) { bench := b, core } = (.error e, u))
    (htrace : u.bench.trace = b.trace ++ events)
    (hchip : b.chip.memory Register.whoAmI ≠ chip.whoAmI) : writes events b.chip = [] := by
  have hfirst : exec (do supply; identify chip) { bench := b, core } = (.error e, u) := by
    rw [supplyAndSetUp_eq, ← bind_assoc] at h
    rcases exec_bind_eq_error h with hfirst | ⟨_, v, hv, _⟩
    · exact hfirst
    · obtain ⟨_, v', hsupplied, hidentify⟩ := exec_bind_eq_ok hv
      have hpace : System.InPace b chip v' _ :=
        straight_supply.keepsPace.inPace (inPace_start hin core core) hsupplied
      exact absurd (whoAmI_of_exec_identify hpace hidentify) hchip
  obtain ⟨quiet, hharmless, htrace'⟩ := logs_supplyAndIdentify chip { bench := b, core }
  rw [hfirst, htrace] at htrace'
  rw [List.append_cancel_left htrace']
  exact writes_of_isHarmless hharmless _

/-- A power-up of a chip that does not confirm its reset writes the reset only. -/
theorem writes_of_resetNotConfirmed (hin : b.InStep) {core : Core} {events : List Event}
    (h : exec (supplyAndSetUp chip interrupt) { bench := b, core } = (.error .resetNotConfirmed, u))
    (htrace : u.bench.trace = b.trace ++ events)
    (hreset : StatusRegister.resetDone.get (b.chip.memory Register.intStatus) = 0) :
    writes events b.chip = [(Register.deviceConfig, Register.softReset)] := by
  rw [supplyAndSetUp_eq, ← bind_assoc] at h
  rcases exec_bind_eq_error h with hfirst | ⟨_, v, hv, hrest⟩
  · exact absurd (congrArg Prod.fst hfirst) (noReset_supplyAndIdentify _)
  -- The chip was identified, so it is the reset that failed.
  have hpace := (straight_supply.keepsPace.bind fun _ => keepsPace_identify).inPace
    (inPace_start hin core core) hv
  have hfailed : exec reset v = (.error .resetNotConfirmed, u) := by
    rcases exec_bind_eq_error hrest with hfailed | ⟨_, w, hw, _⟩
    · exact hfailed
    · exact absurd hreset (resetDone_of_exec_reset hpace hw)
  -- It was written, so it is the check after it that failed.
  rcases exec_bind_eq_error hfailed with hwrite | ⟨_, w, hw, hcheck⟩
  · exact absurd (congrArg Prod.fst hwrite) (noReset_register _ _)
  obtain ⟨quiet, hquiet, htrace₁⟩ := logs_supplyAndIdentify chip { bench := b, core }
  have htail : Logs Event.IsHarmless (do
      sleep (.millis Timing.softReset)
      check Register.intStatus (fun status => StatusRegister.resetDone.get status = 0)
        fun _ => .resetNotConfirmed) :=
    (logs_sleep (fun _ => isHarmless_of_isWait) _).bind fun _ => logs_check _
  obtain ⟨later, hlater, htrace₃⟩ := htail w
  have hu := congrArg (fun r => r.2.bench.trace) hcheck
  dsimp only at hu
  have htrace₂ : w.bench.trace = v.bench.trace ++ v.bench.bus.accessing Register.deviceConfig
      (v.bench.bus.writeAccess Register.deviceConfig Register.softReset) := by
    obtain ⟨_, _, _, ⟨w', hw', hwritten, _⟩ | ⟨_, _, _, _, hfalters⟩⟩ :=
      write_inPace isOrdinary_deviceConfig Register.softReset hpace
    · rw [hw] at hw'
      cases hw'
      exact hwritten
    · have herror := hfalters.error
      rw [hw] at herror
      cases herror
  rw [hv] at htrace₁
  dsimp only at htrace₁
  have hchip : v.bench.chip = replay quiet b.chip := chip_exec hv htrace₁
  have hevents : events = quiet ++ (v.bench.bus.accessing Register.deviceConfig
      (v.bench.bus.writeAccess Register.deviceConfig Register.softReset) ++ later) := by
    refine List.append_cancel_left (?_ : b.trace ++ _ = b.trace ++ _)
    rw [← htrace, ← List.append_assoc, ← htrace₁, ← List.append_assoc, ← htrace₂]
    exact hu.symm.trans htrace₃
  rw [hevents, writes_append, writes_append, ← hchip, writes_of_isHarmless hquiet,
    writes_of_isHarmless hlater, Bus.writes_accessing hpace.inStep
      isOrdinary_deviceConfig.isReachable isOrdinary_deviceConfig.not_bankSelect]
  rfl

/-! ## The whole power-up -/

/-- Up to its first failure the supply and set-up of a chip is as where nothing fails. -/
theorem supplyAndSetUp_falters (hin : b.InStep)
    (h : exec (supplyAndSetUp chip interrupt) { bench := b, core := .fresh chip } = (.error e, u)) :
    ∃ good last rest,
      (∀ x ∈ good, b.failure? chip x = none) ∧ b.failure? chip last = some e ∧
      u.bench.trace = b.trace ++ (good ++ [last]) ∧
      (exec (supplyAndSetUp chip interrupt)
        { bench := b.flawless chip, core := .fresh chip }).2.bench.trace =
          b.trace ++ (good ++ last.asSuccess :: rest) := by
  obtain ⟨script, htrace', ⟨_, hok, _⟩ | ⟨e', good, last, rest, hfalters⟩⟩ :=
    (straight_supplyAndSetUp chip interrupt).keepsPace _ _
      (inPace_start hin (.fresh chip) (.fresh chip))
  · rw [h] at hok
    cases hok
  · have herror := hfalters.error
    have htrace := hfalters.trace
    rw [h] at herror htrace
    cases herror
    rw [hfalters.script] at htrace'
    exact ⟨good, last, rest, hfalters.good, hfalters.last, htrace, htrace'⟩

/-- The rails that a failed supply and set-up leaves on record as on are those it switched on. -/
theorem releasing_eq_undoing {good : List Event} {last : Event}
    (h : exec (supplyAndSetUp chip interrupt) { bench := b, core := .fresh chip } = (.error e, u))
    (hlast : b.failure? chip last = some e) (htrace : u.bench.trace = b.trace ++ (good ++ [last]))
    (r : Rail) (ok : Bool) : releasing u.core.rails r ok = undoing good r ok := by
  have htallies := upholds_exec (stays_supplyAndSetUp (System.isSteady_tallies b) chip
    interrupt _ (System.tallies_fresh b chip))
  rw [h] at htallies
  obtain ⟨events, hevents, hon⟩ := htallies.switched
  have hsame := List.append_cancel_left (htrace.symm.trans hevents)
  have hiff := hon r
  rw [← hsame, lastSwitch_concat_of_none (Bench.switched?_of_failure? hlast r)] at hiff
  unfold releasing undoing
  by_cases hr : lastSwitch r good = some true
  · rw [if_pos (hiff.mpr hr), if_pos hr]
  · rw [if_neg fun h => hr (hiff.mp h), if_neg hr]

/-- A power-up that fails does what it would do where nothing fails and both checks pass, up to the
first event that stands for a failure. It reports that failure, and after it attempts to switch off
each rail that it switched on, that of the interface first, and nothing else.

The writes that took effect are the first of those it would make where nothing fails. There are none
if the chip has another identity, and just the reset if that was not confirmed. -/
theorem powerUp_stops_at_first_failure (hin : b.InStep)
    (h : exec (powerUp chip interrupt) { bench := b, core := .fresh chip } = (.error e, t)) :
    let flawless := exec (powerUp chip interrupt) { bench := b.flawless chip, core := .fresh chip }
    ∃ good last rest interface core,
      let since := good ++ last :: (undoing good .vddio interface ++ undoing good .vdd core)
      let all := good ++ last.asSuccess :: rest
      t.bench.trace = b.trace ++ since ∧
      (∀ x ∈ good, b.failure? chip x = none) ∧ b.failure? chip last = some e ∧
      flawless.1 = .ok () ∧ flawless.2.bench.trace = b.trace ++ all ∧
      writes since b.chip <+: writes all (b.flawless chip).chip ∧
      t.bench.chip.memory = b.chip.memory.writeAll (writes since b.chip) ∧
      (∀ expected found, e = .wrongIdentity expected found →
        expected = chip.whoAmI ∧ found = b.chip.memory Register.whoAmI ∧ found ≠ expected ∧
          writes since b.chip = []) ∧
      (e = .resetNotConfirmed →
        writes since b.chip = [(Register.deviceConfig, Register.softReset)]) := by
  intro flawless
  obtain ⟨u, hu, ht⟩ : ∃ u, exec (supplyAndSetUp chip interrupt)
      { bench := b, core := .fresh chip } = (.error e, u) ∧ t = (exec releaseRails u).2 := by
    rw [exec_powerUp] at h
    rcases hx : exec (supplyAndSetUp chip interrupt) { bench := b, core := .fresh chip } with
      ⟨_ | _, u⟩ <;> rw [hx] at h <;> cases h
    exact ⟨u, rfl, rfl⟩
  obtain ⟨good, last, rest, hgood, hlast, htrace, hall⟩ := supplyAndSetUp_falters hin hu
  obtain ⟨interface, core, v, hv, hrelease⟩ := exec_releaseRails u
  have hflawless : flawless = _ := exec_powerUp_flawless hin
  -- The rails are switched off last, and that writes nothing.
  have hend : t.bench.trace = b.trace ++
      (good ++ last :: (undoing good .vddio interface ++ undoing good .vdd core)) := by
    rw [ht, hv, hrelease, htrace, releasing_eq_undoing hu hlast htrace,
      releasing_eq_undoing hu hlast htrace, List.append_assoc, List.append_assoc]
    rfl
  have hundone : writes (good ++ last :: (undoing good .vddio interface ++ undoing good .vdd core))
      b.chip = writes (good ++ [last]) b.chip := by
    have hsplit : good ++ last :: (undoing good .vddio interface ++ undoing good .vdd core) =
        good ++ [last] ++ (undoing good .vddio interface ++ undoing good .vdd core) := by simp
    rw [hsplit, writes_append, writes_append (undoing ..), writes_undoing, writes_undoing]
    simp
  refine ⟨good, last, rest, interface, core, hend, hgood, hlast, ?_, ?_, ?_, ?_, ?_, ?_⟩
  · rw [hflawless]
  · rw [hflawless]
    exact hall
  · have hbank : b.chip.bank = (b.flawless chip).chip.bank := rfl
    rw [hundone, ← writes_congr _ hbank, writes_append, writes_append]
    refine (List.prefix_append_right_inj _).mpr ?_
    rw [writes, writes, writes, List.append_nil]
    exact (Bench.writes_of_failure? hlast _).trans (List.prefix_append _ _)
  · rw [chip_exec h hend, memory_replay]
  · rintro expected found rfl
    obtain ⟨hne, rfl, rfl⟩ := Bench.failure?_eq_wrongIdentity hlast
    rw [hundone]
    exact ⟨rfl, rfl, hne, writes_of_whoAmI_ne hin hu htrace hne⟩
  · rintro rfl
    rw [hundone]
    exact writes_of_resetNotConfirmed hin hu htrace (Bench.failure?_eq_resetNotConfirmed hlast)

/-- A result can be told by evaluation to be a failure. -/
theorem eq_error_of_match {r : Except DriverError Unit × System}
    (h : (match r.1 with | .error e' => some e' | .ok _ => none) = some e) :
    r = (.error e, r.2) := by
  rcases r with ⟨e' | _, t⟩
  · rw [Option.some.inj h]
  · cases h

/-- The first configuration register cannot be written and the interface cannot be switched off
then: the failed write is what is reported, the core is switched off as well, and the reset and the
byte order were written. -/
theorem powerUp_stops_past_refused_switch :
    let bench : Bench := {
      chip := {
        memory := Memory.zero.writeAll [(Register.whoAmI, 0x42), (Register.intStatus, 0x10),
          (Register.intfConfig0, 0x30)] }
      bus := .serial Register.bank0
      supply := .pins
      plan := { failsAccess := fun k _ => k == 5, failsSwitch := fun k _ _ => k == 2 } }
    let t := (exec (powerUp .icm42605 {}) { bench, core := .fresh .icm42605 }).2
    let written := writes t.bench.trace bench.chip
    written = [(Register.deviceConfig, Register.softReset), (Register.intfConfig0, 0x20)] ∧
      t.bench.chip.memory = bench.chip.memory.writeAll written ∧
      ∃ good last interface core,
        t.bench.trace = good ++ last :: (undoing good .vddio interface ++ undoing good .vdd core) ∧
          bench.failure? .icm42605 last = some (.bus .transfer) := by
  intro bench t written
  have h : exec (powerUp .icm42605 {}) { bench, core := .fresh .icm42605 } =
      (.error (.bus .transfer), t) := eq_error_of_match (by decide +kernel)
  obtain ⟨good, last, rest, interface, core, htrace, _, hlast, _, _, _, hmemory, _⟩ :=
    powerUp_stops_at_first_failure (show bench.InStep from rfl) h
  have hsame : good ++ last :: (undoing good .vddio interface ++ undoing good .vdd core) =
      t.bench.trace := htrace.symm
  rw [hsame] at hmemory
  exact ⟨by decide +kernel, hmemory, good, last, interface, core, htrace, hlast⟩

end Driver

end Inertial
