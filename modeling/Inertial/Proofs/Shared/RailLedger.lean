import Inertial.Proofs.Driver.Rails
import Inertial.Proofs.Shared.Covenant

/-!
# Rails and shutdown

The record of the rails is exact in every system that can be reached: a rail is on record as on just
if it was switched on when a switch of it last succeeded, which is just if its pin was last driven
high where pins switch the rails. That goes for a power-up that failed, too.

So a shutdown leaves no rail on but one that it could not switch off, and this is all that it does
apart from one write that turns the sensors off.
-/

set_option autoImplicit false

namespace Inertial

/-- After both rails were released a rail is on only if it could not be switched off. -/
theorem switch_mem_of_lastSwitch {rails : Rails} {interface core : Bool} {since port : List Event}
    {r : Rail} (hport : lastSwitch r port = none)
    (hon : rails.isOn r = true ↔ lastSwitch r since = some true)
    (h : lastSwitch r (since ++ (port ++
      (releasing rails .vddio interface ++ releasing rails .vdd core))) = some true) :
    Event.switch r false false ∈ releasing rails .vddio interface ++ releasing rails .vdd core := by
  rw [lastSwitch_append, lastSwitch_append, lastSwitch_append, hport, Option.or_none,
    lastSwitch_releasing, lastSwitch_releasing] at h
  have hthis : ∀ ok, (if rails.isOn r = true ∧ ok = true then some false else none).or
      (lastSwitch r since) = some true → Event.switch r false false ∈ releasing rails r ok := by
    intro ok hlast
    split at hlast
    · cases hlast
    · rename_i hfailed
      have hr : rails.isOn r = true := hon.mpr hlast
      have hok : ok = false := by simpa [hr] using hfailed
      rw [releasing, if_pos hr, hok]
      exact List.mem_singleton.mpr rfl
  cases r with
  | vddio => exact List.mem_append_left _ (hthis interface (by simpa using h))
  | vdd => exact List.mem_append_right _ (hthis core (by simpa using h))

/-- Let a power-up begin on the bench `start`. Whenever others can look afterwards, and also after a
power-up that failed, a rail is on record as on just if it was switched on when a switch of it last
succeeded since then. Where pins switch the rails that is just if its pin was last driven high.

A shutdown never fails. If the device is active and something runs, it begins with one write that
turns everything off and may be followed by a wait, and otherwise with nothing. Then it attempts to
switch off each rail that is on record as on and no other, the interface first, whatever failed
before. After it a rail is on, and its pin was last driven high, only if it could not be switched
off. -/
theorem System.rails_exact (start : Bench) :
    (∀ (chip : Chip) (interrupt : PinSetup),
      Tallies start
        ((Driver.powerUp chip interrupt).exec { bench := start, core := .fresh chip }).2) ∧
    ∀ answers s, s.IsReachableFrom (· = start) answers →
      s.Tallies start ∧
      (s.locked = false → ∃ ok waits interface core since t,
        let port : List Event :=
          if s.core.power.active ∧ s.core.config.power ≠ .off then
            .access (s.bench.bus.writeAccess Register.pwrMgmt0 (PowerRegister.encode .off)) ok ::
              waits
          else []
        let rails :=
          releasing s.core.rails .vddio interface ++ releasing s.core.rails .vdd core
        Driver.shutdown.exec s = (.ok (), t) ∧ (∀ e ∈ waits, e.isWait = true) ∧
        s.bench.trace = start.trace ++ since ∧
        t.bench.trace = start.trace ++ (since ++ (port ++ rails)) ∧
        t.Tallies start ∧
        ∀ r, (t.core.rails.isOn r = true ↔
            lastSwitch r (since ++ (port ++ rails)) = some true) ∧
          (t.core.rails.isOn r = true → .switch r false false ∈ rails)) := by
  have hI := isSteady_tallies start
  constructor
  · intro chip interrupt
    exact Driver.upholds_exec
      (Driver.stays_powerUp hI chip interrupt _ (tallies_fresh start chip))
  · intro answers s hs
    have htallies : s.Tallies start := by
      refine hs.steady hI fun bench chip hbench => ?_
      rw [hbench]
      exact tallies_fresh start chip
    refine ⟨htallies, ?_⟩
    intro hfree
    obtain ⟨ok, waits, interface, core, t, hwaits, hexec, htrace⟩ :=
      Driver.exec_shutdown hs.atFirstBank
    obtain ⟨since, hsince, hon⟩ := htallies.switched
    have hend := Driver.upholds_exec (Driver.stays_shutdown hI s htallies)
    rw [hexec] at hend
    obtain ⟨events, hevents, hafter⟩ := hend.switched
    rw [htrace, hsince, List.append_assoc] at hevents
    have hsame := List.append_cancel_left hevents
    rw [← hsame] at hafter
    refine ⟨ok, waits, interface, core, since, t, hexec, hwaits, hsince, ?_, hend, ?_⟩
    · rw [htrace, hsince, List.append_assoc]
    · intro r
      refine ⟨hafter r, fun hr => ?_⟩
      refine switch_mem_of_lastSwitch (lastSwitch_eq_none ?_) (hon r) ((hafter r).mp hr)
      intro e he
      split at he
      · rcases List.mem_cons.mp he with rfl | he
        · rfl
        · exact Event.switched?_of_isWait (hwaits e he) r
      · cases he

/-- The interface cannot be switched off when the device is suspended at run time, and the core
cannot when it is shut down: the core is the rail that stays on. Its pin was high before the device
was powered up and has been driven high once since; that of the interface was driven high and, on
the second attempt, low. -/
theorem System.rails_exact_past_refused_switches :
    let start : Bench := {
      chip := {
        memory := Memory.zero.writeAll [(Register.whoAmI, 0x42), (Register.intStatus, 0x10)] }
      bus := .serial Register.bank0
      supply := .pins
      pins := { vdd := { driven := [.high] } }
      plan := { failsSwitch := fun k r _ => k == 2 || k == 4 && r == .vdd } }
    let powered :=
      ((Driver.powerUp .icm42605 {}).exec { bench := start, core := .fresh .icm42605 }).2.withInbox
        {}
    let calls : List (Call ScriptedSink) :=
      [.operation .runtimeSuspend, .operation (.setPower ⟨.lowNoise, .off, false⟩ false)]
    let p := (Pool.ofCalls calls powered).follow 0 [0, 1, 1]
    let t := (Driver.shutdown.exec p.system).2
    p.replies.head? = some (some (.failed (.rail .vddio))) ∧
      p.system.IsReachableFrom (· = start) ([] ++ p.answered calls) ∧
      (p.system.core.rails.isOn .vddio = true ↔
        lastSwitch .vddio p.system.bench.trace = some true) ∧
      t.core.rails = { vdd := true } ∧
      t.bench.pins = { vdd := { driven := [.high, .high] }, vddio := { driven := [.high, .low] } } ∧
      (∃ levels, (t.bench.pins.pin .vdd).driven = (start.pins.pin .vdd).driven ++ levels ∧
        levels.getLast? = some .high) ∧
      ∃ down, t.bench.trace = p.system.bench.trace ++ down ∧ .switch .vdd false false ∈ down := by
  intro start powered calls p t
  have hpowered : powered.IsReachableFrom (· = start) [] :=
    .powerUp rfl rfl (Except.eq_ok_of_toOption (by decide +kernel))
  have hp : p.system.IsReachableFrom (· = start) ([] ++ p.answered calls) :=
    hpowered.follow (by decide +kernel) calls 0 [0, 1, 1]
  have hvdd : t.core.rails = { vdd := true } := by decide +kernel
  have hpins : t.bench.pins =
      { vdd := { driven := [.high, .high] }, vddio := { driven := [.high, .low] } } := by
    decide +kernel
  obtain ⟨htallies, hdown⟩ := (System.rails_exact start).2 _ _ hp
  obtain ⟨events, hevents, hon⟩ := htallies.switched
  obtain ⟨ok, waits, interface, core, since, u, hexec, _, hsince, htrace, hend, hafter⟩ :=
    hdown (by decide +kernel)
  have hu : t = u := congrArg Prod.snd hexec
  have hon' : p.system.core.rails.isOn .vddio = true ↔
      lastSwitch .vddio p.system.bench.trace = some true := by
    rw [hevents]
    exact hon .vddio
  rw [← List.append_assoc, ← hsince, ← hu] at htrace
  rw [← hu] at hend hafter
  have hdisabled : t.core.rails.isOn .vdd = true := by
    rw [hvdd]
    rfl
  obtain ⟨levels, hlevels, hhigh⟩ := hend.driven rfl .vdd
  exact ⟨by decide +kernel, hp, hon', hvdd, hpins, ⟨levels, hlevels, hhigh.mp hdisabled⟩, _, htrace,
    List.mem_append_right _ ((hafter .vdd).2 hdisabled)⟩

end Inertial
