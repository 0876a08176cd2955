import Inertial.Proofs.Bus.Scripts
import Inertial.Proofs.Driver.Outcome
import Inertial.Proofs.Driver.Steadiness

/-!
# Which rails are on

A rail is on if it was switched on when a switch of it last succeeded (`lastSwitch`). The driver
notes every switch that succeeded and none that failed, so what it has on record is what the trace
says, and what the pins say where pins switch the rails (`System.isSteady_tallies`).

Releasing the rails and shutting down attempt to switch off each rail that is on record as on and no
other, whatever fails. `Driver.exec_releaseRails` and `Driver.exec_shutdown` give all that they do.
-/

set_option autoImplicit false

namespace Inertial

/-- How a rail was switched by an event, if it was. -/
def Event.switched? (r : Rail) : Event → Option Bool
  | .switch t on true => if t = r then some on else none
  | _ => none

/-- How a rail was switched when that last succeeded, if ever. -/
def lastSwitch (r : Rail) (events : List Event) : Option Bool :=
  (events.filterMap (Event.switched? r)).getLast?

/-- What came later counts. -/
theorem lastSwitch_append (r : Rail) (events later : List Event) :
    lastSwitch r (events ++ later) = (lastSwitch r later).or (lastSwitch r events) := by
  rw [lastSwitch, List.filterMap_append, List.getLast?_append]
  rfl

/-- An event that switches nothing does not count. -/
theorem lastSwitch_concat_of_none {r : Rail} {e : Event} (he : e.switched? r = none)
    (events : List Event) : lastSwitch r (events ++ [e]) = lastSwitch r events := by
  rw [lastSwitch_append, lastSwitch, List.filterMap_cons_none he]
  rfl

/-- A rail that no event switches was not switched last by any. -/
theorem lastSwitch_eq_none {r : Rail} {events : List Event}
    (h : ∀ e ∈ events, e.switched? r = none) : lastSwitch r events = none := by
  rw [lastSwitch, List.filterMap_eq_nil_iff.mpr h]
  rfl

/-- What is logged when a rail is released, with whether it could be switched off: only a rail that
is on record as on is attempted to be switched off. -/
def releasing (rails : Rails) (r : Rail) (ok : Bool) : List Event :=
  if rails.isOn r then [.switch r false ok] else []

/-- Releasing rails switches a rail off last if that was on and the switch succeeded. -/
theorem lastSwitch_releasing (rails : Rails) (r t : Rail) (ok : Bool) :
    lastSwitch r (releasing rails t ok) =
      if t = r ∧ rails.isOn t = true ∧ ok = true then some false else none := by
  unfold releasing lastSwitch
  cases rails.isOn t <;> cases ok <;> by_cases ht : t = r <;> simp [Event.switched?, ht]

/-- Since the bench was `start`, the rails that are on record as on are those that were last
switched on. Where pins switch the rails, they are those whose pin was last driven high. -/
structure System.Tallies (start : Bench) (s : System) : Prop where
  supply : s.bench.supply = start.supply
  switched : ∃ events, s.bench.trace = start.trace ++ events ∧
    ∀ r, s.core.rails.isOn r = true ↔ lastSwitch r events = some true
  driven : start.supply = .pins → ∀ r, ∃ levels,
    (s.bench.pins.pin r).driven = (start.pins.pin r).driven ++ levels ∧
      (s.core.rails.isOn r = true ↔ levels.getLast? = some .high)

namespace System

/-- What leaves the trace, the supply and the record of the rails alone leaves the tally alone. -/
theorem Tallies.congr {start : Bench} {s t : System} (hs : s.Tallies start)
    (htrace : t.bench.trace = s.bench.trace) (hsupply : t.bench.supply = s.bench.supply)
    (hpins : t.bench.pins = s.bench.pins) (hrails : t.core.rails = s.core.rails) :
    t.Tallies start where
  supply := hsupply.trans hs.supply
  switched := by
    rw [htrace, hrails]
    exact hs.switched
  driven := by
    rw [hpins, hrails]
    exact hs.driven

/-- So does what logs an event that switches nothing. -/
theorem Tallies.concat {start : Bench} {s t : System} {e : Event} (hs : s.Tallies start)
    (htrace : t.bench.trace = s.bench.trace ++ [e]) (hsupply : t.bench.supply = s.bench.supply)
    (hpins : t.bench.pins = s.bench.pins) (hrails : t.core.rails = s.core.rails)
    (he : ∀ r, e.switched? r = none) : t.Tallies start where
  supply := hsupply.trans hs.supply
  switched := by
    obtain ⟨events, hevents, hon⟩ := hs.switched
    refine ⟨events ++ [e], by rw [htrace, hevents, List.append_assoc], ?_⟩
    intro r
    rw [hrails, lastSwitch_concat_of_none (he r)]
    exact hon r
  driven := by
    rw [hpins, hrails]
    exact hs.driven

/-- A switch that failed counts for nothing. -/
theorem Tallies.switch_failed {start : Bench} {s : System} (hs : s.Tallies start) {r : Rail}
    {on : Bool} (hfailed : (s.bench.switch r on).1 = false) :
    Tallies start { s with bench := (s.bench.switch r on).2 } where
  supply := hs.supply
  switched := by
    obtain ⟨events, hevents, hon⟩ := hs.switched
    have htrace : (s.bench.switch r on).2.trace = s.bench.trace ++ [.switch r on false] := by
      rw [← hfailed]
      rfl
    refine ⟨events ++ [.switch r on false], ?_, ?_⟩
    · rw [← List.append_assoc, ← hevents]
      exact htrace
    · intro t
      rw [lastSwitch_concat_of_none rfl]
      exact hon t
  driven := by
    intro hpins t
    have hdriven : ((s.bench.switch r on).2.pins.pin t).driven = (s.bench.pins.pin t).driven := by
      by_cases ht : t = r
      · rw [ht, Bench.driven_switch (hs.supply.trans hpins), hfailed]
        rfl
      · rw [Bench.pin_switch_of_ne _ ht]
    obtain ⟨levels, hlevels, hon⟩ := hs.driven hpins t
    exact ⟨levels, hdriven.trans hlevels, hon⟩

/-- A switch that succeeded is noted, and it is the last one of its rail. -/
theorem Tallies.switch_succeeded {start : Bench} {s : System} (hs : s.Tallies start) {r : Rail}
    {on : Bool} (hok : (s.bench.switch r on).1 = true) :
    Tallies start { s with
      bench := (s.bench.switch r on).2
      core := { s.core with rails := s.core.rails.set on r } } where
  supply := hs.supply
  switched := by
    obtain ⟨events, hevents, hon⟩ := hs.switched
    have htrace : (s.bench.switch r on).2.trace = s.bench.trace ++ [.switch r on true] := by
      rw [← hok]
      rfl
    refine ⟨events ++ [.switch r on true], ?_, ?_⟩
    · rw [← List.append_assoc, ← hevents]
      exact htrace
    · intro t
      by_cases ht : t = r
      · subst ht
        rw [Rails.isOn_set, lastSwitch_append]
        simp [lastSwitch, Event.switched?]
      · have he : (Event.switch r on true).switched? t = none := if_neg (Ne.symm ht)
        rw [Rails.isOn_set_of_ne _ _ ht, lastSwitch_concat_of_none he]
        exact hon t
  driven := by
    intro hpins t
    obtain ⟨levels, hlevels, hon⟩ := hs.driven hpins t
    by_cases ht : t = r
    · subst ht
      refine ⟨levels ++ [SupplyPins.levelOf on], ?_, ?_⟩
      · rw [Bench.driven_switch (hs.supply.trans hpins), hok, hlevels, ← List.append_assoc]
        rfl
      · rw [Rails.isOn_set, List.getLast?_append]
        cases on <;> simp [SupplyPins.levelOf]
    · refine ⟨levels, ?_, ?_⟩
      · rw [Bench.pin_switch_of_ne _ ht]
        exact hlevels
      · rw [Rails.isOn_set_of_ne _ _ ht]
        exact hon

/-- The driver notes a switch just if it succeeded. -/
theorem Tallies.switch {start : Bench} {s : System} (hs : s.Tallies start) (r : Rail) (on : Bool) :
    ((Driver.switch r on).exec s).2.Tallies start := by
  rw [Driver.exec_switch]
  rcases hx : s.bench.switch r on with ⟨_ | _, bench⟩
  · have hfailed := hs.switch_failed (congrArg Prod.fst hx)
    rw [hx] at hfailed
    exact hfailed
  · have hswitched := hs.switch_succeeded (congrArg Prod.fst hx)
    rw [hx] at hswitched
    exact hswitched

/-- Without calls and switches no rail is on. -/
theorem tallies_fresh (bench : Bench) (chip : Chip) :
    Tallies bench { bench, core := .fresh chip } where
  supply := rfl
  switched := by
    refine ⟨[], (List.append_nil _).symm, fun r => ?_⟩
    cases r <;> simp [Core.fresh, Rails.isOn, lastSwitch]
  driven := by
    refine fun _ r => ⟨[], (List.append_nil _).symm, ?_⟩
    cases r <;> simp [Core.fresh, Rails.isOn]

/-- No driver leaves the systems in which the rails on record are those that the trace and the pins
say. -/
theorem isSteady_tallies (start : Bench) : IsSteady (Tallies start) where
  bench := fun s => {
    attempt := fun b x h => h.concat rfl rfl rfl rfl fun _ => rfl
    setChip := fun b chip h => h.congr rfl rfl rfl rfl
    select := fun b h => h.congr rfl rfl rfl rfl }
  switch := fun s r on h => h.switch r on
  log := by
    intro s e he h
    refine h.concat rfl rfl rfl rfl fun r => ?_
    cases e with
    | switch t on ok => cases he
    | _ => rfl
  record := fun s core hcore h => h.congr rfl rfl rfl hcore
  around := fun s i locked h => h.congr rfl rfl rfl rfl

end System

/-- Whether an event is the beginning or the end of a wait. -/
def Event.isWait : Event → Bool
  | .delay _ | .woke => true
  | _ => false

/-- A wait switches no rail. -/
theorem Event.switched?_of_isWait {e : Event} (he : e.isWait = true) (r : Rail) :
    e.switched? r = none := by
  cases e with
  | switch t on ok => cases he
  | _ => rfl

namespace Driver

/-- Writing a register of the first bank is one access, whose success is that of the writing. -/
theorem trace_write {s : System} (hs : s.bench.AtFirstBank) {a : Address}
    (ha : Register.bankOf a = Register.bank0) (v : Byte) :
    (exec (write a v) s).2.bench.trace =
      s.bench.trace ++ [.access (s.bench.bus.writeAccess a v) (exec (write a v) s).1.isOk] := by
  have htrace := Bus.trace_write hs ha v
  rw [write, exec_register, RegisterOp.perform]
  rcases hx : (Bus.write a v).exec s.bench with ⟨_ | _, bench⟩ <;>
    · rw [hx] at htrace
      exact htrace

/-- The driver logs nothing but events of which `P` holds. -/
def Logs {α : Type} (P : Event → Prop) (x : Driver α) : Prop :=
  ∀ s, ∃ events, (∀ e ∈ events, P e) ∧ (exec x s).2.bench.trace = s.bench.trace ++ events

section

variable {α β : Type} {P : Event → Prop}

/-- A driver that only answers logs nothing. -/
theorem logs_pure (a : α) : Logs P (pure a : Driver α) :=
  fun _ => ⟨[], by simp, (List.append_nil _).symm⟩

/-- A change of the record logs nothing. -/
theorem logs_modifyCore (f : Core → Core) : Logs P (modifyCore f) :=
  fun _ => ⟨[], by simp, (List.append_nil _).symm⟩

/-- A wait logs its begin and its end. -/
theorem logs_sleep (hP : ∀ e : Event, e.isWait = true → P e) (d : Delay) : Logs P (sleep d) :=
  fun s => ⟨[.delay d, .woke], by simp [hP (.delay d) rfl, hP .woke rfl],
    List.append_assoc s.bench.trace [_] [_]⟩

/-- What follows logs nothing but such events, whatever is done first. -/
theorem trace_bind_logs (x : Driver α) {f : α → Driver β} (hf : ∀ a, Logs P (f a))
    (s : System) : ∃ events, (∀ e ∈ events, P e) ∧
      (exec (x >>= f) s).2.bench.trace = (exec x s).2.bench.trace ++ events := by
  rw [exec_bind]
  rcases exec x s with ⟨e | a, t⟩
  · exact ⟨[], by simp, (List.append_nil _).symm⟩
  · exact hf a t

/-- Two drivers in a row log what both log. -/
theorem Logs.bind {x : Driver α} {f : α → Driver β} (hx : Logs P x) (hf : ∀ a, Logs P (f a)) :
    Logs P (x >>= f) := by
  intro s
  obtain ⟨events, hevents, htrace⟩ := hx s
  obtain ⟨later, hlater, htrace'⟩ := trace_bind_logs x hf s
  refine ⟨events ++ later, ?_, by rw [htrace', htrace, List.append_assoc]⟩
  intro e he
  rcases List.mem_append.mp he with he | he
  · exact hevents e he
  · exact hlater e he

/-- Settling logs waits or nothing. -/
theorem logs_settle (hP : ∀ e : Event, e.isWait = true → P e) (d : Duration) :
    Logs P (settle d) := by
  unfold settle
  split
  · exact logs_sleep hP _
  · exact logs_pure ()

end

/-- A change of what runs is one write and then waits. -/
theorem trace_setPowerAndWait {s : System} (hs : s.bench.AtFirstBank) {p : PowerState}
    (hp : p ≠ s.core.config.power) :
    ∃ ok waits, (∀ e ∈ waits, e.isWait = true) ∧
      (exec (setPowerAndWait p) s).2.bench.trace = s.bench.trace ++
        .access (s.bench.bus.writeAccess Register.pwrMgmt0 (PowerRegister.encode p)) ok ::
          waits := by
  let waits := Settling.between s.core.config.power p
  let pause : Driver Duration := do
    if waits.pause ≠ .zero then
      sleep (.micros waits.pause.micros)
    return waits.settle
  let rest : Unit → Driver Unit := fun _ => do
    modifyCore fun c => { c with config := s.core.config.withPower p }
    settle (← pause)
  have hwait : ∀ e : Event, e.isWait = true → e.isWait = true := fun _ he => he
  have hrest : ∀ a, Logs (fun e => e.isWait = true) (rest a) := by
    intro _
    refine (logs_modifyCore _).bind fun _ => Logs.bind ?_ (logs_settle hwait)
    change Logs _ (if _ then _ else _)
    split
    · exact (logs_sleep hwait _).bind fun _ => logs_pure _
    · exact logs_pure _
  have hexec : exec (setPowerAndWait p) s =
      exec (write Register.pwrMgmt0 (PowerRegister.encode p) >>= rest) s := by
    rw [setPowerAndWait, setPower, bind_assoc, exec_bind, exec_getCore]
    dsimp only
    rw [if_neg hp]
    simp only [store, bind_assoc]
    rfl
  obtain ⟨events, hevents, htrace⟩ :=
    trace_bind_logs (write Register.pwrMgmt0 (PowerRegister.encode p)) hrest s
  have hwrite := trace_write hs (by decide : Register.bankOf Register.pwrMgmt0 = _)
    (PowerRegister.encode p)
  refine ⟨(exec (write Register.pwrMgmt0 (PowerRegister.encode p)) s).1.isOk, events, hevents, ?_⟩
  rw [hexec, htrace, hwrite, List.append_assoc]
  rfl

/-- Attempting to switch off a rail that is on record as on. -/
def release (r : Rail) : Driver Unit := do
  if (← getCore).rails.isOn r then
    attempt (switch r false)

/-- A rail that is on record as on is attempted to be switched off, and the record of the other is
left alone. -/
theorem exec_release (r : Rail) (s : System) :
    ∃ ok t, exec (release r) s = (.ok (), t) ∧
      (∀ other, other ≠ r → t.core.rails.isOn other = s.core.rails.isOn other) ∧
      t.bench.trace = s.bench.trace ++ releasing s.core.rails r ok := by
  have htrace : (s.bench.switch r false).2.trace =
      s.bench.trace ++ [.switch r false (s.bench.switch r false).1] := rfl
  unfold releasing
  rw [release, exec_bind, exec_getCore]
  dsimp only
  split
  · rw [exec_attempt, exec_switch]
    rcases hx : s.bench.switch r false with ⟨ok, bench⟩
    rw [hx] at htrace
    refine ⟨ok, _, rfl, ?_, ?_⟩
    · intro other hother
      cases ok with
      | false => rfl
      | true => exact Rails.isOn_set_of_ne _ _ hother
    · cases ok <;> exact htrace
  · exact ⟨false, s, rfl, fun _ _ => rfl, (List.append_nil _).symm⟩

/-- Releasing the rails never fails. It attempts to switch off those that are on record as on, that
of the interface first. -/
theorem exec_releaseRails (s : System) :
    ∃ interface core t, exec releaseRails s = (.ok (), t) ∧
      t.bench.trace = s.bench.trace ++
        (releasing s.core.rails .vddio interface ++ releasing s.core.rails .vdd core) := by
  obtain ⟨interface, t, ht, hother, htrace⟩ := exec_release .vddio s
  obtain ⟨core, u, hu, _, htrace'⟩ := exec_release .vdd t
  have hvdd : releasing t.core.rails .vdd core = releasing s.core.rails .vdd core := by
    rw [releasing, releasing, hother .vdd (by decide)]
  refine ⟨interface, core, u, ?_, ?_⟩
  · have hseq : releaseRails = release .vddio >>= fun _ => release .vdd := by
      rw [release, bind_assoc]
      refine congrArg (getCore >>= ·) (funext fun c => ?_)
      change (if c.rails.vddio then _ else _) = (if c.rails.vddio then _ else _) >>= _
      split <;> rfl
    rw [hseq, exec_bind, ht]
    exact hu
  · rw [htrace', htrace, List.append_assoc, hvdd]

/-- A power-up that fails reports what failed after the rails were released. -/
theorem exec_powerUp (chip : Chip) (interrupt : PinSetup) (s : System) :
    exec (powerUp chip interrupt) s =
      match exec (supplyAndSetUp chip interrupt) s with
      | (.ok a, t) => (.ok a, t)
      | (.error e, t) => (.error e, (exec releaseRails t).2) := by
  rw [powerUp, exec_tryCatch]
  rcases exec (supplyAndSetUp chip interrupt) s with ⟨e | a, t⟩
  · obtain ⟨_, _, u, hu, _⟩ := exec_releaseRails t
    dsimp only
    rw [exec_bind, hu]
    rfl
  · rfl

/-- An active device in which something runs is told in one write that nothing is to run. It does
not matter whether that succeeds, and the rails on record stay as they are. -/
theorem exec_attempt_off {s : System} (hs : s.bench.AtFirstBank) :
    ∃ ok waits t, (∀ e ∈ waits, e.isWait = true) ∧
      exec (attempt (setPowerAndWait .off)) s = (.ok (), t) ∧ t.core.rails = s.core.rails ∧
      t.bench.trace = s.bench.trace ++
        if s.core.config.power ≠ .off then
          .access (s.bench.bus.writeAccess Register.pwrMgmt0 (PowerRegister.encode .off)) ok ::
            waits
        else [] := by
  have hrails : (exec (setPowerAndWait .off) s).2.core.rails = s.core.rails := by
    have houtcome := outcome_setPowerAndWait .off s rfl
    rcases hx : exec (setPowerAndWait .off) s with ⟨_ | _, t⟩
    · rw [hx] at houtcome
      exact congrArg Core.rails houtcome.1
    · rw [hx] at houtcome
      dsimp only at houtcome ⊢
      rw [houtcome]
  rw [exec_attempt]
  by_cases hoff : s.core.config.power = .off
  · refine ⟨false, [], _, by simp, rfl, hrails, ?_⟩
    rw [if_neg (not_not_intro hoff), List.append_nil, setPowerAndWait, setPower, exec_bind,
      exec_bind, exec_getCore]
    dsimp only
    rw [if_pos hoff.symm]
    rfl
  · obtain ⟨ok, waits, hwaits, htrace⟩ := trace_setPowerAndWait hs (Ne.symm hoff)
    refine ⟨ok, waits, _, hwaits, rfl, hrails, ?_⟩
    rw [if_pos hoff]
    exact htrace

/-- Shutting down never fails. An active device in which something runs is first told in one write
that nothing is to run; then the rails are released, whatever became of that. -/
theorem exec_shutdown {s : System} (hs : s.bench.AtFirstBank) :
    ∃ ok waits interface core t, (∀ e ∈ waits, e.isWait = true) ∧
      exec shutdown s = (.ok (), t) ∧
      t.bench.trace = s.bench.trace ++
        ((if s.core.power.active ∧ s.core.config.power ≠ .off then
            .access (s.bench.bus.writeAccess Register.pwrMgmt0 (PowerRegister.encode .off)) ok ::
              waits
          else []) ++
        (releasing s.core.rails .vddio interface ++ releasing s.core.rails .vdd core)) := by
  let note : Core → Core := fun c => { c with power := { c.power with enabled := false } }
  rw [shutdown, exec_bind, exec_getCore]
  dsimp only
  split
  · -- Nothing is left to turn off on a device that is suspended.
    rename_i hsuspended
    obtain ⟨interface, core, t, ht, htrace⟩ :=
      exec_releaseRails { s with core := note s.core }
    have hactive : ¬ (s.core.power.active = true ∧ s.core.config.power ≠ .off) := by
      intro h
      rw [RuntimePower.suspended, h.1] at hsuspended
      cases hsuspended
    refine ⟨false, [], interface, core, t, by simp, ?_, ?_⟩
    · rw [exec_bind, exec_modifyCore]
      exact ht
    · rw [if_neg hactive, List.nil_append]
      exact htrace
  · rename_i hactive
    have hactive : s.core.power.active = true := by
      cases h : s.core.power.active with
      | true => rfl
      | false => exact absurd (by rw [RuntimePower.suspended, h]; rfl) hactive
    obtain ⟨ok, waits, u, hwaits, hu, hrails, hutrace⟩ := exec_attempt_off hs
    obtain ⟨interface, core, t, ht, htrace⟩ := exec_releaseRails { u with core := note u.core }
    refine ⟨ok, waits, interface, core, t, hwaits, ?_, ?_⟩
    · rw [exec_bind, hu]
      dsimp only
      rw [exec_bind, exec_modifyCore]
      exact ht
    · have hrails' : (note u.core).rails = s.core.rails := hrails
      dsimp only at htrace
      rw [hrails'] at htrace
      rw [htrace, hutrace]
      simp only [hactive, true_and, List.append_assoc]

end Driver

end Inertial
