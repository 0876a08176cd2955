import Inertial.Proofs.Driver.Composition
import Inertial.Proofs.Driver.Outcome
import Inertial.Proofs.Driver.Rails

/-!
# What a driver does and logs

Most drivers log accesses and waits and change nothing on record but the configuration. They tune
the device (`Driver.Tunes`). What the others do can be told from the record that they find:
`Driver.Effect c Q x` says that `Q` holds of the result of `x`, the record after it and what it
logged wherever `x` is begun with the record `c` and reaches the registers of the first bank without
a selection.
-/

set_option autoImplicit false

namespace Inertial

/-- Whether an event is an attempt to switch a rail. -/
def Event.isSwitch : Event → Bool
  | .switch .. => true
  | _ => false

/-- No rail is attempted to be switched. -/
def IsQuiet (events : List Event) : Prop :=
  ∀ e ∈ events, e.isSwitch = false

/-- Where nothing is logged no rail is switched. -/
theorem isQuiet_nil : IsQuiet [] := by
  simp [IsQuiet]

/-- Two quiet stretches make a quiet one. -/
theorem IsQuiet.append {events later : List Event} (h : IsQuiet events) (h' : IsQuiet later) :
    IsQuiet (events ++ later) := by
  intro e he
  rcases List.mem_append.mp he with he | he
  · exact h e he
  · exact h' e he

/-- Then no rail was switched. -/
theorem IsQuiet.lastSwitch_eq_none {events : List Event} (h : IsQuiet events) (r : Rail) :
    lastSwitch r events = none := by
  refine Inertial.lastSwitch_eq_none fun e he => ?_
  have hquiet := h e he
  cases e with
  | switch t on ok => cases hquiet
  | _ => rfl

namespace Driver

variable {α β : Type}

/-- Begun with the record `c` in the first bank, the driver has a result, a record after it and a
log of which `Q` holds, and it stays in that bank. -/
def Effect (c : Core) (Q : Except DriverError α → Core → List Event → Prop)
    (x : Driver α) : Prop :=
  ∀ s : System, s.core = c → s.bench.AtFirstBank → (exec x s).2.bench.AtFirstBank ∧
    ∃ events, (exec x s).2.bench.trace = s.bench.trace ++ events ∧
      Q (exec x s).1 (exec x s).2.core events

variable {c : Core} {Q R : Except DriverError α → Core → List Event → Prop}

/-- Less may be claimed of an effect. -/
theorem Effect.mono {x : Driver α} (hx : Effect c Q x) (h : ∀ r d events, Q r d events →
    R r d events) : Effect c R x := by
  intro s hs hbank
  obtain ⟨hafter, events, htrace, hQ⟩ := hx s hs hbank
  exact ⟨hafter, events, htrace, h _ _ _ hQ⟩

/-- What is known of the result and the record may be added. -/
theorem Effect.and {P : Except DriverError α → Core → Prop} {x : Driver α} (hx : Effect c Q x)
    (hP : Outcome c P x) : Effect c (fun r d events => Q r d events ∧ P r d) x := by
  intro s hs hbank
  obtain ⟨hafter, events, htrace, hQ⟩ := hx s hs hbank
  exact ⟨hafter, events, htrace, hQ, hP s hs⟩

/-- The second of two steps goes on from the record that the first left, unless that failed, and
logs what it does after that. -/
theorem Effect.bind {P : Except DriverError β → Core → List Event → Prop} {x : Driver α}
    {f : α → Driver β} (hx : Effect c Q x)
    (hok : ∀ a d events, Q (.ok a) d events →
      Effect d (fun r d' later => P r d' (events ++ later)) (f a))
    (herror : ∀ e d events, Q (.error e) d events → P (.error e) d events) :
    Effect c P (x >>= f) := by
  intro s hs hbank
  obtain ⟨hafter, events, htrace, hQ⟩ := hx s hs hbank
  rw [exec_bind]
  rcases hexec : exec x s with ⟨e | a, t⟩
  · rw [hexec] at hafter htrace hQ
    exact ⟨hafter, events, htrace, herror e t.core events hQ⟩
  · rw [hexec] at hafter htrace hQ
    obtain ⟨hend, later, hlater, hP⟩ := hok a t.core events hQ t rfl hafter
    refine ⟨hend, events ++ later, ?_, hP⟩
    rw [← List.append_assoc, ← htrace]
    exact hlater

/-- A driver that only answers logs nothing. -/
theorem effect_pure {a : α} (h : Q (.ok a) c []) : Effect c Q (pure a) := by
  intro s hs hbank
  subst hs
  exact ⟨hbank, [], (List.append_nil _).symm, h⟩

/-- What follows a look at the record knows it. -/
theorem effect_getCore_bind {f : Core → Driver α} (hf : Effect c Q (f c)) :
    Effect c Q (getCore >>= f) := by
  intro s hs hbank
  rw [exec_bind, exec_getCore]
  dsimp only
  rw [hs]
  exact hf s hs hbank

/-- What follows a change of the record finds it changed. -/
theorem effect_modifyCore_bind {f : Core → Core} {g : Unit → Driver α}
    (hg : Effect (f c) Q (g ())) : Effect c Q (modifyCore f >>= g) := by
  intro s hs hbank
  subst hs
  exact hg { s with core := f s.core } rfl hbank

/-- A change of the record succeeds and logs nothing. -/
theorem effect_modifyCore {Q : Except DriverError Unit → Core → List Event → Prop}
    {f : Core → Core} (h : Q (.ok ()) (f c) []) : Effect c Q (modifyCore f) := by
  intro s hs hbank
  subst hs
  exact ⟨hbank, [], (List.append_nil _).symm, h⟩

/-- A wait succeeds, leaves the record as it is and logs its begin and its end. -/
theorem effect_sleep (d : Delay) :
    Effect c (fun r d' events => r = .ok () ∧ d' = c ∧ events = [.delay d, .woke]) (sleep d) := by
  intro s hs hbank
  subst hs
  exact ⟨hbank, [.delay d, .woke], List.append_assoc s.bench.trace [_] [_], rfl, rfl, rfl⟩

/-- A switch is noted if it succeeds, and it is logged in any case. -/
theorem effect_switch (rail : Rail) (on : Bool) :
    Effect c (fun r d events =>
      match r with
      | .ok _ => events = [.switch rail on true] ∧ d = { c with rails := c.rails.set on rail }
      | .error e => events = [.switch rail on false] ∧ d = c ∧ e = .rail rail)
      (switch rail on) := by
  intro s hs hbank
  subst hs
  have hafter : (s.bench.switch rail on).2.AtFirstBank := hbank
  have htrace : (s.bench.switch rail on).2.trace =
      s.bench.trace ++ [.switch rail on (s.bench.switch rail on).1] := rfl
  rw [exec_switch]
  rcases hx : s.bench.switch rail on with ⟨_ | _, bench⟩
  · rw [hx] at hafter htrace
    exact ⟨hafter, _, htrace, rfl, rfl, rfl⟩
  · rw [hx] at hafter htrace
    exact ⟨hafter, _, htrace, rfl, rfl⟩

/-- An operation on registers logs accesses only and leaves the record alone. -/
theorem effect_register (op : RegisterOp) (hop : Register.bankOf op.address = Register.bank0) :
    Effect c (fun _ d events => IsQuiet events ∧ d = c) (register op) := by
  intro s hs hbank
  have hsteady : Bench.IsSteady Register.bank0 fun b => b.AtFirstBank ∧
      ∃ events, b.trace = s.bench.trace ++ events ∧ IsQuiet events := {
    attempt := by
      rintro b x ⟨hb, events, htrace, hquiet⟩
      refine ⟨hb, events ++ [.access x (b.attempt x).1], ?_, hquiet.append (by simp [IsQuiet,
        Event.isSwitch])⟩
      rw [← List.append_assoc, ← htrace]
      rfl
    setChip := fun _ _ h => h
    select := fun _ h => ⟨Or.inr rfl, h.2⟩ }
  have hend := op.stays_perform hsteady hop s.bench
    ⟨hbank, [], (List.append_nil _).symm, isQuiet_nil⟩
  subst hs
  rw [exec_register]
  rcases hx : op.perform.exec s.bench with ⟨_ | _, bench⟩ <;>
    · rw [hx] at hend
      obtain ⟨hafter, events, htrace, hquiet⟩ := hend
      exact ⟨hafter, events, htrace, hquiet, rfl⟩

/-- A write is one access, which fails if the write does. -/
theorem effect_write {a : Address} (ha : Register.bankOf a = Register.bank0) (v : Byte) :
    Effect c (fun r d events => (∃ bus : Bus, events = [.access (bus.writeAccess a v) r.isOk]) ∧
      d = c) (write a v) := by
  intro s hs hbank
  obtain ⟨hafter, _⟩ := effect_register (c := c) (.write a v) ha s hs hbank
  have hcore : (exec (write a v) s).2.core = c := (outcome_register (.write a v) s hs).1
  exact ⟨hafter, _, trace_write hbank ha v, ⟨s.bench.bus, rfl⟩, hcore⟩

/-! ## Tuning -/

/-- The driver switches nothing and changes nothing on record but the configuration. -/
def Tunes (x : Driver α) : Prop :=
  ∀ c, Effect c (fun _ d events => IsQuiet events ∧ ∃ config, d = { c with config }) x

/-- Two drivers that tune do so one after the other. -/
theorem Tunes.bind {x : Driver α} {f : α → Driver β} (hx : Tunes x) (hf : ∀ a, Tunes (f a)) :
    Tunes (x >>= f) := by
  intro c
  refine (hx c).bind ?_ fun e d events h => h
  rintro a d events ⟨hquiet, config, rfl⟩
  refine (hf a _).mono ?_
  rintro r d' later ⟨hlater, config', rfl⟩
  exact ⟨hquiet.append hlater, config', rfl⟩

/-- Doing nothing tunes. -/
theorem tunes_pure (a : α) : Tunes (pure a : Driver α) :=
  fun c => effect_pure ⟨isQuiet_nil, c.config, rfl⟩

/-- Failing changes nothing. -/
theorem tunes_throw (e : DriverError) : Tunes (throw e : Driver α) :=
  fun c _ hs hbank => ⟨hbank, [], (List.append_nil _).symm, isQuiet_nil, c.config, hs⟩

/-- A look at the record changes nothing. -/
theorem tunes_getCore : Tunes getCore :=
  fun c _ hs hbank => ⟨hbank, [], (List.append_nil _).symm, isQuiet_nil, c.config, hs⟩

/-- A wait switches nothing. -/
theorem tunes_sleep (d : Delay) : Tunes (sleep d) := by
  intro c
  refine (effect_sleep d).mono ?_
  rintro r d' _ ⟨_, hd, rfl⟩
  exact ⟨by simp [IsQuiet, Event.isSwitch], c.config, hd⟩

/-- An operation on a register of the first bank switches nothing. -/
theorem tunes_register (op : RegisterOp) (hop : Register.bankOf op.address = Register.bank0) :
    Tunes (register op) := by
  intro c
  refine (effect_register op hop).mono ?_
  rintro r d events ⟨hquiet, hd⟩
  exact ⟨hquiet, c.config, hd⟩

/-- The configuration on record may be replaced. -/
theorem tunes_record (config : DeviceConfig) : Tunes (modifyCore fun c => { c with config }) :=
  fun _ => effect_modifyCore ⟨isQuiet_nil, config, rfl⟩

/-- What tunes step by step tunes. -/
theorem sequential_tunes : Sequential fun _ x => Tunes x where
  pure := tunes_pure
  bind := Tunes.bind

/-- Writing configuration registers and waiting is tuning in the sense of the log, too. -/
theorem Composed.tunes {n : Nat} {x : Driver α}
    (hx : Composed TuningStep Answers n (fun _ => True) x) : Tunes x := by
  refine hx.holds sequential_tunes tunes_getCore ?_
  intro n K x hx
  cases hx with
  | store r config =>
    exact (tunes_register (.write r.address _) r.bankOf_address).bind fun _ => tunes_record config
  | sleep d => exact tunes_sleep d

/-- Turning the sensors off is recorded if it succeeds, and nothing is done if nothing runs. -/
theorem effect_setPowerAndWait_off :
    Effect c (fun r d events => IsQuiet events ∧
      (c.config.power = .off → r = .ok () ∧ events = []) ∧
      match r with
      | .ok _ => d = { c with config := c.config.withPower .off }
      | .error _ => d = c) (setPowerAndWait .off) := by
  by_cases hoff : c.config.power = .off
  · have hsame : c.config.withPower .off = c.config := by
      rw [← hoff, DeviceConfig.withPower_power]
    unfold setPowerAndWait setPower
    rw [bind_assoc]
    apply effect_getCore_bind
    dsimp only
    rw [if_pos hoff.symm, pure_bind]
    refine effect_pure ⟨isQuiet_nil, fun _ => ⟨rfl, rfl⟩, ?_⟩
    rw [hsame]
  · have htunes : Tunes (setPowerAndWait .off) := (composed_setPowerAndWait .off).tuning.tunes
    refine ((htunes c).and (outcome_setPowerAndWait .off)).mono ?_
    rintro r d events ⟨⟨hquiet, _⟩, hd⟩
    refine ⟨hquiet, fun h => absurd h hoff, ?_⟩
    cases r with
    | ok _ => exact hd
    | error e => exact hd.1

/-! ## Powering up -/

/-- A check reads and nothing else. -/
theorem tunes_check {a : Address} (ha : Register.bankOf a = Register.bank0) (fails : Byte → Prop)
    [DecidablePred fails] (error : Byte → DriverError) : Tunes (check a fails error) := by
  refine (tunes_register (.read a) ha).bind fun found => ?_
  split
  · exact tunes_throw _
  · exact tunes_pure ()

/-- Setting up a chip that is supplied switches nothing. -/
theorem SetUpStep.tunes {chip : Chip} {x : Driver Unit} (hx : SetUpStep chip x) : Tunes x := by
  cases hx with
  | write _ hbank v => exact tunes_register (.write _ v) hbank
  | update _ hbank mask value => exact tunes_register (.update _ mask value) hbank
  | sleep d => exact tunes_sleep d
  | identify => exact tunes_check rfl _ _
  | confirm => exact tunes_check rfl _ _
  | record config => exact tunes_record config

/-- A power-up that succeeds leaves both rails on and the device active, and changes nothing else on
record but the configuration. -/
theorem core_of_exec_powerUp {chip : Chip} {interrupt : PinSetup} {s t : System}
    (h : exec (powerUp chip interrupt) s = (.ok (), t)) :
    ∃ config, t.core = { s.core with
      config
      rails := { vdd := true, vddio := true }
      power := { enabled := true, active := true } } := by
  obtain ⟨_, s₁, hvdd, h₁⟩ := exec_bind_eq_ok (exec_supplyAndSetUp_of_powerUp h)
  obtain ⟨_, s₂, hpause, h₂⟩ := exec_bind_eq_ok h₁
  obtain ⟨_, s₃, hvddio, h₃⟩ := exec_bind_eq_ok h₂
  obtain ⟨_, s₄, hidentify, h₄⟩ := exec_bind_eq_ok h₃
  have hcore₁ : s₁.core = { s.core with rails := s.core.rails.set true .vdd } :=
    (outcome_switch .vdd true).of_exec hvdd
  have hcore₂ : s₂.core = s₁.core := by
    rw [exec_sleep] at hpause
    cases hpause
    rfl
  have hcore₃ : s₃.core = { s₂.core with rails := s₂.core.rails.set true .vddio } :=
    success_interfaceOn.of_exec hvddio () rfl
  have hcore₄ : s₄.core = s₃.core := by
    obtain ⟨_, u, hread, hcheck⟩ := exec_bind_eq_ok hidentify
    have hu : u.core = s₃.core := ((outcome_register (.read Register.whoAmI)).of_exec hread).1
    split at hcheck
    · cases hcheck
    · cases hcheck
      exact hu
  -- All that follows tunes, so of the record it can change no more than the configuration.
  have hrest := (straight_afterIdentify chip interrupt).holds sequential_tunes SetUpStep.tunes
  simp only [← bind_assoc] at h₄
  obtain ⟨_, s₅, hsetUp, h₅⟩ := exec_bind_eq_ok h₄
  simp only [bind_assoc] at hsetUp
  obtain ⟨_, _, _, _, config, hcore₅⟩ :=
    hrest s₄.core s₄ rfl (atFirstBank_of_exec_identify hidentify)
  rw [hsetUp] at hcore₅
  rw [exec_modifyCore] at h₅
  cases h₅
  refine ⟨config, ?_⟩
  dsimp only at hcore₅ ⊢
  rw [hcore₅, hcore₄, hcore₃, hcore₂, hcore₁]
  rfl

end Driver

end Inertial
