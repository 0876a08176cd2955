import Inertial.Proofs.Shared.SerialTwin
import Inertial.Session.Run

/-!
# Sessions on twin benches

The choice of the bus cannot be told from a session. Of two sessions on chips with the same
contents, one with the flat bus and one with the serial one, each report of the second is that of
the first with every access replaced by the one transaction that does the same, and with less said
about a fault of the bus (`Report.Twins`). No transaction selects a bank.

A session does the calls of a directive in rounds. Here the calls of a deed may also go to other
sinks and be resumed in whatever order, with switches that fail at one time and not at another
(`Deed`).
-/

set_option autoImplicit false

namespace Inertial

/-- Something that is done in a session. -/
inductive Deed : Type 1 where
  /-- Takes a step. -/
  | take (step : Step)
  /-- Makes calls on the device, which are resumed by position. -/
  | interleave {σ : Type} [Sink σ] (plan : Plan) (calls : List (Call σ)) (wakeUps : Nat)
      (schedule : List Nat)

namespace Session

/-- The session with a plan that counts from now on. -/
def under (s : Session) (plan : Plan) : Session :=
  { s with bench := { s.bench with plan, accesses := 0, switches := 0, trace := [] } }

/-- What is said about a session that was used, and the session. -/
def report (used : Outcome × Session) : Report × Session :=
  ({ outcome := used.1
     events := used.2.bench.trace.filter (Event.isVisible used.2.bench.supply)
     standing := used.2.standing }, used.2)

/-- Does a deed and reports on it. -/
def act (s : Session) : Deed → Report × Session
  | .take step => s.step step
  | @Deed.interleave _ _ plan calls wakeUps schedule =>
    report <| (s.under plan).withDevice fun system =>
      let pool := (Pool.ofCalls calls system).follow wakeUps schedule
      (.replies pool.replies pool.order, pool.system)

/-- Does deeds one after the other and reports on each. -/
def pass (s : Session) : List Deed → List Report × Session
  | [] => ([], s)
  | first :: rest =>
    let (report, s) := s.act first
    let (reports, s) := s.pass rest
    (report :: reports, s)

/-- A step is a directive obeyed under the plan of the step, and reported. -/
theorem step_eq_report (s : Session) (step : Step) :
    s.step step = report ((s.under (step.plan s.faults)).obey step.wakeUps step.directive) :=
  rfl

/-- A session is made of deeds that are steps. -/
theorem pass_take (s : Session) (steps : List Step) :
    (s.pass (steps.map .take)).1 = s.run steps := by
  induction steps generalizing s with
  | nil => rfl
  | cons first rest ih => exact congrArg (List.cons (s.step first).1) (ih (s.step first).2)

end Session

/-- Nothing in the directive depends on how registers are reached: it has no use of the bus on its
own but on registers of the first bank, and no faults at flat addresses. -/
def Directive.IsPlain : Directive → Prop
  | .register op => op.IsPlain
  | .addFaults f => f.reads = [] ∧ f.writes = []
  | _ => True

/-- An access fails or not however it is made. -/
def Plan.IsPlain (plan : Plan) : Prop :=
  ∀ k x, plan.failsAccess k x.overSerial = plan.failsAccess k x

/-- Nothing in the deed depends on how registers are reached. -/
def Deed.IsPlain : Deed → Prop
  | .take step => step.directive.IsPlain
  | @Deed.interleave _ _ plan _ _ _ => plan.IsPlain

/-- How a directive goes over a serial bus. -/
def Outcome.overSerial : Outcome → Outcome
  | .failed e => .failed e.overSerial
  | .reply r => .reply (r.map Reply.overSerial)
  | .replies rs order => .replies (rs.map (Option.map Reply.overSerial)) order
  | outcome => outcome

/-- How things stand with the flat bus and with the serial one: the device is the same, and a spare
serial bus takes the first bank for selected. -/
inductive Standing.Twins : Standing → Standing → Prop where
  | device (config : DeviceConfig) (power : RuntimePower) :
      Twins (.device config power) (.device config power)
  | lost : Twins (.spare none) (.spare none)
  | spare : Twins (.spare none) (.spare (some Register.bank0))

/-- The report of a session with the flat bus and that of its twin. -/
structure Report.Twins (p q : Report) : Prop where
  outcome : q.outcome = p.outcome.overSerial
  events : q.events = p.events.map Event.overSerial
  plain : ∀ e ∈ p.events, e.IsPlain
  unselected : ∀ e ∈ q.events, e.isSelection = false
  standing : p.standing.Twins q.standing

/-- The benches are twins, and everything else is the same. -/
structure Session.Twins (u v : Session) : Prop where
  bench : u.bench.Twins v.bench
  device : v.device = u.device
  hasBus : v.hasBus = u.hasBus
  faults : v.faults = u.faults
  plain : u.faults.reads = [] ∧ u.faults.writes = []

namespace Session

/-- Both uses go the same way and leave twins. -/
def UseTwins (p q : Outcome × Session) : Prop :=
  q.1 = p.1.overSerial ∧ p.2.Twins q.2

/-- A chip in its first bank is a twin of itself, once with the flat bus and once with a new serial
one. -/
theorem twins_start (supply : Supply) (contents : List (Address × Byte)) :
    (start .flat supply contents).Twins (start (.serial Register.bank0) supply contents) where
  bench := {
    flat := rfl
    serial := rfl
    bank := rfl
    memory := rfl
    supply := rfl
    pins := rfl
    failsAccess := fun _ _ => rfl
    failsSwitch := rfl
    edges := rfl
    accesses := rfl
    switches := rfl
    inbox := rfl
    trace := rfl
    plain := by simp [start] }
  device := rfl
  hasBus := rfl
  faults := rfl
  plain := ⟨rfl, rfl⟩

namespace Twins

variable {u v : Session}

/-- Twin sessions stay twins if both get a bus. -/
theorem withBus (h : u.Twins v) : u.withBus.Twins v.withBus := by
  unfold Session.withBus
  rw [h.hasBus]
  split
  · exact h
  · refine { h with bench := { h.bench with flat := ?_, serial := ?_ }, hasBus := rfl }
    · rw [h.bench.flat]
      rfl
    · rw [h.bench.serial]
      rfl

/-- Twin sessions stand the same, but for the kind of bus. -/
theorem standing (h : u.Twins v) : u.standing.Twins v.standing := by
  unfold Session.standing
  rw [h.device, h.bench.flat, h.bench.serial, h.hasBus]
  cases u.device with
  | some core => exact .device core.config core.power
  | none =>
    cases u.hasBus with
    | true => exact .spare
    | false => exact .lost

/-- Both have a device that is used in the same way, or neither has one. -/
theorem withDevice (h : u.Twins v) {use : System → Outcome × System}
    (huse : ∀ s t : System, s.Twins t →
      (use t).1 = (use s).1.overSerial ∧ (use s).2.Twins (use t).2) :
    UseTwins (u.withDevice use) (v.withDevice use) := by
  unfold Session.withDevice
  rw [h.device]
  cases u.device with
  | none => exact ⟨rfl, h⟩
  | some core =>
    have hsystem : System.Twins { bench := u.bench, core } { bench := v.bench, core } :=
      ⟨h.bench, rfl, rfl⟩
    obtain ⟨houtcome, hafter⟩ := huse _ _ hsystem
    exact ⟨houtcome, { h with
      bench := hafter.bench
      device := congrArg some hafter.core }⟩

/-- Without a device, both buses are used in the same way. -/
theorem withBench (h : u.Twins v) {use : Bench → Outcome × Bench}
    (huse : ∀ b c : Bench, b.Twins c →
      (use c).1 = (use b).1.overSerial ∧ (use b).2.Twins (use c).2) :
    UseTwins (u.withBench use) (v.withBench use) := by
  unfold Session.withBench
  rw [h.device]
  cases u.device with
  | some core => exact ⟨rfl, h⟩
  | none =>
    have hbus := h.withBus
    obtain ⟨houtcome, hafter⟩ := huse _ _ hbus.bench
    exact ⟨houtcome, { hbus with bench := hafter }⟩

/-- Powering up goes the same way. -/
theorem powerUp (h : u.Twins v) (number : Nat) (interrupt : PinSetup) :
    UseTwins (u.powerUp number interrupt) (v.powerUp number interrupt) := by
  unfold Session.powerUp
  cases Chip.ofNumber? number with
  | none => exact ⟨rfl, h⟩
  | some chip =>
    have hbus := h.withBus
    have hsystem : System.Twins { bench := u.withBus.bench, core := .fresh chip }
        { bench := v.withBus.bench, core := .fresh chip } := ⟨hbus.bench, rfl, rfl⟩
    obtain ⟨hresult, hafter⟩ := (Driver.carriesOver_powerUp chip interrupt).run hsystem
    dsimp only
    rcases hx : (Driver.powerUp chip interrupt).exec
        { bench := u.withBus.bench, core := .fresh chip } with ⟨r, s⟩
    rcases hy : (Driver.powerUp chip interrupt).exec
        { bench := v.withBus.bench, core := .fresh chip } with ⟨r', t⟩
    rw [Driver.exec] at hx hy
    rw [hx, hy] at hresult hafter
    dsimp only at hresult hafter ⊢
    subst hresult
    cases r with
    | ok a =>
      refine ⟨rfl, { hbus with bench := (hafter.withInbox {}).bench, device := ?_ }⟩
      exact congrArg some hafter.core
    | error e => exact ⟨rfl, { hbus with bench := hafter.bench, hasBus := rfl }⟩

/-- A directive goes the same way. -/
theorem obey (h : u.Twins v) {d : Directive} (hd : d.IsPlain) (wakeUps : Nat) :
    UseTwins (u.obey wakeUps d) (v.obey wakeUps d) := by
  cases d with
  | setRegisters contents =>
    refine ⟨rfl, { h with bench := { h.bench with memory := ?_ } }⟩
    exact congrArg (fun m => Memory.writeAll m contents) h.bench.memory
  | addFaults f =>
    have hmerge : (u.faults.merge f).reads = [] ∧ (u.faults.merge f).writes = [] := by
      simp [Faults.merge, h.plain.1, h.plain.2, hd.1, hd.2]
    exact ⟨rfl, { h with faults := congrArg (Faults.merge · f) h.faults, plain := hmerge }⟩
  | clearFaults => exact ⟨rfl, { h with faults := rfl, plain := ⟨rfl, rfl⟩ }⟩
  | powerUp number interrupt =>
    rw [Session.obey, Session.obey, h.device]
    split
    · exact ⟨rfl, h⟩
    · exact h.powerUp number interrupt
  | shutdown =>
    let use : System → Outcome × System := fun system => (.ok, (Driver.shutdown.exec system).2)
    have hdown : UseTwins (u.withDevice use) (v.withDevice use) :=
      h.withDevice fun s t hst => ⟨rfl, (Driver.composed_shutdown.carriesOver.run hst).2⟩
    exact ⟨hdown.1, { hdown.2 with device := rfl }⟩
  | call c =>
    refine h.withDevice fun s t hst => ?_
    obtain ⟨hreply, hafter⟩ := c.perform_twins hst wakeUps
    exact ⟨congrArg Outcome.reply hreply, hafter⟩
  | concurrent calls =>
    refine h.withDevice fun s t hst => ?_
    have hpool := (Pool.Twins.ofCalls hst calls).settle wakeUps
    refine ⟨?_, hpool.system⟩
    dsimp only
    rw [hpool.replies, hpool.order]
    rfl
  | register op =>
    refine h.withBench fun b c hbc => ?_
    obtain ⟨hanswer, hafter⟩ := hbc.register hd
    -- The answers are the same but for what a failure is called on each bus.
    rcases hx : op.perform.exec b with ⟨fault | a, b'⟩ <;>
      rcases hy : op.perform.exec c with ⟨fault' | a', c'⟩ <;> rw [hx, hy] at hanswer hafter
    · exact ⟨congrArg (fun e => Outcome.failed (.bus e)) (Except.error.inj hanswer), hafter⟩
    · cases hanswer
    · cases hanswer
    · exact ⟨congrArg (Outcome.answer op) (Except.ok.inj hanswer), hafter⟩
  | switch r on =>
    refine h.withBench fun b c hbc => ?_
    obtain ⟨hok, hafter⟩ := hbc.switch r on
    dsimp only
    rw [hok]
    refine ⟨?_, hafter⟩
    cases (b.switch r on).1 <;> rfl
  | renewBus =>
    refine h.withBench fun b c hbc => ⟨rfl, { hbc with flat := ?_, serial := ?_ }⟩
    · exact congrArg Bus.renew hbc.flat
    · exact congrArg Bus.renew hbc.serial

/-- A plan that does not look at how an access is made strikes both. -/
theorem under (h : u.Twins v) {plan : Plan} (hplan : plan.IsPlain) :
    (u.under plan).Twins (v.under plan) :=
  { h with
    bench := { h.bench with
      failsAccess := hplan
      failsSwitch := rfl
      edges := rfl
      accesses := rfl
      switches := rfl
      trace := rfl
      plain := by simp [Session.under] } }

/-- What goes the same way is reported in the same way. -/
theorem report {p q : Outcome × Session} (h : UseTwins p q) :
    (Session.report p).1.Twins (Session.report q).1 ∧
      (Session.report p).2.Twins (Session.report q).2 := by
  obtain ⟨houtcome, hafter⟩ := h
  have hvisible : Event.isVisible p.2.bench.supply ∘ Event.overSerial =
      Event.isVisible p.2.bench.supply := by
    funext e
    cases e <;> rfl
  have hplain : ∀ e ∈ (Session.report p).1.events, e.IsPlain :=
    fun e he => hafter.bench.plain e (List.mem_filter.mp he).1
  have hevents : (Session.report q).1.events =
      (Session.report p).1.events.map Event.overSerial := by
    dsimp only [Session.report]
    rw [hafter.bench.trace, hafter.bench.supply, List.filter_map, hvisible]
  refine ⟨⟨houtcome, hevents, hplain, ?_, hafter.standing⟩, hafter⟩
  intro e he
  rw [hevents] at he
  obtain ⟨e', he', rfl⟩ := List.mem_map.mp he
  exact Event.isSelection_overSerial (hplain e' he')

/-- The faults of a twin spare the accesses, so a step fails the same ones on both. -/
theorem isPlain_plan (h : u.Twins v) (step : Step) : (step.plan u.faults).IsPlain := by
  intro k x
  obtain ⟨hreads, hwrites⟩ := h.plain
  cases x <;> simp [Step.plan, Access.overSerial, Faults.hits, hreads, hwrites]

/-- A deed goes the same way and is reported in the same way. -/
theorem act (h : u.Twins v) {d : Deed} (hd : d.IsPlain) :
    (u.act d).1.Twins (v.act d).1 ∧ (u.act d).2.Twins (v.act d).2 := by
  cases d with
  | take step =>
    rw [Session.act, Session.act, step_eq_report, step_eq_report, h.faults]
    exact report ((h.under (h.isPlain_plan step)).obey hd step.wakeUps)
  | interleave plan calls wakeUps schedule =>
    apply report
    refine (h.under hd).withDevice fun s t hst => ?_
    have hpool := (Pool.Twins.ofCalls hst calls).follow wakeUps schedule
    refine ⟨?_, hpool.system⟩
    dsimp only
    rw [hpool.replies, hpool.order]
    rfl

/-- So do all deeds, one after the other. -/
theorem pass (h : u.Twins v) {deeds : List Deed} (hdeeds : ∀ d ∈ deeds, d.IsPlain) :
    (∀ i : Nat, Option.Rel Report.Twins (u.pass deeds).1[i]? (v.pass deeds).1[i]?) ∧
      (u.pass deeds).2.Twins (v.pass deeds).2 := by
  induction deeds generalizing u v with
  | nil => exact ⟨fun i => .none, h⟩
  | cons first rest ih =>
    obtain ⟨hreport, hafter⟩ := h.act (hdeeds first List.mem_cons_self)
    obtain ⟨hreports, hend⟩ := ih hafter fun d hd => hdeeds d (List.mem_cons_of_mem _ hd)
    refine ⟨?_, hend⟩
    intro i
    cases i with
    | zero => exact .some hreport
    | succ i => exact hreports i

end Twins

/-- Which bus a session has cannot be told from it. On chips with the same contents, the session
with a serial bus reports on each deed as the one with the flat bus does, with one transaction in
the place of each access and none that selects a bank. At the end the device and the registers are
the same, and both ends of the serial bus are in the first bank. -/
theorem serial_follows_flat (supply : Supply) (contents : List (Address × Byte))
    {deeds : List Deed} (hdeeds : ∀ d ∈ deeds, d.IsPlain) :
    let flat := (start .flat supply contents).pass deeds
    let serial := (start (.serial Register.bank0) supply contents).pass deeds
    (∀ i : Nat, Option.Rel Report.Twins flat.1[i]? serial.1[i]?) ∧
      serial.2.device = flat.2.device ∧
      serial.2.bench.chip.memory = flat.2.bench.chip.memory ∧
      serial.2.bench.bus = .serial Register.bank0 ∧
      serial.2.bench.chip.bank = Register.bank0 := by
  intro flat serial
  obtain ⟨hreports, hend⟩ := (twins_start supply contents).pass hdeeds
  exact ⟨hreports, hend.device, hend.bench.memory, hend.bench.serial, hend.bench.bank⟩

/-- A request, a sample whose status cannot be read, and a resume in between, after a suspend that
could not switch the interface off. -/
theorem serial_follows_flat_past_faults :
    let plan : Plan := { failsAccess := fun k _ => k == 2 }
    let wishes : SensorRequest GyroRange := { range := some .dps250, filter := some .odrDiv4 }
    let calls : List (Call ScriptedSink) :=
      [.operation (.grant (.gyro wishes) true), .process ⟨true, [11]⟩, .operation .resume]
    let deeds : List Deed := [
      .take { directive := .powerUp 1 {} },
      .take {
        directive := .concurrent
          [.serve ⟨true, [7]⟩, .operation (.setPower ⟨.lowNoise, .off, false⟩ true), .interrupt 5]
        edgesAt := [(0, 3)] },
      .take { directive := .addFaults { disables := [.vddio] } },
      .take { directive := .call (.operation .suspend) },
      .interleave plan calls 0 [0, 1, 2, 0, 1, 2],
      .take { directive := .shutdown, failAt := [0] }]
    let contents := [(Register.whoAmI, 0x40), (Register.intStatus, 0x18)]
    let flat := (start .flat .switched contents).pass deeds
    let serial := (start (.serial Register.bank0) .switched contents).pass deeds
    (∀ d ∈ deeds, d.IsPlain) ∧
      (∀ i : Nat, Option.Rel Report.Twins flat.1[i]? serial.1[i]?) ∧
      (serial.1[4]?).map Report.events = some [
        .access (.serial [.write [0x4F, 0x69]]) true,
        .access (.serial [.write [0x52, 0x01]]) true,
        .access (.serial [.exchange [0xAD, 0x00]]) false,
        .switch .vddio true true, .delay (.micros 3000),
        .access (.serial [.write [0x4E, 0x2C]]) true, .delay (.micros 200)] ∧
      serial.2.bench.chip.memory = flat.2.bench.chip.memory := by
  intro plan wishes calls deeds contents flat serial
  have hdeeds : ∀ d ∈ deeds, d.IsPlain := by
    simp [deeds, plan, Deed.IsPlain, Directive.IsPlain, Plan.IsPlain]
  have hevents : (serial.1[4]?).map Report.events = some [
      .access (.serial [.write [0x4F, 0x69]]) true,
      .access (.serial [.write [0x52, 0x01]]) true,
      .access (.serial [.exchange [0xAD, 0x00]]) false,
      .switch .vddio true true, .delay (.micros 3000),
      .access (.serial [.write [0x4E, 0x2C]]) true, .delay (.micros 200)] := by
    decide +kernel
  clear_value deeds contents
  obtain ⟨hreports, _, hmemory, _⟩ := serial_follows_flat .switched contents hdeeds
  exact ⟨hdeeds, hreports, hevents, hmemory⟩

end Session

end Inertial
