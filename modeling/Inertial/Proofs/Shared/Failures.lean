import Inertial.Proofs.Driver.SampleContent
import Inertial.Proofs.Driver.FailedPowerUp
import Inertial.Proofs.Shared.Covenant
import Inertial.Proofs.Shared.Sequence

/-!
# What becomes of a failure

Whatever accesses and switches fail during a call, the first failure ends it. An operation answers
that failure and no other, its log is that of the smooth run cut after the event that failed, and
the record and the registers are as the smooth run has them just before it. A sample is not taken if
an access fails, and it is neither if the chip has no new data; nothing is pushed then.

The main statement, `System.IsReachable.calls_stop_at_first_failure`, says so for every system that
can be reached and every plan of failures.
-/

set_option autoImplicit false

namespace Inertial

/-- The system with another plan of failures and edges. -/
def System.withPlan (plan : Plan) (s : System) : System :=
  { s with bench := { s.bench with plan } }

namespace Event

variable {e : Event}

/-- An event that is no failure has none to report. -/
theorem failure?_of_asSuccess (he : e.asSuccess = e) : e.failure? = none := by
  rw [← he]
  cases e <;> rfl

/-- A failure of the bus is that of an access. -/
theorem failure?_eq_bus {fault : BusFault} :
    e.failure? = some (.bus fault) ↔ ∃ x, e = .access x false ∧ fault = x.fault := by
  constructor
  · intro h
    unfold failure? at h
    split at h <;> cases h
    exact ⟨_, rfl, rfl⟩
  · rintro ⟨x, rfl, rfl⟩
    rfl

/-- A failure of a rail is that of a switch. -/
theorem failure?_eq_rail {r : Rail} :
    e.failure? = some (.rail r) ↔ ∃ on, e = .switch r on false := by
  constructor
  · intro h
    unfold failure? at h
    split at h <;> cases h
    exact ⟨_, rfl⟩
  · rintro ⟨on, rfl⟩
    rfl

end Event

namespace Routine

variable {α β : Type}

/-- What is only said about the result is said after the last event. -/
theorem upTo_bind_pure (x : Routine α) {f : α → Routine β} (hf : ∀ a, ∃ b, f a = pure b) (n : Nat)
    (s : System) : (x >>= f).upTo n s = x.upTo n s := by
  induction x generalizing s with
  | done a =>
    obtain ⟨b, hb⟩ := hf a
    rw [show (done a >>= f) = f a from rfl, hb]
    rfl
  | act x next ih =>
    simp only [act_bind, upTo, ih]
  | sleep d rest ih =>
    simp only [sleep_bind, upTo, ih]

end Routine

namespace Operation

variable {op : Operation} {s : System}

/-- An operation completes with the smooth run, or it stops with the failure that its last event
reports. -/
theorem completes_or_stopsAt (op : Operation) (hs : s.bench.InFirstBank) :
    (∃ events, (op.body.run s).1.isFailure = false ∧ op.body.Completes s events) ∨
      ∃ e good bad rest, (op.body.run s).1 = .failed e ∧ bad.failure? = some e ∧
        op.body.StopsAt s good bad rest := by
  obtain ⟨α, x, f, hop⟩ := op.exists_reports
  have hupTo : ∀ n t, op.body.upTo n t = x.run.upTo n t := by
    intro n t
    rw [hop.body]
    refine x.run.upTo_bind_pure (fun r => ?_) n t
    cases r <;> exact ⟨_, rfl⟩
  have hrun : ∀ t, (op.body.run t).2 = (x.exec t).2 := fun t => by
    rw [hop.body, run_reply_snd]
  obtain ⟨a, events, hok, h⟩ | ⟨e, good, bad, rest, herror, hbad, h⟩ :=
    Routine.completes_or_stopsAt hop.failsFast hs
  · refine Or.inl ⟨events, ?_, ?_, ?_⟩
    · rw [hop.body, run_reply, show x.exec s = (.ok a, (x.run.run s).2) from Prod.ext hok rfl]
      exact hop.isFailure a
    · have hsmooth : x.exec s.smooth = (.ok a, (x.run.run s).2.smooth) := by
        rw [show x.exec s.smooth = _ from h.smooth, hok]
      rw [hop.body, run_reply, run_reply, hsmooth,
        show x.exec s = (.ok a, (x.run.run s).2) from Prod.ext hok rfl]
    · rw [hrun]
      exact h.advances
  · refine Or.inr ⟨e, good, bad, rest, ?_, hbad, ?_⟩
    · rw [hop.body, run_reply, show x.exec s = (.error e, (x.run.run s).2) from Prod.ext herror rfl]
    · exact {
        trace := by rw [hrun]; exact h.trace
        smooth := by rw [hrun]; exact h.smooth
        asSuccess := h.asSuccess
        before := by rw [hupTo]; exact h.before
        core := by rw [hrun, hupTo]; exact h.core
        memory := by rw [hrun, hupTo]; exact h.memory }

/-- Where nothing fails an operation logs only successes. -/
theorem exists_trace_smooth (op : Operation) (s : System) :
    ∃ script, (op.body.run s.smooth).2.bench.trace = s.bench.trace ++ script ∧
      ∀ e ∈ script, e.asSuccess = e :=
  (Routine.upholds_run (op.stays_body (System.isSteady_flawlessSince s.bench.trace) s.smooth
    s.bench.neverFails_smooth.flawlessSince)).2

end Operation

/-! ## Calls -/

namespace Call

variable {σ : Type}

/-- Whether a call is there to take samples. -/
def isSampling : Call σ → Bool
  | .process _ | .serve _ => true
  | _ => false

/-- The system just before a call that takes no samples makes the trace longer than the given
length. Only an operation logs anything. -/
def upTo (n : Nat) : Call σ → System → System
  | .operation op, s => op.body.upTo n s
  | _, s => s

end Call

/-- What a call comes to in a run with failures: its answer, the events that it logs and the system
after it, next to those of the smooth run. -/
structure Call.StopsAtFirstFailure {σ : Type} (c : Call σ) (s : System)
    (faulty smooth : Option Reply × System) (events script : List Event) : Prop where
  trace : faulty.2.bench.trace = s.bench.trace ++ events
  trace_smooth : smooth.2.bench.trace = s.bench.trace ++ script
  asSuccess : ∀ e ∈ script, e.asSuccess = e
  bus : ∀ fault, faulty.1 = some (.failed (.bus fault)) ↔
    ∃ x, .access x false ∈ events ∧ fault = x.fault
  rail : ∀ r, faulty.1 = some (.failed (.rail r)) ↔ ∃ on, .switch r on false ∈ events
  stopped : ∀ e, faulty.1 = some (.failed e) → ∃ good bad rest,
    let before := c.upTo (s.bench.trace.length + good.length) s.smooth
    bad.failure? = some e ∧ events = good ++ [bad] ∧ script = good ++ bad.asSuccess :: rest ∧
      before.bench.trace = s.bench.trace ++ good ∧ faulty.2.core = before.core ∧
      faulty.2.bench.chip.memory = before.bench.chip.memory
  completed : (∀ e, faulty.1 ≠ some (.failed e)) → faulty.1 = smooth.1 ∧ events = script

namespace Call.StopsAtFirstFailure

variable {σ : Type} {c : Call σ} {s : System} {faulty smooth : Option Reply × System}
  {events : List Event}

/-- A call that logs nothing and does not fail is the same in the smooth run. -/
theorem of_quiet (htrace : faulty.2.bench.trace = s.bench.trace)
    (htrace' : smooth.2.bench.trace = s.bench.trace) (hreply : faulty.1 = smooth.1)
    (hok : ∀ e, faulty.1 ≠ some (.failed e)) :
    c.StopsAtFirstFailure s faulty smooth [] [] where
  trace := by rw [htrace, List.append_nil]
  trace_smooth := by rw [htrace', List.append_nil]
  asSuccess := by simp
  bus := by simp [hok]
  rail := by simp [hok]
  stopped := fun e he => (hok e he).elim
  completed := fun _ => ⟨hreply, rfl⟩

end Call.StopsAtFirstFailure

/-- An answer that is the failure of an event just if there is one tells failed accesses and failed
switches. -/
theorem Reply.tells_failures (r : Reply) (events : List Event)
    (h : ∀ e, r = .failed e ↔ ∃ x ∈ events, x.failure? = some e) :
    (∀ fault, some r = some (.failed (.bus fault)) ↔
      ∃ x, .access x false ∈ events ∧ fault = x.fault) ∧
    ∀ rail, some r = some (.failed (.rail rail)) ↔ ∃ on, .switch rail on false ∈ events := by
  constructor
  · intro fault
    rw [Option.some_inj, h]
    constructor
    · rintro ⟨e, he, hfailure⟩
      obtain ⟨x, rfl, hfault⟩ := Event.failure?_eq_bus.mp hfailure
      exact ⟨x, he, hfault⟩
    · rintro ⟨x, hx, hfault⟩
      exact ⟨_, hx, Event.failure?_eq_bus.mpr ⟨x, rfl, hfault⟩⟩
  · intro rail
    rw [Option.some_inj, h]
    constructor
    · rintro ⟨e, he, hfailure⟩
      obtain ⟨on, rfl⟩ := Event.failure?_eq_rail.mp hfailure
      exact ⟨on, he⟩
    · rintro ⟨on, hon⟩
      exact ⟨_, hon, rfl⟩

/-- An operation stops where its first access or switch fails, and has done until then what it does
where nothing fails. -/
theorem Operation.stopsAtFirstFailure {σ : Type} [Sink σ] (op : Operation) {s : System}
    (hs : s.bench.InFirstBank) (wakeUps : Nat) :
    let c : Call σ := .operation op
    ∃ events script,
      c.StopsAtFirstFailure s (c.perform wakeUps s) (c.perform wakeUps s.smooth) events script := by
  intro c
  have hperform : ∀ t, c.perform wakeUps t = (some (op.body.run t).1, (op.body.run t).2) :=
    fun _ => rfl
  rw [hperform, hperform]
  obtain ⟨events, hok, h⟩ | ⟨e, good, bad, rest, herror, hbad, h⟩ := op.completes_or_stopsAt hs
  · -- The operation completes, so the smooth run is the same and no failure is told.
    have hnot : ∀ e, (op.body.run s).1 ≠ .failed e := by
      intro e he
      rw [he] at hok
      cases hok
    have hnone : ∀ x ∈ events, x.failure? = none :=
      fun x hx => Event.failure?_of_asSuccess (h.advances.asSuccess x hx)
    obtain ⟨hbus, hrail⟩ := Reply.tells_failures (op.body.run s).1 events (by
      intro e
      constructor
      · exact fun he => (hnot e he).elim
      · rintro ⟨x, hx, hfailure⟩
        rw [hnone x hx] at hfailure
        cases hfailure)
    refine ⟨events, events, h.advances.trace, ?_, h.advances.asSuccess, hbus, hrail, ?_, ?_⟩
    · rw [h.smooth]
      exact h.advances.trace
    · intro e he
      exact (hnot e (Option.some_inj.mp he)).elim
    · intro _
      rw [h.smooth]
      exact ⟨rfl, rfl⟩
  · -- It stops, and the only event that can be told as its failure is the last one.
    obtain ⟨script, hscript, hall⟩ := op.exists_trace_smooth s
    have hsame : script = good ++ bad.asSuccess :: rest :=
      List.append_cancel_left (hscript.symm.trans h.smooth)
    obtain ⟨hbus, hrail⟩ := Reply.tells_failures (op.body.run s).1 (good ++ [bad]) (by
      intro e'
      rw [herror]
      constructor
      · intro he
        cases he
        exact ⟨bad, by simp, hbad⟩
      · rintro ⟨x, hx, hfailure⟩
        rcases List.mem_append.mp hx with hx | hx
        · rw [Event.failure?_of_asSuccess (h.asSuccess x hx)] at hfailure
          cases hfailure
        · rw [List.mem_singleton.mp hx, hbad] at hfailure
          rw [Option.some_inj.mp hfailure])
    refine ⟨good ++ [bad], script, h.trace, hscript, hall, hbus, hrail, ?_, ?_⟩
    · intro e' he
      dsimp only at he
      rw [herror] at he
      cases he
      exact ⟨good, bad, rest, hbad, rfl, hsame, h.before, h.core, h.memory⟩
    · intro hnot
      exact (hnot e (congrArg some herror)).elim

/-! ## Samples -/

/-- What taking a sample comes to: whether there is one, and the events that it logs. -/
structure Call.SamplesOrFails (s : System) (r : Option Reply × System) (events : List Event) :
    Prop where
  trace : r.2.bench.trace = s.bench.trace ++ events
  answers : ∃ sample, r.1 = some (.sample sample)
  none_iff : r.1 = some (.sample none) ↔ (∃ x, .access x false ∈ events) ∨
    .access (s.bench.bus.readAccess Register.intStatus) true ∈ events ∧
      StatusRegister.dataReady.get (s.bench.chip.memory Register.intStatus) = 0
  quiet : r.1 = some (.sample none) → ∀ sample, .push sample ∉ events
  last : ∀ good x rest, events = good ++ .access x false :: rest → rest = []

/-- A failing access that only successes come before is the last event. -/
theorem eq_nil_of_failure (before : List Event) {good rest : List Event} {last : Event}
    {x : Access} (hbefore : ∀ e ∈ before, e.failure? = none)
    (h : before ++ [last] = good ++ .access x false :: rest) : rest = [] := by
  cases rest with
  | nil => rfl
  | cons e rest =>
    have hinit := congrArg List.dropLast h
    rw [List.dropLast_concat, List.dropLast_append_of_ne_nil (List.cons_ne_nil _ _)] at hinit
    have hnone := hbefore (.access x false) (by simp [hinit])
    cases hnone

/-- A sample call gives a sample only if no access failed. -/
theorem Call.samplesOrFails {σ : Type} [Sink σ] (sink : σ) {s : System}
    (hs : s.bench.InFirstBank) (wakeUps : Nat) :
    ∃ events, SamplesOrFails s ((Call.process sink).perform wakeUps s) events := by
  obtain ⟨t, events, hidles, h⟩ := Driver.exec_readData hs
  have htrace := hidles.trace
  have hrun := Driver.run_takeSample s.stamp sink s
  have hperform : ∀ r u, (Driver.takeSample s.stamp sink).run s = (r, u) →
      (Call.process sink).perform wakeUps s = (some (.sample r.1), u) := by
    intro r u hru
    change (some (Reply.sample ((Driver.takeSample s.stamp sink).run s).1.1),
      ((Driver.takeSample s.stamp sink).run s).2) = _
    rw [hru]
  obtain ⟨hexec, rfl⟩ | ⟨hexec, hclear, rfl⟩ | ⟨hexec, hclear, rfl⟩ | ⟨hexec, hclear, rfl⟩ := h
  · rw [hexec] at hrun
    rw [hperform _ _ hrun]
    refine ⟨_, htrace, ⟨none, rfl⟩, by simp, by simp, ?_⟩
    intro good x rest heq
    exact eq_nil_of_failure [] (by simp) heq
  · rw [hexec] at hrun
    rw [hperform _ _ hrun]
    refine ⟨_, htrace, ⟨none, rfl⟩, by simp [hclear], by simp, ?_⟩
    intro good x rest heq
    exact eq_nil_of_failure [] (by simp) heq
  · rw [hexec] at hrun
    rw [hperform _ _ hrun]
    refine ⟨_, htrace, ⟨none, rfl⟩, by simp, by simp, ?_⟩
    intro good x rest heq
    exact eq_nil_of_failure [_] (by simp [Event.failure?]) heq
  · rw [hexec] at hrun
    obtain ⟨i, sink', hrun⟩ := hrun
    rw [hperform _ _ hrun]
    by_cases hwanted : Sink.isEnabled sink = true
    · rw [if_pos hwanted]
      refine ⟨[.access (s.bench.bus.readAccess Register.intStatus) true,
        .access (s.bench.bus.blockAccess Register.accelData RawBlock.size) true,
        .push (.ofMemory s.bench.chip.memory s.stamp)], ?_, ⟨_, rfl⟩, by simpa using hclear,
        by simp, ?_⟩
      · change t.bench.trace ++ [.push (.ofMemory s.bench.chip.memory s.stamp)] = _
        rw [htrace, List.append_assoc]
        rfl
      · intro good x rest heq
        have hmem : Event.access x false ∈ good ++ .access x false :: rest := by simp
        rw [← heq] at hmem
        simp at hmem
    · rw [if_neg hwanted]
      refine ⟨_, htrace, ⟨_, rfl⟩, by simpa using hclear, by simp, ?_⟩
      intro good x rest heq
      have hmem : Event.access x false ∈ good ++ .access x false :: rest := by simp
      rw [← heq] at hmem
      simp at hmem

/-! ## Whenever a call is made -/

/-- A device is in its first bank wherever it can be found. -/
theorem System.IsReachable.inFirstBank {s : System} (hs : s.IsReachable) :
    s.bench.InFirstBank := by
  obtain ⟨past, answers, hby⟩ := hs.exists_isReachableBy
  exact Bench.inFirstBank_of_inStep hs.agrees.1 hby.atFirstBank

/-- Let a call be made of a device wherever it can be found, with any accesses and switches failing
and any edges coming.

A call that takes no samples answers the fault of an access just if that access failed, and the
failure of a rail just if a switch of it failed. If it fails, its log is that of the smooth run cut
after the event that failed, and the record and the registers are left as the smooth run has them
just before that event. If it does not fail, it answers and logs what the smooth run does.

A sample is not taken just if an access fails or the status that was read says that there is no new
data. Then nothing is pushed, and an access that fails is the last event. -/
theorem System.IsReachable.calls_stop_at_first_failure {σ : Type} [Sink σ] {s : System}
    (hs : s.IsReachable) (plan : Plan) (wakeUps : Nat) :
    let start := s.withPlan plan
    (∀ c : Call σ, c.isSampling = false → ∃ events script, c.StopsAtFirstFailure start
      (c.perform wakeUps start) (c.perform wakeUps start.smooth) events script) ∧
    ∀ sink : σ, ∃ events,
      Call.SamplesOrFails start ((Call.process sink).perform wakeUps start) events := by
  intro start
  have hfirst : start.bench.InFirstBank := hs.inFirstBank
  refine ⟨?_, fun sink => Call.samplesOrFails sink hfirst wakeUps⟩
  intro c hc
  cases c with
  | operation op => exact op.stopsAtFirstFailure hfirst wakeUps
  | identity => exact ⟨[], [], .of_quiet rfl rfl rfl (by simp [Call.perform])⟩
  | interrupt now => exact ⟨[], [], .of_quiet rfl rfl rfl (by simp [Call.perform])⟩
  | awaitInterrupt =>
    have hinbox : start.smooth.bench.inbox = start.bench.inbox := rfl
    cases htake : start.bench.inbox.take? with
    | none =>
      have hperform : ∀ t : System, t.bench.inbox = start.bench.inbox →
          (Call.awaitInterrupt : Call σ).perform wakeUps t = (none, t) := by
        intro t ht
        simp [Call.perform, System.takeWakeUp?, ht, htake]
      rw [hperform _ rfl, hperform _ hinbox]
      exact ⟨[], [], .of_quiet rfl rfl rfl (by simp)⟩
    | some i =>
      have hperform : ∀ t : System, t.bench.inbox = start.bench.inbox →
          (Call.awaitInterrupt : Call σ).perform wakeUps t = (some .ok, t.withInbox i) := by
        intro t ht
        simp [Call.perform, System.takeWakeUp?, ht, htake, System.withInbox]
      rw [hperform _ rfl, hperform _ hinbox]
      exact ⟨[], [], .of_quiet rfl rfl rfl (by simp)⟩
  | process sink => cases hc
  | serve sink => cases hc

/-- A resume that cannot turn the FIFO on stops there: the interface and the sensors are on by then,
as the smooth run has them just before that write. -/
theorem System.IsReachable.calls_stop_at_first_failure_in_resume :
    let bench : Bench := {
      chip := {
        memory := Memory.zero.writeAll [(Register.whoAmI, 0x42), (Register.intStatus, 0x18)] }
      bus := .serial Register.bank0
      supply := .pins }
    let start :=
      ((Driver.powerUp .icm42605 {}).exec { bench, core := .fresh .icm42605 }).2.withInbox {}
    let calls : List (Call ScriptedSink) := [.operation (.setPower ⟨.lowNoise, .off, true⟩ false),
      .operation (.setStreaming true), .operation .suspend]
    let p := (Pool.ofCalls calls start).follow 0 [0, 0, 1, 2, 2, 2]
    let fifo : Access :=
      .serial [.write [Register.offsetOf Register.fifoConfig, Register.fifoStream]]
    let s := p.system.withPlan { failsAccess := fun _ x => x == fifo }
    let resume : Call ScriptedSink := .operation .resume
    let t := (resume.perform 0 s).2
    p.replies.tail = [some .ok, some .ok] ∧ p.system.IsReachable ∧
      (resume.perform 0 s).1 = some (.failed (.bus .transfer)) ∧
      t.core.rails.vddio = true ∧ t.core.config.power = ⟨.lowNoise, .off, true⟩ ∧
      ∃ good rest, t.bench.trace = s.bench.trace ++ (good ++ [.access fifo false]) ∧
        (resume.perform 0 s.smooth).2.bench.trace =
          s.bench.trace ++ (good ++ .access fifo true :: rest) ∧
        t.core = (resume.upTo (s.bench.trace.length + good.length) s.smooth).core := by
  intro bench start calls p fifo s resume t
  have hstart : start.IsReachable := .powerUp rfl (Except.eq_ok_of_toOption (by decide +kernel))
  have hp : p.system.IsReachable :=
    hstart.follow (by decide +kernel) calls 0 [0, 0, 1, 2, 2, 2]
  have hfailed : (resume.perform 0 s).1 = some (.failed (.bus .transfer)) := by decide +kernel
  have hend : t.bench.trace.getLast? = some (.access fifo false) := by decide +kernel
  have hrails : t.core.rails.vddio = true := by decide +kernel
  have hpower : t.core.config.power = ⟨.lowNoise, .off, true⟩ := by decide +kernel
  have hreplies : p.replies.tail = [some .ok, some .ok] := by decide +kernel
  -- From here on it does not matter how the device came to where it is.
  clear_value p
  obtain ⟨events, script, h⟩ := (hp.calls_stop_at_first_failure (σ := ScriptedSink)
    { failsAccess := fun _ x => x == fifo } 0).1 resume rfl
  obtain ⟨good, bad, rest, _, rfl, rfl, _, hcore, _⟩ := h.stopped _ hfailed
  have htrace : t.bench.trace = s.bench.trace ++ (good ++ [bad]) := h.trace
  have hbad : bad = .access fifo false := by
    rw [htrace] at hend
    simpa using hend
  subst hbad
  exact ⟨hreplies, hp, hfailed, hrails, hpower, good, rest, htrace, h.trace_smooth, hcore⟩

end Inertial
