import Inertial.Proofs.Driver.Blindness
import Inertial.Proofs.Driver.FailFast

/-!
# Runs with and without failures

A run in which accesses and switches may fail is compared with the smooth run of the same routine,
begun in the same system with the same edges to come, in which nothing fails. A routine that fails
fast does the same in both (`Routine.Completes`), or it ends at an event that succeeds in the smooth
run, having done the same until then (`Routine.StopsAt`).

The system just before an event is what `Routine.upTo` gives for the length of the trace until then.
A failure leaves the record and the registers as they are there: nothing is noted before the step
that it depends on.
-/

set_option autoImplicit false

namespace Inertial

/-- What an event reports as failed. -/
def Event.failure? : Event → Option DriverError
  | .access x false => some (.bus x.fault)
  | .switch r _ false => some (.rail r)
  | _ => none

/-- The plan in which the same edges come and nothing fails. -/
def Plan.smooth (p : Plan) : Plan where
  edges := p.edges

/-- The bench with a plan in which nothing fails. -/
def Bench.smooth (b : Bench) : Bench :=
  { b with plan := b.plan.smooth }

/-- The system with a plan in which nothing fails. -/
def System.smooth (s : System) : System :=
  { s with bench := s.bench.smooth }

/-- The system just before a routine makes the trace longer than the given length, or at the end of
the routine if it never does. -/
def Routine.upTo {α : Type} (n : Nat) : Routine α → System → System
  | .done _, s => s
  | .act x next, s =>
    let (answer, t) := x.perform s
    if t.bench.trace.length ≤ n then (next answer).upTo n t else s
  | .sleep d rest, s =>
    if (wait d s).bench.trace.length ≤ n then rest.upTo n (wait d s) else s

namespace Bench

variable (b : Bench)

/-- On a smooth bench nothing fails. -/
theorem neverFails_smooth : b.smooth.NeverFails where
  access := fun _ _ => rfl
  switch := fun _ _ _ => rfl

/-- An attempt logs its access and whether that succeeded. -/
theorem trace_attempt (x : Access) :
    (b.attempt x).2.trace = b.trace ++ [.access x (b.attempt x).1] := rfl

/-- A switch logs its rail and whether it was switched. -/
theorem trace_switch (r : Rail) (on : Bool) :
    (b.switch r on).2.trace = b.trace ++ [.switch r on (b.switch r on).1] := rfl

/-- Where nothing fails a switch happens, and it is the same switch if it happens anyway. -/
theorem switch_smooth (r : Rail) (on : Bool) :
    (b.smooth.switch r on).1 = true ∧
      ((b.switch r on).1 = true → b.smooth.switch r on = (true, (b.switch r on).2.smooth)) := by
  have hsmooth : (b.smooth.switch r on).1 = true := b.neverFails_smooth.switch_fst r on
  refine ⟨hsmooth, fun h => ?_⟩
  apply Prod.ext hsmooth
  have hsame : b.supply.switch (b.smooth.plan.failsSwitch b.switches) r on b.pins =
      b.supply.switch (b.plan.failsSwitch b.switches) r on b.pins :=
    (Supply.switch_of_fst h).symm
  simp only [switch, show b.smooth.supply = b.supply from rfl,
    show b.smooth.switches = b.switches from rfl, show b.smooth.pins = b.pins from rfl, hsame]
  rfl

end Bench

/-! ## One action -/

/-- From `s` to `t` nothing was logged but successes, and registers of the first bank can still be
reached. -/
structure System.Advances (s t : System) (events : List Event) : Prop where
  trace : t.bench.trace = s.bench.trace ++ events
  asSuccess : ∀ e ∈ events, e.asSuccess = e
  inFirstBank : t.bench.InFirstBank

/-- From `s` to `t` one event was logged that failed, and nothing else has changed that the driver
or the chip keeps. -/
structure System.FailsAt (s t : System) (bad : Event) : Prop where
  trace : t.bench.trace = s.bench.trace ++ [bad]
  core : t.core = s.core
  memory : t.bench.chip.memory = s.bench.chip.memory

variable {s : System}

namespace Action

/-- What an action does in a run with failures, next to the smooth one. -/
def Compares (x : Action) (s : System) : Prop :=
  (x.failure? (x.perform s).1 = none ∧
    x.perform s.smooth = ((x.perform s).1, (x.perform s).2.smooth) ∧
    ∃ events, s.Advances (x.perform s).2 events) ∨
  ∃ e bad, x.failure? (x.perform s).1 = some e ∧ bad.failure? = some e ∧
    s.FailsAt (x.perform s).2 bad ∧
    (x.perform s.smooth).2.bench.trace = s.bench.trace ++ [bad.asSuccess]

/-- An operation of one access goes as on the smooth bench or fails at that access. -/
theorem compares_register {op : RegisterOp} (hop : op.IsPlain) (hsingle : op.isSingle = true)
    (hs : s.bench.InFirstBank) : (register op).Compares s := by
  let y := s.bench.bus.access op
  let after := op.onMemory s.bench.chip.memory
  have hexec := op.exec_single hs hop hsingle
  have hsmooth : op.perform.exec s.smooth.bench = (.ok after.1,
      (Bench.withMemory after.2
        { (s.bench.attempt y).2 with trace := s.bench.trace ++ [.access y true] }).smooth) :=
    op.exec_single (b := s.bench.smooth) hs hop hsingle
  have htrace := s.bench.trace_attempt y
  have hbus : (s.bench.attempt y).2.InFirstBank := hs
  have hchip := s.bench.chip_attempt y
  have hperform : ∀ t : System, (register op).perform t =
      ((op.perform.exec t.bench).1, { t with bench := (op.perform.exec t.bench).2 }) := fun _ => rfl
  unfold Compares
  rw [hperform, hperform, hexec, hsmooth]
  rcases hx : s.bench.attempt y with ⟨_ | _, c⟩ <;> rw [hx] at htrace hbus hchip <;>
    dsimp only at htrace hbus hchip
  · refine Or.inr ⟨.bus y.fault, .access y false, rfl, rfl, ⟨htrace, rfl, ?_⟩, rfl⟩
    exact congrArg SerialChip.memory hchip
  · have hc : { c with trace := s.bench.trace ++ [.access y true] } = c := by rw [← htrace]
    refine Or.inl ⟨rfl, ?_, [.access y true], htrace, by simp [Event.asSuccess], hbus⟩
    rw [hc]
    rfl

/-- A switch goes as on the smooth bench or fails. -/
theorem compares_switch (r : Rail) (on : Bool) (hs : s.bench.InFirstBank) :
    (switch r on).Compares s := by
  obtain ⟨hok, hsmooth⟩ := s.bench.switch_smooth r on
  have htrace := s.bench.trace_switch r on
  have htrace' := s.bench.smooth.trace_switch r on
  rw [hok] at htrace'
  have hbus : (s.bench.switch r on).2.InFirstBank := hs
  have hchip : (s.bench.switch r on).2.chip = s.bench.chip := rfl
  have hperform : ∀ t : System, (switch r on).perform t =
      ((t.bench.switch r on).1, { t with bench := (t.bench.switch r on).2 }) := fun _ => rfl
  unfold Compares
  rw [hperform, hperform]
  rcases hx : s.bench.switch r on with ⟨_ | _, c⟩ <;> rw [hx] at htrace hbus hchip hsmooth <;>
    dsimp only at htrace hbus hchip
  · refine Or.inr ⟨.rail r, .switch r on false, rfl, rfl, ⟨htrace, rfl, ?_⟩, htrace'⟩
    exact congrArg SerialChip.memory hchip
  · have hsame : s.smooth.bench.switch r on = (true, c.smooth) := hsmooth rfl
    refine Or.inl ⟨rfl, ?_, [.switch r on true], htrace, by simp [Event.asSuccess], hbus⟩
    rw [hsame]
    rfl

/-- An action does the same as in the smooth run, or it fails at its one event. -/
theorem compares_of_isOperational {x : Action} (hx : x.IsOperational) (hs : s.bench.InFirstBank) :
    x.Compares s := by
  rcases hx with hx | ⟨on, rfl⟩
  · cases x with
    | register op => exact compares_register hx.1 hx.2 hs
    | getCore => exact Or.inl ⟨rfl, rfl, [], (List.append_nil _).symm, by simp, hs⟩
    | setCore core => exact Or.inl ⟨rfl, rfl, [], (List.append_nil _).symm, by simp, hs⟩
    | _ => exact hx.elim
  · exact compares_switch .vddio on hs

end Action

/-! ## Whole runs -/

namespace Routine

variable {α β : Type}

/-- The routine logs only successes, and does the same as in the smooth run. -/
structure Completes (x : Routine α) (s : System) (events : List Event) : Prop where
  smooth : x.run s.smooth = ((x.run s).1, (x.run s).2.smooth)
  advances : s.Advances (x.run s).2 events

/-- The routine ends at an event that failed, where the smooth run went on. Until then both did the
same, and the record and the registers are left as they were just before that event. -/
structure StopsAt (x : Routine α) (s : System) (good : List Event) (bad : Event)
    (rest : List Event) : Prop where
  trace : (x.run s).2.bench.trace = s.bench.trace ++ (good ++ [bad])
  smooth : (x.run s.smooth).2.bench.trace = s.bench.trace ++ (good ++ bad.asSuccess :: rest)
  asSuccess : ∀ e ∈ good, e.asSuccess = e
  before : (x.upTo (s.bench.trace.length + good.length) s.smooth).bench.trace =
    s.bench.trace ++ good
  core : (x.run s).2.core = (x.upTo (s.bench.trace.length + good.length) s.smooth).core
  memory : (x.run s).2.bench.chip.memory =
    (x.upTo (s.bench.trace.length + good.length) s.smooth).bench.chip.memory

section Prepend

variable {x y : Routine α} {t : System} {events later good rest : List Event} {bad : Event}

/-- What completes after a first stretch without failures completes. -/
theorem Completes.prepend (h : y.Completes t later) (hadvances : s.Advances t events)
    (hrun : x.run s = y.run t) (hsmooth : x.run s.smooth = y.run t.smooth) :
    x.Completes s (events ++ later) where
  smooth := by rw [hsmooth, hrun, h.smooth]
  advances := {
    trace := by rw [hrun, h.advances.trace, hadvances.trace, List.append_assoc]
    asSuccess := by
      intro e he
      rcases List.mem_append.mp he with he | he
      · exact hadvances.asSuccess e he
      · exact h.advances.asSuccess e he
    inFirstBank := by
      rw [hrun]
      exact h.advances.inFirstBank }

/-- What stops after a first stretch without failures stops at the same event. -/
theorem StopsAt.prepend (h : y.StopsAt t good bad rest) (hadvances : s.Advances t events)
    (hrun : x.run s = y.run t) (hsmooth : x.run s.smooth = y.run t.smooth)
    (hupTo : ∀ n, t.bench.trace.length ≤ n → x.upTo n s.smooth = y.upTo n t.smooth) :
    x.StopsAt s (events ++ good) bad rest := by
  have hlength : s.bench.trace.length + (events ++ good).length =
      t.bench.trace.length + good.length := by
    simp [hadvances.trace, Nat.add_assoc]
  have hbefore : x.upTo (s.bench.trace.length + (events ++ good).length) s.smooth =
      y.upTo (t.bench.trace.length + good.length) t.smooth := by
    rw [hlength]
    exact hupTo _ (Nat.le_add_right _ _)
  constructor
  · rw [hrun, h.trace, hadvances.trace]
    simp
  · rw [hsmooth, h.smooth, hadvances.trace]
    simp
  · intro e he
    rcases List.mem_append.mp he with he | he
    · exact hadvances.asSuccess e he
    · exact h.asSuccess e he
  · rw [hbefore, h.before, hadvances.trace, List.append_assoc]
  · rw [hbefore, hrun, h.core]
  · rw [hbefore, hrun, h.memory]

end Prepend

/-- A routine that ends when its first action fails stops at the event of that action. -/
theorem stopsAt_of_failsAt {x : Action} {next : x.Answer → Routine α} {a : α} {bad : Event}
    (hfails : s.FailsAt (x.perform s).2 bad)
    (hsmooth : (x.perform s.smooth).2.bench.trace = s.bench.trace ++ [bad.asSuccess])
    (hnext : next (x.perform s).1 = .done a) :
    ∃ rest, (act x next).StopsAt s [] bad rest := by
  obtain ⟨rest, hrest⟩ := (next (x.perform s.smooth).1).exists_trace_run (x.perform s.smooth).2
  have hrun : (act x next).run s = (a, (x.perform s).2) := by
    change (next (x.perform s).1).run (x.perform s).2 = _
    rw [hnext]
    rfl
  have hbefore : (act x next).upTo (s.bench.trace.length + ([] : List Event).length) s.smooth =
      s.smooth := by
    have hlonger : ¬ (x.perform s.smooth).2.bench.trace.length ≤ s.bench.trace.length := by
      simp [hsmooth]
    exact if_neg hlonger
  refine ⟨rest, ?_⟩
  constructor
  · rw [hrun]
    exact hfails.trace
  · change ((next (x.perform s.smooth).1).run (x.perform s.smooth).2).2.bench.trace = _
    rw [hrest, hsmooth]
    simp
  · simp
  · rw [hbefore, List.append_nil]
    rfl
  · rw [hbefore, hrun]
    exact hfails.core
  · rw [hbefore, hrun]
    exact hfails.memory

/-- A routine that fails fast completes, or it stops at an event with the failure that this event
reports. -/
theorem completes_or_stopsAt {x : Routine (Except DriverError α)}
    (hx : x.FailsFast Action.IsOperational fun _ => False) (hs : s.bench.InFirstBank) :
    (∃ a events, (x.run s).1 = .ok a ∧ x.Completes s events) ∨
      ∃ e good bad rest, (x.run s).1 = .error e ∧ bad.failure? = some e ∧
        x.StopsAt s good bad rest := by
  -- Along the routine: every action succeeds as on the smooth bench, until one fails.
  induction x generalizing s with
  | done r =>
    cases r with
    | ok a => exact Or.inl ⟨a, [], rfl, rfl, (List.append_nil _).symm, by simp, hs⟩
    | error e => exact (hx e rfl).elim
  | act x next ih =>
    obtain ⟨hoperational, hnext⟩ := hx
    have hnext := hnext (x.perform s).1
    obtain ⟨hnone, hsame, events, hadvances⟩ | ⟨e, bad, hsome, hbad, hfails, hsame⟩ :=
      x.compares_of_isOperational hoperational hs
    · rw [hnone] at hnext
      have hsmooth : (act x next).run s.smooth =
          (next (x.perform s).1).run (x.perform s).2.smooth := by
        change (next (x.perform s.smooth).1).run (x.perform s.smooth).2 = _
        rw [hsame]
      have hupTo : ∀ n, (x.perform s).2.bench.trace.length ≤ n → (act x next).upTo n s.smooth =
          (next (x.perform s).1).upTo n (x.perform s).2.smooth := by
        intro n hn
        change (if (x.perform s.smooth).2.bench.trace.length ≤ n then
          (next (x.perform s.smooth).1).upTo n (x.perform s.smooth).2 else s.smooth) = _
        rw [hsame]
        exact if_pos hn
      obtain ⟨a, later, hok, h⟩ | ⟨e, good, bad, rest, herror, hbad, h⟩ :=
        ih _ hnext hadvances.inFirstBank
      · exact Or.inl ⟨a, _, hok, h.prepend hadvances rfl hsmooth⟩
      · exact Or.inr ⟨e, _, bad, rest, herror, hbad, h.prepend hadvances rfl hsmooth hupTo⟩
    · rw [hsome] at hnext
      obtain ⟨rest, h⟩ := stopsAt_of_failsAt hfails hsame hnext
      have herror : ((act x next).run s).1 = .error e := by
        change ((next (x.perform s).1).run (x.perform s).2).1 = _
        rw [hnext]
        rfl
      exact Or.inr ⟨e, [], bad, rest, herror, hbad, h⟩
  | sleep d rest ih =>
    have hadvances : s.Advances (wait d s) [.delay d, .woke] :=
      ⟨List.append_assoc _ [_] [_], by simp [Event.asSuccess], hs⟩
    have hupTo : ∀ n, (wait d s).bench.trace.length ≤ n →
        (sleep d rest).upTo n s.smooth = rest.upTo n (wait d s).smooth :=
      fun n hn => if_pos hn
    obtain ⟨a, later, hok, h⟩ | ⟨e, good, bad, more, herror, hbad, h⟩ := ih hx hadvances.inFirstBank
    · exact Or.inl ⟨a, _, hok, h.prepend hadvances rfl rfl⟩
    · exact Or.inr ⟨e, _, bad, more, herror, hbad, h.prepend hadvances rfl rfl hupTo⟩

end Routine

namespace Driver

/-- A read, a write or a block read of the first bank is one access. -/
theorem exec_register_single {op : RegisterOp} (hop : op.IsPlain) (hsingle : op.isSingle = true)
    {s : System} (hs : s.bench.InFirstBank) :
    let after := op.onMemory s.bench.chip.memory
    exec (register op) s =
      match s.bench.attempt (s.bench.bus.access op) with
      | (true, c) => (.ok after.1, { s with bench := c.withMemory after.2 })
      | (false, c) => (.error (.bus (s.bench.bus.access op).fault), { s with bench := c }) := by
  intro after
  rw [exec_register, op.exec_single hs hop hsingle]
  rcases s.bench.attempt (s.bench.bus.access op) with ⟨_ | _, c⟩ <;> rfl

end Driver

end Inertial
