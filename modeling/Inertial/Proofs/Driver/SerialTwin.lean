import Inertial.Proofs.Bus.SerialTwin
import Inertial.Proofs.Driver.FailFast
import Inertial.Proofs.Driver.Steadiness
import Inertial.Driver.PowerUp

/-!
# Routines on twin benches

A routine is done on a system with the flat bus and on its twin with the serial one. The answers
that it gets differ in what a fault of the bus says, so the two runs need not follow the same
branch. They do the same if the routines match: after answers that differ in this way only they go
on to match (`Routine.Matches`). Then their runs lead from twins to twins (`Routine.Matches.run`),
and so do their stretches up to a wait (`Routine.Matches.advance`).

A driver that fails fast stops at a fault whatever it says, so it matches itself. From this and from
the few places where a failure is handled, every driver does.
-/

set_option autoImplicit false

namespace Inertial

/-- The failure as it is reported over a serial bus. -/
def DriverError.overSerial : DriverError → DriverError
  | .bus fault => .bus fault.overSerial
  | e => e

/-- The result of a driver as it is over a serial bus. -/
def resultOverSerial {α : Type} (r : Except DriverError α) : Except DriverError α :=
  r.mapError DriverError.overSerial

/-- The answer as it is over a serial bus. -/
def Reply.overSerial : Reply → Reply
  | .failed e => .failed e.overSerial
  | r => r

/-- A reply without a failure is the same over both buses. -/
theorem Reply.overSerial_of_not_failure {r : Reply} (h : r.isFailure = false) :
    r.overSerial = r := by
  cases r with
  | failed e => cases h
  | _ => rfl

/-- What an action answers over a serial bus. -/
def Action.overSerial (x : Action) (answer : x.Answer) : x.Answer :=
  match x, answer with
  | .register _, r => r.mapError BusFault.overSerial
  | .switch .., ok => ok
  | .push _, done => done
  | .raise _, done => done
  | .getCore, core => core
  | .setCore _, done => done

/-- An action fails over either bus or over none. -/
theorem Action.failure?_overSerial (x : Action) (answer : x.Answer) :
    x.failure? (x.overSerial answer) = (x.failure? answer).map DriverError.overSerial := by
  cases x with
  | register op => cases answer <;> rfl
  | switch r on => cases answer <;> rfl
  | _ => rfl

/-- What an action answers when it does not fail has nothing to do with the bus. -/
theorem Action.overSerial_of_success {x : Action} {answer : x.Answer}
    (h : x.failure? answer = none) : x.overSerial answer = answer := by
  cases x with
  | register op =>
    cases answer with
    | ok a => rfl
    | error fault => cases h
  | _ => rfl

/-- The benches are twins, and everything else is the same. -/
structure System.Twins (s t : System) : Prop where
  bench : s.bench.Twins t.bench
  core : t.core = s.core
  locked : t.locked = s.locked

namespace System.Twins

variable {s t : System}

/-- An event that has nothing to do with the bus is logged on both. -/
theorem log (h : s.Twins t) {e : Event} (he : e.isIdle = true) : (s.log e).Twins (t.log e) := by
  cases e with
  | access x ok => cases he
  | switch r on ok => cases he
  | _ => exact { h with bench := h.bench.log trivial }

/-- Twins stay twins over a wait. -/
theorem wait (h : s.Twins t) (d : Delay) : (Routine.wait d s).Twins (Routine.wait d t) :=
  (h.log (e := .delay d) rfl).log rfl

/-- Twins stay twins with the same inbox. -/
theorem withInbox (h : s.Twins t) (i : Inbox) : (s.withInbox i).Twins (t.withInbox i) :=
  { h with bench := { h.bench with inbox := rfl } }

/-- Twins stay twins if the lock is taken or given back in both. -/
theorem withLocked (h : s.Twins t) (locked : Bool) :
    System.Twins { s with locked } { t with locked } :=
  { h with locked := rfl }

end System.Twins

/-- Twins answer an action in the same way, up to what a fault of the bus says. -/
theorem Action.perform_twins {s t : System} (h : s.Twins t) {x : Action} (hx : x.IsPlain) :
    (x.perform t).1 = x.overSerial (x.perform s).1 ∧
      (x.perform s).2.Twins (x.perform t).2 := by
  cases x with
  | register op =>
    obtain ⟨hanswer, hafter⟩ := h.bench.register hx
    exact ⟨hanswer, { h with bench := hafter }⟩
  | switch r on =>
    obtain ⟨hok, hafter⟩ := h.bench.switch r on
    exact ⟨hok, { h with bench := hafter }⟩
  | push sample => exact ⟨rfl, h.log rfl⟩
  | raise now => exact ⟨rfl, { h with bench := h.bench.raise now }⟩
  | getCore => exact ⟨h.core, h⟩
  | setCore core => exact ⟨rfl, { h with core := rfl }⟩

/-! ## Routines that match -/

namespace Routine

variable {α β γ δ : Type}

/-- The routines take the same actions and waits, the second with the answers of a serial bus, and
their results are related by `R`. -/
inductive Matches (R : α → β → Prop) : Routine α → Routine β → Prop where
  | done {a : α} {b : β} (h : R a b) : Matches R (.done a) (.done b)
  | act {x : Action} {next : x.Answer → Routine α} {next' : x.Answer → Routine β} (hx : x.IsPlain)
      (h : ∀ answer, Matches R (next answer) (next' (x.overSerial answer))) :
      Matches R (.act x next) (.act x next')
  | sleep {d : Delay} {rest : Routine α} {rest' : Routine β} (h : Matches R rest rest') :
      Matches R (.sleep d rest) (.sleep d rest')

namespace Matches

variable {R : α → β → Prop} {S : γ → δ → Prop} {x : Routine α} {y : Routine β} {s t : System}

/-- Routines that match may be followed by routines that match for matching results. -/
theorem bind {f : α → Routine γ} {g : β → Routine δ} (h : x.Matches R y)
    (hf : ∀ a b, R a b → (f a).Matches S (g b)) : (x >>= f).Matches S (y >>= g) := by
  induction h with
  | done hR => exact hf _ _ hR
  | act hx _ ih => exact .act hx ih
  | sleep _ ih => exact .sleep ih

/-- Matching routines lead from twins to twins. -/
theorem run (h : x.Matches R y) (hst : s.Twins t) :
    R (x.run s).1 (y.run t).1 ∧ (x.run s).2.Twins (y.run t).2 := by
  induction h generalizing s t with
  | done hR => exact ⟨hR, hst⟩
  | @act x next next' hx _ ih =>
    obtain ⟨hanswer, hafter⟩ := x.perform_twins hst hx
    have hrest := ih (x.perform s).1 hafter
    rw [← hanswer] at hrest
    exact hrest
  | sleep _ ih => exact ih (hst.wait _)

/-- Where matching routines stand after a stretch: both are done, or both have begun to wait and
match in what is left. -/
inductive Halts (R : α → β → Prop) : Halt α → Halt β → Prop where
  | done {a : α} {b : β} (h : R a b) : Halts R (.done a) (.done b)
  | asleep {rest : Routine α} {rest' : Routine β} (h : rest.Matches R rest') :
      Halts R (.asleep rest) (.asleep rest')

/-- Matching routines go up to the same wait. -/
theorem advance (h : x.Matches R y) (hst : s.Twins t) :
    Halts R (x.advance s).1 (y.advance t).1 ∧ (x.advance s).2.Twins (y.advance t).2 := by
  induction h generalizing s t with
  | done hR => exact ⟨.done hR, hst⟩
  | @act x next next' hx _ ih =>
    obtain ⟨hanswer, hafter⟩ := x.perform_twins hst hx
    have hrest := ih (x.perform s).1 hafter
    rw [← hanswer] at hrest
    exact hrest
  | sleep hrest _ => exact ⟨.asleep hrest, hst.log rfl⟩

end Matches

end Routine

/-! ## Drivers -/

namespace Driver

variable {α β : Type}

/-- The driver does the same over either bus, up to what a fault says. -/
def CarriesOver (x : Driver α) : Prop :=
  x.run.Matches (fun r r' => r' = resultOverSerial r) x.run

/-- A driver that fails fast stops at a fault whatever it says. -/
theorem FailsFast.carriesOver {E : DriverError → Prop} {x : Driver α}
    (hx : x.FailsFast Action.IsPlain E) (hE : ∀ e, E e → e.overSerial = e) : CarriesOver x := by
  have htree : ∀ y : Routine (Except DriverError α), y.FailsFast Action.IsPlain E →
      y.Matches (fun r r' => r' = resultOverSerial r) y := by
    intro y hy
    induction y with
    | done r =>
      refine .done ?_
      cases r with
      | ok a => rfl
      | error e => exact congrArg Except.error (hE e (hy e rfl)).symm
    | act z next ih =>
      refine .act hy.1 fun answer => ?_
      have hnext := hy.2 answer
      have hserial := hy.2 (z.overSerial answer)
      rw [z.failure?_overSerial] at hserial
      cases hfailure : z.failure? answer with
      | some e =>
        rw [hfailure] at hnext hserial
        dsimp only [Option.map] at hnext hserial
        rw [hnext, hserial]
        exact .done rfl
      | none =>
        rw [hfailure] at hnext
        rw [Action.overSerial_of_success hfailure]
        exact ih answer hnext
    | sleep d rest ih => exact .sleep (ih hy)
  exact htree x.run hx

/-- A driver that fails at failing actions only carries over, without a word on its own errors. -/
theorem FailsFast.carriesOver_of_no_failure {x : Driver α}
    (hx : x.FailsFast Action.IsPlain fun _ => False) : CarriesOver x :=
  hx.carriesOver fun _ he => he.elim

/-- A driver that only answers carries over. -/
theorem carriesOver_pure (a : α) : CarriesOver (pure a : Driver α) :=
  .done rfl

/-- Two drivers that carry over do so one after the other. -/
theorem CarriesOver.bind {x : Driver α} {f : α → Driver β} (hx : CarriesOver x)
    (hf : ∀ a, CarriesOver (f a)) : CarriesOver (x >>= f) := by
  refine Routine.Matches.bind hx ?_
  rintro r _ rfl
  cases r with
  | ok a => exact hf a
  | error e => exact .done rfl

/-- A handler that does not look at what a fault says does the same over either bus. -/
theorem CarriesOver.tryCatch {x : Driver α} {f : DriverError → Driver α} (hx : CarriesOver x)
    (hf : ∀ e, (f e).run.Matches (fun r r' => r' = resultOverSerial r) (f e.overSerial).run) :
    CarriesOver (tryCatch x f) := by
  unfold CarriesOver
  rw [ExceptT.run_tryCatch]
  refine Routine.Matches.bind hx ?_
  rintro r _ rfl
  cases r with
  | ok a => exact .done rfl
  | error e => exact hf e

/-- Holding a fault back carries over what the driver itself does. -/
theorem CarriesOver.attempt {x : Driver Unit} (hx : CarriesOver x) : CarriesOver (attempt x) :=
  hx.tryCatch fun _ => .done rfl

/-- What is the same over either bus step by step is the same. -/
theorem sequential_carriesOver : Sequential fun _ x => CarriesOver x where
  pure := carriesOver_pure
  bind := CarriesOver.bind

/-- The steps of a shutdown do the same over either bus, whether they fail or not. -/
theorem EndStep.carriesOver {n : Nat} {K : Core → Prop} {x : Driver Unit} (hx : EndStep n K x) :
    CarriesOver x := by
  cases hx with
  | setPowerAndWait p =>
    have hpower : Composed OperationStep Answers 2 (fun _ => True) (Driver.setPowerAndWait p) :=
      (composed_setPowerAndWait p).tuning.operation
    exact hpower.failsFast.plain.carriesOver_of_no_failure.attempt
  | switch r =>
    have hswitch : (Driver.switch r false).FailsFast Action.IsPlain fun _ => False :=
      failsFast_switch trivial (fun _ => trivial) trivial
    exact hswitch.carriesOver_of_no_failure.attempt
  | runtime f => exact (failsFast_note _).operational.plain.carriesOver_of_no_failure

/-- A driver that shuts down does the same over either bus. -/
theorem Composed.carriesOver {n : Nat} {x : Driver Unit}
    (hx : Composed EndStep Answers n (fun _ => True) x) : CarriesOver x :=
  hx.holds sequential_carriesOver failsFast_look.operational.plain.carriesOver_of_no_failure
    EndStep.carriesOver

/-- A power-up does the same over either bus. -/
theorem carriesOver_powerUp (chip : Chip) (interrupt : PinSetup) :
    CarriesOver (powerUp chip interrupt) := by
  have hsetUp : CarriesOver (supplyAndSetUp chip interrupt) := by
    refine (failsFast_supplyAndSetUp (E := fun e => e.isBus = false) (fun _ h => h) chip
      interrupt).carriesOver ?_
    intro e he
    cases e with
    | bus fault => cases he
    | _ => rfl
  refine hsetUp.tryCatch fun e => Routine.Matches.bind composed_releaseRails.carriesOver ?_
  rintro r _ rfl
  cases r with
  | ok _ => exact .done rfl
  | error e => exact .done rfl

/-- A sample is the same over either bus. -/
theorem matches_takeSample {σ : Type} [Sink σ] (time : Int64) (sink : σ) :
    (takeSample time sink).Matches Eq (takeSample time sink) := by
  have hraise : ∀ edges : List Int64, Routine.Matches Eq
      (edges.forM fun now => act (.raise now)) (edges.forM fun now => act (.raise now)) := by
    intro edges
    induction edges with
    | nil => exact .done rfl
    | cons now edges ih => exact .act trivial fun _ => ih
  have hdata : CarriesOver readData :=
    failsFast_readData.operational.plain.carriesOver_of_no_failure
  unfold takeSample
  refine Routine.Matches.bind hdata ?_
  rintro r _ rfl
  rcases r with e | _ | raw
  · exact .done rfl
  · exact .done rfl
  · dsimp only [resultOverSerial, Except.mapError]
    split
    · refine Routine.Matches.bind (R := Eq) (.act trivial fun _ => .done rfl) ?_
      rintro _ _ rfl
      refine Routine.Matches.bind (hraise _) ?_
      rintro _ _ rfl
      exact .done rfl
    · exact .done rfl

end Driver

/-- An operation gives the same answer over either bus, up to what a fault says. -/
theorem Operation.matches_body (op : Operation) :
    op.body.Matches (fun r r' => r' = r.overSerial) op.body := by
  obtain ⟨α, x, f, hop⟩ := op.exists_reports
  have hx : x.CarriesOver := hop.failsFast.plain.carriesOver_of_no_failure
  rw [hop.body]
  unfold reply
  refine Routine.Matches.bind hx ?_
  rintro r _ rfl
  cases r with
  | ok a => exact .done (Reply.overSerial_of_not_failure (hop.isFailure a)).symm
  | error e => exact .done rfl

end Inertial
