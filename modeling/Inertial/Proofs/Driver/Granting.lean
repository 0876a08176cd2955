import Inertial.Proofs.Driver.Blindness
import Inertial.Proofs.Driver.Outcome
import Inertial.Proofs.Driver.Stages

/-!
# What granting a wish comes to

A change of the settings fails only if an access failed on the way (`Driver.Honest`). If it
succeeds, the wishes are what is in force and everything else is as it was, in whatever order the
registers were written, and the answer is how long the change of what runs takes to settle.

A request is granted in stages (`Driver.exec_grant`), and what the stages reach is what it asks for,
so nothing has to be known here of the order in which they come.
-/

set_option autoImplicit false

namespace Inertial

namespace Driver

variable {α β : Type}

/-! ## Success -/

/-- After a change from the record `c` to a configuration it is on record, and the answer is how
long that takes to settle. -/
def Changes (c : Core) (config : DeviceConfig) (t : Duration) (d : Core) : Prop :=
  d = { c with config } ∧ t = (Settling.between c.config.power config.power).settle

/-- If all stages are stored then what they reach is on record. -/
theorem success_storeAll (c : Core) (stages : List Stage) :
    Success c (fun _ d => d = { c with config := Stage.reached c.config stages })
      (storeAll stages) := by
  induction stages generalizing c with
  | nil => exact success_pure rfl
  | cons x stages ih =>
    rw [storeAll_cons]
    refine ((outcome_store x.register x.config).success fun _ d h => h).bind ?_
    rintro _ d rfl
    exact ih { c with config := x.config }

/-- The pause after the stages leaves the record as it is. -/
theorem success_finish (c : Core) (waits : Settling) :
    Success c (fun t d => d = c ∧ t = waits.settle) (finish waits) := by
  unfold finish
  split
  · refine (success_sleep (P := fun _ d => d = c) _ rfl).bind ?_
    rintro _ d rfl
    exact success_pure ⟨rfl, rfl⟩
  · exact success_pure ⟨rfl, rfl⟩

/-- A request is granted if that succeeds. -/
theorem success_grant (request : Request) (c : Core) :
    Success c (Changes c (request.goal c.config)) (grant request) := by
  have hstages : Success c (Changes c (request.goal c.config))
      (storeAll (request.stages c.config) >>= fun _ =>
        finish (.between c.config.power (request.goal c.config).power)) := by
    refine (success_storeAll c _).bind ?_
    rintro _ d rfl
    rw [request.reached_stages]
    exact success_finish _ _
  intro s hs
  rw [exec_grant, hs]
  exact hstages s hs

/-- The thermometer is turned on or off if that succeeds. -/
theorem success_setTemperature (on : Bool) (c : Core) :
    Success c (Changes c { c.config with temperature := on }) (setTemperature on) := by
  refine success_getCore_bind ((outcome_setPower _).success ?_)
  rintro t d ⟨rfl, rfl⟩
  exact ⟨rfl, rfl⟩

/-! ## Failure -/

/-- Begun on a bench in step, the driver leaves it in step and fails only if an access failed. -/
def Honest (x : Driver α) : Prop :=
  ∀ s : System, s.bench.InStep → (exec x s).2.bench.InStep ∧
    ∀ e, (exec x s).1 = .error e → ∃ events,
      (exec x s).2.bench.trace = s.bench.trace ++ events ∧
      ∃ event ∈ events, event.succeeded = false

/-- What cannot fail is honest: it blames nothing. -/
theorem honest_pure (a : α) : Honest (pure a : Driver α) := by
  intro s hs
  refine ⟨hs, ?_⟩
  intro e he
  cases he

/-- A wait cannot fail. -/
theorem honest_sleep (d : Delay) : Honest (sleep d) := by
  intro s hs
  refine ⟨hs, ?_⟩
  intro e he
  cases he

/-- Nor can a look at the record. -/
theorem honest_getCore : Honest getCore := by
  intro s hs
  refine ⟨hs, ?_⟩
  intro e he
  cases he

/-- Nor can a change of it. -/
theorem honest_modifyCore (f : Core → Core) : Honest (modifyCore f) := by
  intro s hs
  refine ⟨hs, ?_⟩
  intro e he
  cases he

/-- The one that failed of two drivers is the one to blame. -/
theorem Honest.bind {x : Driver α} {f : α → Driver β} (hx : Honest x) (hf : ∀ a, Honest (f a)) :
    Honest (x >>= f) := by
  intro s hs
  have hfirst := hx s hs
  have htrace := x.run.exists_trace_run s
  change ∃ events, (exec x s).2.bench.trace = _ at htrace
  rw [exec_bind]
  rcases hexec : exec x s with ⟨e | a, t⟩
  · rw [hexec] at hfirst
    refine ⟨hfirst.1, ?_⟩
    intro e' he
    cases he
    exact hfirst.2 e rfl
  · rw [hexec] at hfirst htrace
    obtain ⟨first, hfirst'⟩ := htrace
    obtain ⟨hin, hrest⟩ := hf a t hfirst.1
    refine ⟨hin, ?_⟩
    intro e he
    obtain ⟨events, hevents, event, hmem, hfailed⟩ := hrest e he
    refine ⟨first ++ events, ?_, event, List.mem_append_right first hmem, hfailed⟩
    rw [← List.append_assoc, ← hfirst']
    exact hevents

/-- A write that fails blames its own access. -/
theorem honest_write {a : Address} {v : Byte} (hop : (RegisterOp.write a v).IsRegular) :
    Honest (write a v) := by
  intro s hs
  obtain ⟨events, h⟩ := RegisterOp.refines_of_inStep hs hop
  unfold write
  rw [exec_register]
  rcases hx : (RegisterOp.write a v).perform.exec s.bench with ⟨fault | answer, bench⟩
  · rw [hx] at h
    refine ⟨h.inStep, ?_⟩
    intro _ _
    exact ⟨events, h.uses.trace, (h.of_error fault rfl).1⟩
  · rw [hx] at h
    refine ⟨h.inStep, ?_⟩
    intro e he
    cases he

/-- What is honest step by step is honest. -/
theorem sequential_honest : Sequential fun _ x => Honest x where
  pure := honest_pure
  bind := Honest.bind

/-- Tuning is honest: the accesses are all that can fail. -/
theorem Composed.honest {n : Nat} {x : Driver α}
    (hx : Composed TuningStep Answers n (fun _ => True) x) : Honest x := by
  refine hx.holds sequential_honest honest_getCore ?_
  intro n K x hx
  cases hx with
  | store r config => exact (honest_write (r.isRegular_write _)).bind fun _ => honest_modifyCore _
  | sleep d => exact honest_sleep d

/-- Unless an access fails, an honest driver succeeds and brings about what its success does. -/
theorem Honest.exec_eq_ok {x : Driver α} (hx : Honest x) {s : System} {P : α → Core → Prop}
    (hP : Success s.core P x) (hs : s.bench.InStep) {events : List Event}
    (htrace : (exec x s).2.bench.trace = s.bench.trace ++ events)
    (hfree : ∀ e ∈ events, e.succeeded = true) :
    ∃ a t, exec x s = (.ok a, t) ∧ t.bench.InStep ∧ P a t.core := by
  obtain ⟨hin, hfails⟩ := hx s hs
  have hdone := hP s rfl
  rcases hexec : exec x s with ⟨e | a, t⟩
  · rw [hexec] at htrace hfails
    obtain ⟨events', htrace', event, hmem, hfailed⟩ := hfails e rfl
    have hsame : events' = events := List.append_cancel_left (htrace'.symm.trans htrace)
    rw [hfree event (hsame ▸ hmem)] at hfailed
    cases hfailed
  · rw [hexec] at hin hdone
    exact ⟨a, t, rfl, hin, hdone a rfl⟩

end Driver

end Inertial
