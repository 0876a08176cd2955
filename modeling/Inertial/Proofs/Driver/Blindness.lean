import Inertial.Proofs.Bus.Indifference
import Inertial.Proofs.Driver.Interruption
import Inertial.Shared.Task

/-!
# What a routine does not depend on

Systems that the driver cannot tell apart have its routines do the same, with the same results
(`Routine.run_like`). Two uses are made of this. The trace from before a routine only gets longer
(`Routine.exists_trace_run`), and what the inbox holds and which edges come does not matter, but for
the time of a sample (`Bench.Alike`).
-/

set_option autoImplicit false

namespace Inertial

/-! ## Systems that look the same -/

/-- The benches are related and the record of the device is the same. -/
structure System.Like (R : Bench → Bench → Prop) (s t : System) : Prop where
  bench : R s.bench t.bench
  core : s.core = t.core

section

variable {R : Bench → Bench → Prop} {s t : System}

/-- An action goes the same way in systems that look the same. -/
theorem Action.perform_like (hR : Bench.IsLikeness R) (h : s.Like R t) (x : Action) :
    (x.perform s).1 = (x.perform t).1 ∧ (x.perform s).2.Like R (x.perform t).2 := by
  cases x with
  | register op =>
    obtain ⟨hanswer, hafter⟩ := op.respects_perform hR s.bench t.bench h.bench
    exact ⟨hanswer, hafter, h.core⟩
  | switch r on =>
    obtain ⟨hok, hafter⟩ := hR.switch h.bench r on
    exact ⟨hok, hafter, h.core⟩
  | push sample => exact ⟨rfl, hR.log h.bench _, h.core⟩
  | raise now => exact ⟨rfl, hR.raise h.bench now, h.core⟩
  | getCore => exact ⟨h.core, h.bench, h.core⟩
  | setCore core => exact ⟨rfl, h.bench, rfl⟩

/-- A routine has the same result on systems that look the same, which look the same after it. -/
theorem Routine.run_like {α : Type} (hR : Bench.IsLikeness R) (x : Routine α) (h : s.Like R t) :
    (x.run s).1 = (x.run t).1 ∧ (x.run s).2.Like R (x.run t).2 := by
  induction x generalizing s t with
  | done a => exact ⟨rfl, h⟩
  | act x next ih =>
    obtain ⟨hanswer, hafter⟩ := x.perform_like hR h
    have hrest := ih (x.perform s).1 hafter
    change ((next (x.perform s).1).run (x.perform s).2).1 =
        ((next (x.perform t).1).run (x.perform t).2).1 ∧
      ((next (x.perform s).1).run (x.perform s).2).2.Like R
        ((next (x.perform t).1).run (x.perform t).2).2
    rw [← hanswer]
    exact hrest
  | sleep d rest ih =>
    exact ih ⟨hR.log (hR.log h.bench _) _, h.core⟩

/-- It gets as far on both in a stretch, too. -/
theorem Routine.advance_like {α : Type} (hR : Bench.IsLikeness R) (x : Routine α)
    (h : s.Like R t) :
    (x.advance s).1 = (x.advance t).1 ∧ (x.advance s).2.Like R (x.advance t).2 := by
  induction x generalizing s t with
  | done a => exact ⟨rfl, h⟩
  | act x next ih =>
    obtain ⟨hanswer, hafter⟩ := x.perform_like hR h
    have hrest := ih (x.perform s).1 hafter
    change ((next (x.perform s).1).advance (x.perform s).2).1 =
        ((next (x.perform t).1).advance (x.perform t).2).1 ∧
      ((next (x.perform s).1).advance (x.perform s).2).2.Like R
        ((next (x.perform t).1).advance (x.perform t).2).2
    rw [← hanswer]
    exact hrest
  | sleep d rest ih => exact ⟨rfl, hR.log h.bench _, h.core⟩

end

/-! ## The trace gets longer -/

/-- The same bench with events before those in its trace. -/
def Bench.After (past : List Event) (b c : Bench) : Prop :=
  c = { b with trace := past ++ b.trace }

/-- Nothing that is done on a bench looks at its trace. -/
theorem Bench.isLikeness_after (past : List Event) : IsLikeness (After past) where
  chip := by
    rintro b _ rfl
    rfl
  bus := by
    rintro b _ rfl
    rfl
  setChip := by
    rintro b _ rfl chip
    rfl
  setBus := by
    rintro b _ rfl bus
    rfl
  attempt := by
    rintro b _ rfl x
    refine ⟨rfl, ?_⟩
    simp [After, attempt, deliver, log]
  switch := by
    rintro b _ rfl r on
    refine ⟨rfl, ?_⟩
    simp [After, switch, log]
  raise := by
    rintro b _ rfl now
    rfl
  log := by
    rintro b _ rfl e
    simp [After, log]

/-- What a routine does comes after what the trace has already. -/
theorem Routine.exists_trace_run {α : Type} (x : Routine α) (s : System) :
    ∃ events, (x.run s).2.bench.trace = s.bench.trace ++ events := by
  have hlike : System.Like (Bench.After s.bench.trace)
      { s with bench := { s.bench with trace := [] } } s := by
    refine ⟨?_, rfl⟩
    simp [Bench.After]
  obtain ⟨_, hafter⟩ := x.run_like (Bench.isLikeness_after s.bench.trace) hlike
  exact ⟨_, congrArg Bench.trace hafter.bench⟩

/-! ## Interrupts only tell the time -/

/-- The sample without its time. -/
def Sample.untimed (s : Sample) : Sample :=
  { s with timestamp := 0 }

/-- The event without the time of a sample. -/
def Event.untimed : Event → Event
  | .push s => .push s.untimed
  | e => e

/-- The answer without the time of a sample. -/
def Reply.untimed : Reply → Reply
  | .sample s => .sample (s.map Sample.untimed)
  | r => r

/-- The benches are the same but for the inbox, the edges still to come and the times of samples. -/
structure Bench.Alike (b c : Bench) : Prop where
  chip : b.chip = c.chip
  bus : b.bus = c.bus
  supply : b.supply = c.supply
  pins : b.pins = c.pins
  failsAccess : b.plan.failsAccess = c.plan.failsAccess
  failsSwitch : b.plan.failsSwitch = c.plan.failsSwitch
  accesses : b.accesses = c.accesses
  switches : b.switches = c.switches
  trace : b.trace.map Event.untimed = c.trace.map Event.untimed

namespace Bench

/-- A bench is like itself. -/
theorem Alike.refl (b : Bench) : b.Alike b :=
  ⟨rfl, rfl, rfl, rfl, rfl, rfl, rfl, rfl, rfl⟩

/-- Likeness goes over from one bench to the next. -/
theorem Alike.trans {b c d : Bench} (h : b.Alike c) (h' : c.Alike d) : b.Alike d where
  chip := h.chip.trans h'.chip
  bus := h.bus.trans h'.bus
  supply := h.supply.trans h'.supply
  pins := h.pins.trans h'.pins
  failsAccess := h.failsAccess.trans h'.failsAccess
  failsSwitch := h.failsSwitch.trans h'.failsSwitch
  accesses := h.accesses.trans h'.accesses
  switches := h.switches.trans h'.switches
  trace := h.trace.trans h'.trace

/-- Events that differ in times only may be logged. -/
theorem Alike.log_untimed {b c : Bench} (h : b.Alike c) {e f : Event}
    (he : e.untimed = f.untimed) : (b.log e).Alike (c.log f) where
  chip := h.chip
  bus := h.bus
  supply := h.supply
  pins := h.pins
  failsAccess := h.failsAccess
  failsSwitch := h.failsSwitch
  accesses := h.accesses
  switches := h.switches
  trace := by
    unfold log
    rw [List.map_append, List.map_append, h.trace, List.map_singleton, List.map_singleton, he]

/-- Nothing that is done on a bench looks at its inbox or at the times of samples. -/
theorem isLikeness_alike : IsLikeness Alike where
  chip := fun h => h.chip
  bus := fun h => h.bus
  setChip := fun h chip => { h with chip := rfl }
  setBus := fun h bus => { h with bus := rfl }
  attempt := by
    intro b c h x
    have hok : (b.attempt x).1 = (c.attempt x).1 := by
      unfold attempt
      rw [h.failsAccess, h.accesses]
    have hlog : (b.log (.access x (b.attempt x).1)).Alike (c.log (.access x (c.attempt x).1)) := by
      apply h.log_untimed
      rw [hok]
    refine ⟨hok, ?_⟩
    exact { hlog with accesses := congrArg (· + 1) h.accesses }
  switch := by
    intro b c h r on
    have hok : (b.switch r on).1 = (c.switch r on).1 := by
      rw [switch_fst, switch_fst, h.supply, h.failsSwitch, h.switches]
    have hlog : (b.log (.switch r on (b.switch r on).1)).Alike
        (c.log (.switch r on (c.switch r on).1)) := by
      apply h.log_untimed
      rw [hok]
    refine ⟨hok, ?_⟩
    exact
      { hlog with
        switches := congrArg (· + 1) h.switches
        pins := by rw [pins_switch, pins_switch, h.supply, h.failsSwitch, h.switches, h.pins] }
  raise := fun h now => { h with }
  log := fun h e => h.log_untimed rfl

end Bench

namespace Driver

variable {s t : System}

/-- The edges that a sink causes change the inbox only. -/
theorem run_raise (edges : List Int64) (s : System) :
    (edges.forM fun now => act (.raise now)).run s =
      ((), s.withInbox (s.bench.inbox.raiseAll edges)) := by
  induction edges generalizing s with
  | nil => rfl
  | cons now edges ih => exact ih (s.withInbox (s.bench.inbox.raise now))

/-- A sample is what the data registers hold together with its time. It is pushed if the sink wants
it, and then the sink's edges come. -/
theorem run_takeSample_some {σ : Type} [Sink σ] {time : Int64} {sink : σ} {s t : System}
    {raw : RawBlock} (h : readData.exec s = (.ok (some raw), t)) :
    let x := Sample.ofRaw raw time
    (takeSample time sink).run s =
      if Sink.isEnabled sink then
        ((some x, (Sink.push x sink).2),
          (t.log (.push x)).withInbox (t.bench.inbox.raiseAll (Sink.push x sink).1))
      else ((some x, sink), t) := by
  intro x
  unfold exec at h
  unfold takeSample
  rw [Routine.run_bind, h]
  dsimp only
  split
  · rw [Routine.run_bind]
    change Routine.run (((Sink.push x sink).1.forM fun now => act (.raise now)) >>= fun _ => pure _)
      (t.log (.push x)) = _
    rw [Routine.run_bind, run_raise]
    rfl
  · rfl

/-- A sample is what the data registers hold together with its time, and it is pushed if the sink
wants it. Without data there is none. -/
theorem run_takeSample {σ : Type} [Sink σ] (time : Int64) (sink : σ) (s : System) :
    match readData.exec s with
    | (.ok (some raw), t) => ∃ i sink', (takeSample time sink).run s =
        ((some (.ofRaw raw time), sink'),
          (if Sink.isEnabled sink then t.log (.push (.ofRaw raw time)) else t).withInbox i)
    | (_, t) => (takeSample time sink).run s = ((none, sink), t) := by
  rcases h : readData.exec s with ⟨e | _ | raw, t⟩
  · unfold exec at h
    rw [takeSample, Routine.run_bind, h]
    rfl
  · unfold exec at h
    rw [takeSample, Routine.run_bind, h]
    rfl
  · dsimp only
    rw [run_takeSample_some h]
    split
    · exact ⟨_, _, rfl⟩
    · exact ⟨t.bench.inbox, sink, rfl⟩

/-- Samples taken at different times differ in the time only, and they go to sinks that both want
samples or both do not. -/
theorem takeSample_alike {σ τ : Type} [Sink σ] [Sink τ] (now later : Int64) {sink : σ} {other : τ}
    (hsink : Sink.isEnabled sink = Sink.isEnabled other) (h : s.Like Bench.Alike t) :
    ((takeSample now sink).run s).1.1.map Sample.untimed =
        ((takeSample later other).run t).1.1.map Sample.untimed ∧
      ((takeSample now sink).run s).2.Like Bench.Alike ((takeSample later other).run t).2 := by
  obtain ⟨hdata, hread⟩ := readData.run.run_like Bench.isLikeness_alike h
  have hnow := run_takeSample now sink s
  have hlater := run_takeSample later other t
  unfold exec at hnow hlater
  rcases hs : readData.run.run s with ⟨data, u⟩
  rcases ht : readData.run.run t with ⟨data', v⟩
  rw [hs, ht] at hdata hread
  rw [hs] at hnow
  rw [ht] at hlater
  dsimp only at hdata
  subst hdata
  rcases data with e | _ | raw
  · rw [hnow, hlater]
    exact ⟨rfl, hread⟩
  · rw [hnow, hlater]
    exact ⟨rfl, hread⟩
  · obtain ⟨i, _, hnow⟩ := hnow
    obtain ⟨j, _, hlater⟩ := hlater
    rw [hnow, hlater, ← hsink]
    refine ⟨rfl, ?_⟩
    split
    · have hpush : (u.bench.log (.push (.ofRaw raw now))).Alike
          (v.bench.log (.push (.ofRaw raw later))) := hread.bench.log_untimed rfl
      exact ⟨{ hpush with }, hread.core⟩
    · exact ⟨{ hread.bench with }, hread.core⟩

end Driver

end Inertial
