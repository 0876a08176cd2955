import Inertial.Driver.Basic
import Inertial.Proofs.Bus.Replay

/-!
# What is told by the trace

An action logs what it does on the bench, and a wait logs its two ends. So what the trace has grown
by tells what has become of the chip, after a stretch up to a wait (`Routine.exists_logged_advance`)
as well as after a run to the end (`Routine.exists_logged_run`).
-/

set_option autoImplicit false

namespace Inertial

/-- From `s` to `t` the trace has grown by the given events, and they tell what became of the chip.
-/
structure System.Logged (s t : System) (events : List Event) : Prop where
  trace : t.bench.trace = s.bench.trace ++ events
  chip : t.bench.chip = replay events s.bench.chip

namespace System.Logged

variable {s t u : System} {events later : List Event}

/-- Nothing was logged, and nothing became of the chip. -/
theorem idle (htrace : t.bench.trace = s.bench.trace) (hchip : t.bench.chip = s.bench.chip) :
    s.Logged t [] where
  trace := by rw [htrace, List.append_nil]
  chip := hchip

/-- A system is what it is when nothing is logged. -/
theorem refl (s : System) : s.Logged s [] :=
  idle rfl rfl

/-- What is logged in two stretches is logged in one. -/
theorem trans (h : s.Logged t events) (h' : t.Logged u later) : s.Logged u (events ++ later) where
  trace := by rw [h'.trace, h.trace, List.append_assoc]
  chip := by rw [h'.chip, h.chip, replay_append]

/-- An event that does nothing to the chip may be logged. -/
theorem log {e : Event} (s : System) (he : e.effect s.bench.chip = s.bench.chip) :
    s.Logged (s.log e) [e] where
  trace := rfl
  chip := he.symm

end System.Logged

/-- What an action does to the chip can be told from what it logs. -/
theorem Action.exists_logged_perform (x : Action) (s : System) :
    ∃ events, s.Logged (x.perform s).2 events := by
  cases x with
  | register op =>
    obtain ⟨quiet, last, h, _⟩ := op.exists_logged s.bench
    exact ⟨quiet ++ last, h.trace, h.chip⟩
  | switch r on => exact ⟨[.switch r on (s.bench.switch r on).1], rfl, rfl⟩
  | push sample => exact ⟨_, .log s rfl⟩
  | raise now => exact ⟨[], .idle rfl rfl⟩
  | getCore => exact ⟨[], .refl s⟩
  | setCore core => exact ⟨[], .idle rfl rfl⟩

namespace Routine

variable {α : Type}

/-- So can what a routine does up to its next wait. -/
theorem exists_logged_advance (x : Routine α) (s : System) :
    ∃ events, s.Logged (x.advance s).2 events := by
  induction x generalizing s with
  | done a => exact ⟨[], .refl s⟩
  | act x next ih =>
    obtain ⟨first, hfirst⟩ := x.exists_logged_perform s
    obtain ⟨rest, hrest⟩ := ih (x.perform s).1 (x.perform s).2
    exact ⟨first ++ rest, hfirst.trans hrest⟩
  | sleep d rest ih => exact ⟨[.delay d], .log s rfl⟩

/-- Also a wait from its beginning to its end is told. -/
theorem exists_logged_run (x : Routine α) (s : System) :
    ∃ events, s.Logged (x.run s).2 events := by
  induction x generalizing s with
  | done a => exact ⟨[], .refl s⟩
  | act x next ih =>
    obtain ⟨first, hfirst⟩ := x.exists_logged_perform s
    obtain ⟨rest, hrest⟩ := ih (x.perform s).1 (x.perform s).2
    exact ⟨first ++ rest, hfirst.trans hrest⟩
  | sleep d rest ih =>
    obtain ⟨later, hlater⟩ := ih (wait d s)
    have hwait : s.Logged (wait d s) [.delay d, .woke] :=
      (System.Logged.log s rfl).trans (.log _ rfl)
    exact ⟨_, hwait.trans hlater⟩

end Routine

/-- The chip after a driver, as told from what the driver logged. -/
theorem Driver.chip_exec {α : Type} {x : Driver α} {s t : System} {r : Except DriverError α}
    (h : exec x s = (r, t)) {events : List Event}
    (htrace : t.bench.trace = s.bench.trace ++ events) :
    t.bench.chip = replay events s.bench.chip := by
  obtain ⟨events', hlogged⟩ := x.run.exists_logged_run s
  have ht : (x.run.run s).2 = t := congrArg Prod.snd h
  rw [ht] at hlogged
  have hsame : events = events' :=
    List.append_cancel_left (htrace.symm.trans hlogged.trace)
  rw [hsame]
  exact hlogged.chip

end Inertial
