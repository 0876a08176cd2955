import Inertial.Proofs.Driver.Logged
import Inertial.Proofs.Shared.Guarded

/-!
# Who did what

The trace of a bench does not say which task did what. A history does: it is the trace of a pool
with the position of a task beside each event, put together from what every single resumption adds
to the trace. Without the positions it is what the trace has grown by, and it tells what has become
of the chip (`Pool.logged_follow`).

What every transition keeps of the history, the system and the tasks holds after every schedule
(`Pool.history_induction`).
-/

set_option autoImplicit false

namespace Inertial

/-- Events in the order in which they happened, each with the position of its task. -/
abbrev History := List (Nat × Event)

/-- Events that are all of one task. -/
def History.of (i : Nat) (events : List Event) : History :=
  events.map (i, ·)

/-- Where a task logs nothing its history is empty. -/
@[simp] theorem History.of_nil (i : Nat) : History.of i [] = [] := rfl

/-- What a task logs later comes later in its history. -/
theorem History.of_append (i : Nat) (events later : List Event) :
    History.of i (events ++ later) = History.of i events ++ History.of i later :=
  List.map_append

/-- The events of a task's history are what it logged. -/
@[simp] theorem History.map_snd_of (i : Nat) (events : List Event) :
    (History.of i events).map Prod.snd = events := by
  rw [of, List.map_map]
  exact List.map_id events

/-! ## What one transition adds -/

/-- What a transition of a task adds to the trace tells what it did to the chip. -/
theorem Task.exists_logged_step {σ : Type} [Sink σ] {t t' : Task σ} {s s' : System}
    (h : t.step s = some (t', s')) : ∃ events, s.Logged s' events := by
  rcases Task.step_cases h with ⟨_, _, ⟨i, rfl⟩, _⟩ | ⟨body, _, _, _, rfl⟩ | ⟨body, _, _, rfl⟩ |
    ⟨body, rest, _, hx, _⟩ | ⟨body, after, u, _, hx, _, rfl⟩
  · exact ⟨[], .idle rfl rfl⟩
  · exact ⟨[], .idle rfl rfl⟩
  · exact ⟨[.woke], .log s rfl⟩
  · have hlogged := body.exists_logged_advance s
    rw [hx] at hlogged
    exact hlogged
  · have hlogged := body.exists_logged_advance s
    rw [hx] at hlogged
    obtain ⟨events, hevents⟩ := hlogged
    exact ⟨events, hevents.trace, hevents.chip⟩

/-! ## The history of a schedule -/

namespace Pool

variable {σ : Type} [Sink σ]

/-- What tasks do when they are resumed one after the other. -/
def history (wakeUps : Nat) : Pool σ → List Nat → History
  | _, [] => []
  | p, i :: schedule =>
    let q := p.resume wakeUps i
    History.of i (q.system.bench.trace.drop p.system.bench.trace.length) ++
      q.history wakeUps schedule

/-- What every transition keeps holds of what a resumption adds. -/
theorem resume_history_induction {P : History → System → List (Task σ) → Prop}
    (hstep : ∀ h s tasks i t t' s' events, P h s tasks → tasks[i]? = some t →
      t.step s = some (t', s') → s.Logged s' events →
      P (h ++ History.of i events) s' (tasks.set i t'))
    (n : Nat) {h : History} {s : System} {tasks : List (Task σ)} {i : Nat} {t : Task σ}
    (hP : P h s tasks) (hi : tasks[i]? = some t) :
    ∃ events, s.Logged (t.resume n s).2 events ∧
      P (h ++ History.of i events) (t.resume n s).2 (tasks.set i (t.resume n s).1) := by
  have hstay : ∃ events, s.Logged s events ∧ P (h ++ History.of i events) s (tasks.set i t) := by
    refine ⟨[], .refl s, ?_⟩
    rw [History.of_nil, List.append_nil, set_eq_self hi]
    exact hP
  -- On the number of transitions; what a resumption has logged so far is one stretch of the
  -- history.
  induction n generalizing h s tasks t with
  | zero => exact hstay
  | succ n ih =>
    cases hx : t.step s with
    | none =>
      rw [Task.resume, hx]
      exact hstay
    | some next =>
      obtain ⟨t', s'⟩ := next
      obtain ⟨events, hevents⟩ := Task.exists_logged_step hx
      have hnext := hstep h s tasks i t t' s' events hP hi hx hevents
      have hi' : (tasks.set i t')[i]? = some t' := by
        obtain ⟨hlt, _⟩ := List.getElem?_eq_some_iff.mp hi
        exact List.getElem?_set_self hlt
      have hstay' : ∃ later, s'.Logged s' later ∧
          P (h ++ History.of i events ++ History.of i later) s' ((tasks.set i t').set i t') := by
        refine ⟨[], .refl s', ?_⟩
        rw [History.of_nil, List.append_nil, List.set_set]
        exact hnext
      obtain ⟨later, hlater, hrest⟩ := ih hnext hi' hstay'
      rw [List.append_assoc, ← History.of_append, List.set_set] at hrest
      cases t' with
      | asleep rest =>
        rw [Task.resume, hx]
        exact ⟨events, hevents, hnext⟩
      | _ =>
        rw [Task.resume, hx]
        exact ⟨events ++ later, hevents.trans hlater, hrest⟩

/-- What every transition of every task keeps holds after every schedule. -/
theorem history_induction {P : History → System → List (Task σ) → Prop}
    (hstep : ∀ h s tasks i t t' s' events, P h s tasks → tasks[i]? = some t →
      t.step s = some (t', s') → s.Logged s' events →
      P (h ++ History.of i events) s' (tasks.set i t'))
    {p : Pool σ} {h : History} (hp : P h p.system p.tasks) (wakeUps : Nat) (schedule : List Nat) :
    P (h ++ p.history wakeUps schedule) (p.follow wakeUps schedule).system
      (p.follow wakeUps schedule).tasks := by
  induction schedule generalizing p h with
  | nil =>
    rw [history, List.append_nil]
    exact hp
  | cons i schedule ih =>
    rw [history, ← List.append_assoc]
    refine ih ?_
    have hstay : P (h ++ History.of i (p.system.bench.trace.drop p.system.bench.trace.length))
        p.system p.tasks := by
      rw [List.drop_length, History.of_nil, List.append_nil]
      exact hp
    unfold resume
    split
    · exact hstay
    · exact hstay
    · rename_i t _ hi
      obtain ⟨events, hevents, hnext⟩ := resume_history_induction hstep (Task.stretch wakeUps) hp hi
      dsimp only
      rw [hevents.trace, List.drop_left]
      exact hnext

/-- A schedule may be followed in two parts. -/
theorem follow_append (p : Pool σ) (wakeUps : Nat) (schedule later : List Nat) :
    p.follow wakeUps (schedule ++ later) = (p.follow wakeUps schedule).follow wakeUps later :=
  List.foldl_append

/-- What a resumption adds to the trace comes first in the history. -/
theorem history_cons {p : Pool σ} {wakeUps i : Nat} {events : List Event}
    (h : (p.resume wakeUps i).system.bench.trace = p.system.bench.trace ++ events)
    (later : List Nat) :
    p.history wakeUps (i :: later) =
      History.of i events ++ (p.resume wakeUps i).history wakeUps later := by
  rw [history, h, List.drop_left]

/-- The history of two schedules in a row is that of one after the other. -/
theorem history_append (p : Pool σ) (wakeUps : Nat) (schedule later : List Nat) :
    p.history wakeUps (schedule ++ later) =
      p.history wakeUps schedule ++ (p.follow wakeUps schedule).history wakeUps later := by
  induction schedule generalizing p with
  | nil => rfl
  | cons i schedule ih =>
    rw [List.cons_append, history, history, ih, List.append_assoc]
    rfl

/-- Only tasks that are resumed do something. -/
theorem mem_of_mem_history {p : Pool σ} {wakeUps : Nat} {schedule : List Nat} {i : Nat} {e : Event}
    (h : (i, e) ∈ p.history wakeUps schedule) : i ∈ schedule := by
  induction schedule generalizing p with
  | nil => cases h
  | cons j schedule ih =>
    rcases List.mem_append.mp h with h | h
    · obtain ⟨_, _, he⟩ := List.mem_map.mp h
      cases he
      exact List.mem_cons_self
    · exact List.mem_cons_of_mem j (ih h)

/-- After every schedule the trace has grown by the history, and the history tells what has become
of the chip. -/
theorem logged_follow (p : Pool σ) (wakeUps : Nat) (schedule : List Nat) :
    p.system.Logged (p.follow wakeUps schedule).system
      ((p.history wakeUps schedule).map Prod.snd) := by
  have hrun := history_induction
    (P := fun h s (_ : List (Task σ)) => p.system.Logged s (h.map Prod.snd)) ?_
    (h := []) (System.Logged.refl p.system) wakeUps schedule
  · exact hrun
  · intro h s tasks i t t' s' events hP _ _ hevents
    rw [List.map_append, History.map_snd_of]
    exact hP.trans hevents

end Pool

end Inertial
