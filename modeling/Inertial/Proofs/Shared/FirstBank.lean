import Inertial.Proofs.Shared.Guarded
import Inertial.Proofs.Shared.SerialTwin

/-!
# Tasks stay in the first bank

Every call accesses registers of the first bank only. That can be told from the text of what it does
with the lock, since this matches what it does over a serial bus (`Routine.Matches`). So while tasks
share a device that is in its first bank, it stays there, whatever the registers hold and whatever
fails (`Pool.inFirstBank_follow`).
-/

set_option autoImplicit false

namespace Inertial

/-- An operation of the first bank leaves it selected. -/
theorem Bench.InFirstBank.perform {b : Bench} (hb : b.InFirstBank) {op : RegisterOp}
    (hop : op.IsPlain) : (op.perform.exec b).2.InFirstBank := by
  obtain ⟨events, h⟩ := op.refines_of_inStep hb.inStep hop.isRegular
  have hfirst : b.AtFirstBank := hb.imp_right And.left
  exact inFirstBank_of_inStep h.inStep
    (op.stays_perform Bench.isSteady_atFirstBank hop.bank b hfirst)

/-- So does every action that is plain. -/
theorem Action.inFirstBank_perform {x : Action} (hx : x.IsPlain) {s : System}
    (hs : s.bench.InFirstBank) : (x.perform s).2.bench.InFirstBank := by
  cases x with
  | register op => exact hs.perform hx
  | _ => exact hs

namespace Routine.Matches

variable {α β : Type} {R : α → β → Prop} {x : Routine α} {y : Routine β} {s : System}

/-- A routine that matches stays in its first bank up to its next wait, and what is left matches. -/
theorem inFirstBank_advance (h : x.Matches R y) (hs : s.bench.InFirstBank) :
    (x.advance s).2.bench.InFirstBank ∧
      ∀ rest, (x.advance s).1 = .asleep rest → ∃ rest' : Routine β, rest.Matches R rest' := by
  induction h generalizing s with
  | done hR => exact ⟨hs, nofun⟩
  | @act x next next' hx _ ih => exact ih (x.perform s).1 (x.inFirstBank_perform hx hs)
  | @sleep d rest rest' hrest _ =>
    refine ⟨hs, fun _ heq => ?_⟩
    cases heq
    exact ⟨rest', hrest⟩

end Routine.Matches

variable {σ : Type} [Sink σ]

/-- A transition of a task keeps the first bank, and the task goes on to match. -/
theorem Task.Matches.inFirstBank_step {t t' u : Task σ} {s s' : System} (h : t.Matches u)
    (hs : s.bench.InFirstBank) (hstep : t.step s = some (t', s')) :
    s'.bench.InFirstBank ∧ ∃ u', t'.Matches u' := by
  cases h with
  | ready call =>
    cases call with
    | operation op =>
      cases hstep
      exact ⟨hs, _, .queued (matches_operation op)⟩
    | identity =>
      cases hstep
      exact ⟨hs, _, .finished _⟩
    | interrupt now =>
      cases hstep
      exact ⟨hs, _, .finished _⟩
    | awaitInterrupt =>
      obtain ⟨v, htake, heq⟩ := Option.map_eq_some_iff.mp hstep
      cases heq
      obtain ⟨i, rfl⟩ := System.takeWakeUp?_eq_some htake
      exact ⟨hs, _, .finished _⟩
    | process sink =>
      cases hstep
      exact ⟨hs, _, .queued (matches_processBody _ sink)⟩
    | serve sink =>
      cases hstep
      exact ⟨hs, _, .listening sink⟩
  | listening sink =>
    obtain ⟨v, htake, heq⟩ := Option.map_eq_some_iff.mp hstep
    cases heq
    obtain ⟨i, rfl⟩ := System.takeWakeUp?_eq_some htake
    exact ⟨hs, _, .queued (matches_serveBody _ sink)⟩
  | queued h =>
    rw [Task.step] at hstep
    split at hstep
    · cases hstep
    · cases hstep
      exact ⟨hs, _, .holding h⟩
  | @holding x y h =>
    obtain ⟨hafter, hrest⟩ := h.inFirstBank_advance hs
    rw [Task.step] at hstep
    rcases hx : x.advance s with ⟨a | rest, v⟩ <;> rw [hx] at hstep hafter hrest <;> cases hstep
    · exact ⟨hafter, _, matches_ofAfter a⟩
    · obtain ⟨rest', hmatches⟩ := hrest rest rfl
      exact ⟨hafter, _, .asleep hmatches⟩
  | asleep h =>
    cases hstep
    exact ⟨hs, _, .holding h⟩
  | finished r => cases hstep

namespace Pool

/-- The device is in its first bank, and no task is going to leave it. -/
structure StaysInFirstBank (s : System) (tasks : List (Task σ)) : Prop where
  inFirstBank : s.bench.InFirstBank
  matching : ∀ (i : Nat) (t : Task σ), tasks[i]? = some t → ∃ u, t.Matches u

/-- One transition of one task. -/
theorem StaysInFirstBank.step {s s' : System} {tasks : List (Task σ)} {i : Nat} {t t' : Task σ}
    (h : StaysInFirstBank s tasks) (hi : tasks[i]? = some t) (hstep : t.step s = some (t', s')) :
    StaysInFirstBank s' (tasks.set i t') := by
  obtain ⟨u, hu⟩ := h.matching i t hi
  obtain ⟨hs', hu'⟩ := hu.inFirstBank_step h.inFirstBank hstep
  refine ⟨hs', fun j v hj => ?_⟩
  rcases getElem?_set_cases hj with ⟨rfl, rfl⟩ | ⟨_, hj⟩
  · exact hu'
  · exact h.matching j v hj

/-- Whatever tasks do, the device stays in its first bank. -/
theorem staysInFirstBank_follow {s : System} (hs : s.bench.InFirstBank) (calls : List (Call σ))
    (wakeUps : Nat) (schedule : List Nat) :
    StaysInFirstBank ((ofCalls calls s).follow wakeUps schedule).system
      ((ofCalls calls s).follow wakeUps schedule).tasks := by
  refine follow_induction (P := StaysInFirstBank) ?_ ⟨hs, ?_⟩ wakeUps schedule
  · intro s tasks i t t' s' h hi hstep
    exact h.step hi hstep
  · intro i t hi
    obtain ⟨call, _, rfl⟩ := List.mem_map.mp (List.mem_of_getElem? hi)
    exact ⟨_, .ready call⟩

/-- So the first bank is there after every schedule. -/
theorem inFirstBank_follow {s : System} (hs : s.bench.InFirstBank) (calls : List (Call σ))
    (wakeUps : Nat) (schedule : List Nat) :
    ((ofCalls calls s).follow wakeUps schedule).system.bench.InFirstBank :=
  (staysInFirstBank_follow hs calls wakeUps schedule).inFirstBank

end Pool

end Inertial
