import Inertial.Proofs.Driver.SerialTwin
import Inertial.Shared.Pool

/-!
# Calls on twin devices

A task on a device with the flat bus and the same task on its twin with the serial one go hand in
hand: both can make a transition or neither can, and a transition of both leaves twins
(`Task.Matches.step`). So pools of such tasks, resumed in the same order, stay twins
(`Pool.Twins.settle`), and a call that nobody interrupts has the same answer on both
(`Call.perform_twins`).
-/

set_option autoImplicit false

namespace Inertial

namespace System

/-- A wake-up is there for both or for neither. -/
theorem Twins.takeWakeUp? {s t : System} (h : s.Twins t) :
    (s.takeWakeUp? = none ∧ t.takeWakeUp? = none) ∨
      ∃ s' t', s.takeWakeUp? = some s' ∧ t.takeWakeUp? = some t' ∧ s'.Twins t' := by
  unfold System.takeWakeUp?
  rw [h.bench.inbox]
  cases s.bench.inbox.take? with
  | none => exact Or.inl ⟨rfl, rfl⟩
  | some inbox => exact Or.inr ⟨_, _, rfl, rfl, h.withInbox inbox⟩

/-- An edge comes to both. -/
theorem Twins.interrupt {s t : System} (h : s.Twins t) (now : Int64) :
    (s.interrupt now).Twins (t.interrupt now) :=
  { h with bench := h.bench.raise now }

/-- The newest edge has the same time in both. -/
theorem Twins.stamp {s t : System} (h : s.Twins t) : t.stamp = s.stamp :=
  congrArg (fun i => i.stamp.accel) h.bench.inbox

variable {σ : Type} [Sink σ]

/-- A worker that nobody interrupts takes the same samples on both. -/
theorem Twins.serve {s t : System} (h : s.Twins t) (n : Nat) (sink : σ) :
    (s.serve n sink).Twins (t.serve n sink) := by
  induction n generalizing s t sink with
  | zero => exact h
  | succ n ih =>
    rw [System.serve, System.serve]
    rcases h.takeWakeUp? with ⟨hs, ht⟩ | ⟨s', t', hs, ht, htake⟩
    · rw [hs, ht]
      exact h
    · obtain ⟨hresult, hafter⟩ := (Driver.matches_takeSample s'.stamp sink).run htake
      have hsink := congrArg Prod.snd hresult
      rw [hs, ht]
      dsimp only at hsink ⊢
      rw [htake.stamp, ← hsink]
      exact ih hafter _

end System

section

variable {σ : Type}

/-- What becomes of a task on the twin once it gives the lock back. -/
def After.overSerial : After σ → After σ
  | .reply r => .reply r.overSerial
  | .serve sink => .serve sink

/-- A task and the same task on the twin. -/
inductive Task.Matches : Task σ → Task σ → Prop where
  | ready (call : Call σ) : Matches (.ready call) (.ready call)
  | queued {x y : Routine (After σ)} (h : x.Matches (fun a b => b = a.overSerial) y) :
      Matches (.queued x) (.queued y)
  | holding {x y : Routine (After σ)} (h : x.Matches (fun a b => b = a.overSerial) y) :
      Matches (.holding x) (.holding y)
  | asleep {x y : Routine (After σ)} (h : x.Matches (fun a b => b = a.overSerial) y) :
      Matches (.asleep x) (.asleep y)
  | listening (sink : σ) : Matches (.listening sink) (.listening sink)
  | finished (r : Reply) : Matches (.finished r) (.finished r.overSerial)

end

namespace Task

variable {σ : Type}

/-- Tasks that go on in the same way match. -/
theorem matches_ofAfter (a : After σ) : (ofAfter a).Matches (ofAfter a.overSerial) := by
  cases a with
  | reply r => exact .finished r
  | serve sink => exact .listening sink

/-- A task over a serial bus has its answer just when the other has. -/
theorem Matches.reply? {t u : Task σ} (h : t.Matches u) :
    u.reply? = t.reply?.map Reply.overSerial := by
  cases h <;> rfl

/-- What an operation does with the lock matches on both buses. -/
theorem matches_operation (op : Operation) :
    (After.reply <$> op.body : Routine (After σ)).Matches (fun a b => b = a.overSerial)
      (After.reply <$> op.body) := by
  rw [← bind_pure_comp]
  refine op.matches_body.bind ?_
  rintro r _ rfl
  exact .done rfl

variable [Sink σ]

/-- So does what a sample call does. -/
theorem matches_processBody (time : Int64) (sink : σ) :
    (processBody time sink).Matches (fun a b => b = a.overSerial) (processBody time sink) := by
  unfold processBody
  refine (Driver.matches_takeSample time sink).bind ?_
  rintro ⟨sample, _⟩ _ rfl
  exact .done rfl

/-- So does what a worker does for a wake-up. -/
theorem matches_serveBody (time : Int64) (sink : σ) :
    (serveBody time sink).Matches (fun a b => b = a.overSerial) (serveBody time sink) := by
  unfold serveBody
  refine (Driver.matches_takeSample time sink).bind ?_
  rintro ⟨_, sink'⟩ _ rfl
  exact .done rfl

/-- A task and its system, and the same on the twin. -/
def StepTwins (p q : Task σ × System) : Prop :=
  p.1.Matches q.1 ∧ p.2.Twins q.2

variable {t u : Task σ} {s s' : System}

/-- A task that can make a transition can make it on the twin, and no other. -/
theorem Matches.step (h : t.Matches u) (hs : s.Twins s') :
    Option.Rel StepTwins (t.step s) (u.step s') := by
  cases h with
  | ready call =>
    cases call with
    | operation op => exact .some ⟨.queued (matches_operation op), hs⟩
    | identity =>
      refine .some ⟨?_, hs⟩
      rw [hs.core]
      exact .finished (.identity s.core.chip)
    | interrupt now => exact .some ⟨.finished .ok, hs.interrupt now⟩
    | awaitInterrupt =>
      rw [Task.step, Task.step]
      rcases hs.takeWakeUp? with ⟨hnone, hnone'⟩ | ⟨s₁, s₂, htake, htake', hafter⟩
      · rw [hnone, hnone']
        exact .none
      · rw [htake, htake']
        exact .some ⟨.finished .ok, hafter⟩
    | process sink =>
      refine .some ⟨?_, hs⟩
      rw [hs.stamp]
      exact .queued (matches_processBody s.stamp sink)
    | serve sink => exact .some ⟨.listening sink, hs⟩
  | queued h =>
    rw [Task.step, Task.step, hs.locked]
    split
    · exact .none
    · exact .some ⟨.holding h, hs.withLocked true⟩
  | @holding x y h =>
    obtain ⟨hhalt, hafter⟩ := h.advance hs
    rw [Task.step, Task.step]
    -- Both halt in the same way, so the two mixed cases are void.
    rcases hx : x.advance s with ⟨a | rest, s₁⟩ <;>
      rcases hy : y.advance s' with ⟨b | rest', s₂⟩ <;>
      rw [hx, hy] at hhalt hafter <;> cases hhalt
    · rename_i hb
      rw [hb]
      exact .some ⟨matches_ofAfter a, hafter.withLocked false⟩
    · rename_i hrest
      exact .some ⟨.asleep hrest, hafter⟩
  | asleep h => exact .some ⟨.holding h, hs.log rfl⟩
  | listening sink =>
    rw [Task.step, Task.step]
    rcases hs.takeWakeUp? with ⟨hnone, hnone'⟩ | ⟨s₁, s₂, htake, htake', hafter⟩
    · rw [hnone, hnone']
      exact .none
    · rw [htake, htake']
      refine .some ⟨?_, hafter⟩
      dsimp only
      rw [hafter.stamp]
      exact .queued (matches_serveBody s₁.stamp sink)
  | finished r => exact .none

/-- A task that is resumed gets as far on the twin. -/
theorem Matches.resume (h : t.Matches u) (hs : s.Twins s') (n : Nat) :
    StepTwins (t.resume n s) (u.resume n s') := by
  induction n generalizing t u s s' with
  | zero => exact ⟨h, hs⟩
  | succ n ih =>
    have hstep := h.step hs
    rw [Task.resume, Task.resume]
    rcases ht : t.step s with _ | ⟨t', s₁⟩ <;> rcases hu : u.step s' with _ | ⟨u', s₂⟩ <;>
      rw [ht, hu] at hstep <;> cases hstep
    · exact ⟨h, hs⟩
    · rename_i hstep
      obtain ⟨htask, hafter⟩ := hstep
      cases htask with
      | asleep hrest => exact ⟨.asleep hrest, hafter⟩
      | ready call => exact ih (.ready call) hafter
      | queued hx => exact ih (.queued hx) hafter
      | holding hx => exact ih (.holding hx) hafter
      | listening sink => exact ih (.listening sink) hafter
      | finished r => exact ih (.finished r) hafter

end Task

/-! ## Pools -/

/-- Two pools with the same tasks, of which the second has the serial bus. -/
structure Pool.Twins {σ : Type} (p q : Pool σ) : Prop where
  system : p.system.Twins q.system
  length : q.tasks.length = p.tasks.length
  tasks : ∀ i : Nat, Option.Rel Task.Matches p.tasks[i]? q.tasks[i]?
  order : q.order = p.order

namespace Pool.Twins

section

variable {σ : Type} {p q : Pool σ}

/-- The same calls make twin pools. -/
theorem ofCalls {s t : System} (h : s.Twins t) (calls : List (Call σ)) :
    (Pool.ofCalls calls s).Twins (Pool.ofCalls calls t) where
  system := h
  length := rfl
  tasks := by
    intro i
    simp only [Pool.ofCalls, List.getElem?_map]
    cases calls[i]? with
    | none => exact .none
    | some call => exact .some (.ready call)
  order := rfl

/-- Twin pools have come equally far. -/
theorem progress (h : p.Twins q) : q.progress = p.progress := by
  simp [Pool.progress, h.order, h.system.bench.trace]

/-- The answers are the same, up to what a fault says. -/
theorem replies (h : p.Twins q) : q.replies = p.replies.map (Option.map Reply.overSerial) := by
  apply List.ext_getElem?
  intro i
  have hi := h.tasks i
  simp only [Pool.replies, List.getElem?_map]
  rcases hp : p.tasks[i]? with _ | t <;> rcases hq : q.tasks[i]? with _ | u <;>
    rw [hp, hq] at hi <;> cases hi
  · rfl
  · rename_i htask
    exact congrArg some htask.reply?

/-- A task may be replaced on both. -/
theorem set (h : p.Twins q) {t u : Task σ} (htask : t.Matches u) (i j : Nat) :
    Option.Rel Task.Matches (p.tasks.set i t)[j]? (q.tasks.set i u)[j]? := by
  rw [List.getElem?_set, List.getElem?_set, h.length]
  split
  · split
    · exact .some htask
    · exact .none
  · exact h.tasks j

end

variable {σ : Type} [Sink σ] {p q : Pool σ}

/-- Twin pools stay twins if the same task is resumed. -/
theorem resume (h : p.Twins q) (wakeUps i : Nat) :
    (p.resume wakeUps i).Twins (q.resume wakeUps i) := by
  -- Whoever is not finished is resumed on both.
  have hnext : ∀ t u : Task σ, t.Matches u → Pool.Twins
      { system := (t.resume (Task.stretch wakeUps) p.system).2
        tasks := p.tasks.set i (t.resume (Task.stretch wakeUps) p.system).1
        order := if (t.resume (Task.stretch wakeUps) p.system).1.reply?.isSome then p.order ++ [i]
          else p.order }
      { system := (u.resume (Task.stretch wakeUps) q.system).2
        tasks := q.tasks.set i (u.resume (Task.stretch wakeUps) q.system).1
        order := if (u.resume (Task.stretch wakeUps) q.system).1.reply?.isSome then q.order ++ [i]
          else q.order } := by
    intro t u htask
    obtain ⟨hresumed, hsystem⟩ := htask.resume h.system (Task.stretch wakeUps)
    refine ⟨hsystem, ?_, h.set hresumed i, ?_⟩
    · rw [List.length_set, List.length_set, h.length]
    · simp [hresumed.reply?, h.order]
  have hi := h.tasks i
  rw [Pool.resume, Pool.resume]
  rcases hp : p.tasks[i]? with _ | t <;> rcases hq : q.tasks[i]? with _ | u <;>
    rw [hp, hq] at hi <;> cases hi
  · exact h
  · rename_i htask
    cases htask with
    | finished r => exact h
    | ready call => exact hnext _ _ (.ready call)
    | queued hx => exact hnext _ _ (.queued hx)
    | holding hx => exact hnext _ _ (.holding hx)
    | asleep hx => exact hnext _ _ (.asleep hx)
    | listening sink => exact hnext _ _ (.listening sink)

/-- They stay twins along the same schedule. -/
theorem follow (h : p.Twins q) (wakeUps : Nat) (schedule : List Nat) :
    (p.follow wakeUps schedule).Twins (q.follow wakeUps schedule) := by
  induction schedule generalizing p q with
  | nil => exact h
  | cons i schedule ih => exact ih (h.resume wakeUps i)

/-- They stay twins over a round. -/
theorem round (h : p.Twins q) (wakeUps : Nat) : (p.round wakeUps).Twins (q.round wakeUps) := by
  rw [Pool.round, Pool.round, h.length]
  exact h.follow wakeUps _

/-- They stay twins over any number of rounds. -/
theorem rounds (h : p.Twins q) (wakeUps n : Nat) :
    (p.rounds wakeUps n).Twins (q.rounds wakeUps n) := by
  induction n generalizing p q with
  | zero => exact h
  | succ n ih =>
    have hround := h.round wakeUps
    rw [Pool.rounds, Pool.rounds, hround.progress, h.progress]
    split
    · exact hround
    · exact ih hround

/-- Pools of the same calls settle in the same way. -/
theorem settle (h : p.Twins q) (wakeUps : Nat) : (p.settle wakeUps).Twins (q.settle wakeUps) := by
  rw [Pool.settle, Pool.settle, Pool.longest, Pool.longest, h.length]
  exact h.rounds wakeUps _

end Pool.Twins

/-- A call that nobody interrupts has the same answer on both, up to what a fault says. -/
theorem Call.perform_twins {σ : Type} [Sink σ] {s t : System} (h : s.Twins t) (c : Call σ)
    (wakeUps : Nat) :
    (c.perform wakeUps t).1 = (c.perform wakeUps s).1.map Reply.overSerial ∧
      (c.perform wakeUps s).2.Twins (c.perform wakeUps t).2 := by
  cases c with
  | operation op =>
    obtain ⟨hreply, hafter⟩ := op.matches_body.run h
    exact ⟨congrArg some hreply, hafter⟩
  | identity => exact ⟨congrArg (fun core : Core => some (Reply.identity core.chip)) h.core, h⟩
  | interrupt now => exact ⟨rfl, h.interrupt now⟩
  | awaitInterrupt =>
    rw [Call.perform, Call.perform]
    rcases h.takeWakeUp? with ⟨hs, ht⟩ | ⟨s', t', hs, ht, hafter⟩
    · rw [hs, ht]
      exact ⟨rfl, h⟩
    · rw [hs, ht]
      exact ⟨rfl, hafter⟩
  | process sink =>
    obtain ⟨hresult, hafter⟩ := (Driver.matches_takeSample s.stamp sink).run h
    have hsample := congrArg (fun r => some (Reply.sample r.1)) hresult
    rw [Call.perform, Call.perform, h.stamp]
    exact ⟨hsample.symm, hafter⟩
  | serve sink => exact ⟨rfl, h.serve wakeUps sink⟩

end Inertial
