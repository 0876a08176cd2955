import Inertial.Shared.Call

/-!
# Tasks on a shared device

A task is a call on its way. It can be interrupted at a wait and when it has to wait for the lock
or for a wake-up, and nowhere else. `Task.step` is one transition of a task, and `Task.resume`
makes transitions until the task can be interrupted.
-/

set_option autoImplicit false

namespace Inertial

/-- What becomes of a task once it gives the lock back. -/
inductive After (σ : Type) where
  | reply (r : Reply)
  /-- The task waits for the next wake-up. -/
  | serve (sink : σ)
deriving DecidableEq, Repr

/-- Where a call stands. -/
inductive Task (σ : Type) where
  | ready (call : Call σ)
  /-- Wants the lock to do something. -/
  | queued (body : Routine (After σ))
  /-- Holds the lock. -/
  | holding (body : Routine (After σ))
  /-- Holds the lock and waits. -/
  | asleep (body : Routine (After σ))
  /-- Is a worker that wants a wake-up. -/
  | listening (sink : σ)
  | finished (r : Reply)

namespace Task

variable {σ : Type} [Sink σ]

/-- The answer of a task that has one. -/
def reply? : Task σ → Option Reply
  | .finished r => some r
  | _ => none

/-- The task once it has given the lock back. -/
def ofAfter : After σ → Task σ
  | .reply r => .finished r
  | .serve sink => .listening sink

/-- What a single sample call does with the lock. -/
def processBody (timestamp : Int64) (sink : σ) : Routine (After σ) := do
  let (sample, _) ← Driver.takeSample timestamp sink
  return .reply (.sample sample)

/-- What a worker does with the lock for each wake-up. -/
def serveBody (timestamp : Int64) (sink : σ) : Routine (After σ) := do
  let (_, sink) ← Driver.takeSample timestamp sink
  return .serve sink

/-- One transition of a task, unless it has to wait for something or is finished. -/
def step : Task σ → System → Option (Task σ × System)
  | .ready (.operation op), s => some (.queued (After.reply <$> op.body), s)
  | .ready .identity, s => some (.finished (.identity s.core.chip), s)
  | .ready (.interrupt now), s => some (.finished .ok, s.interrupt now)
  | .ready .awaitInterrupt, s => s.takeWakeUp?.map fun s => (.finished .ok, s)
  | .ready (.process sink), s => some (.queued (processBody s.stamp sink), s)
  | .ready (.serve sink), s => some (.listening sink, s)
  | .listening sink, s =>
    s.takeWakeUp?.map fun s => (.queued (serveBody s.stamp sink), s)
  | .queued body, s =>
    if s.locked then none else some (.holding body, { s with locked := true })
  | .holding body, s =>
    match body.advance s with
    | (.done after, s) => some (ofAfter after, { s with locked := false })
    | (.asleep rest, s) => some (.asleep rest, s)
  | .asleep body, s => some (.holding body, s.log .woke)
  | .finished _, _ => none

/-- Makes transitions until the task begins a wait or cannot go on, at most a given number of
them. -/
def resume : Nat → Task σ → System → Task σ × System
  | 0, t, s => (t, s)
  | n + 1, t, s =>
    match t.step s with
    | none => (t, s)
    | some (.asleep rest, s) => (.asleep rest, s)
    | some (t, s) => resume n t s

/-- How many transitions a task can make in one go. Each wake-up that a worker takes costs three,
and a call that is no worker makes fewer than four. -/
def stretch (wakeUps : Nat) : Nat :=
  3 * wakeUps + 4

end Task

end Inertial
