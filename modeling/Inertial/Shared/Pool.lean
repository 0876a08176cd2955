import Inertial.Shared.Task

/-!
# Pools of tasks

A pool holds the tasks that share a device. They are resumed in rounds, each unfinished task once a
round in the order of the list, until a round brings nothing new. A round brings something new if
a task finished or if the trace grew: every access of the bus and both ends of a wait are in it.
-/

set_option autoImplicit false

namespace Inertial

/-- The tasks that share a device. -/
structure Pool (σ : Type) where
  system : System
  tasks : List (Task σ)
  /-- The positions of finished tasks, in the order in which they finished. -/
  order : List Nat := []

namespace Pool

variable {σ : Type} [Sink σ]

/-- A pool in which no task has begun. -/
def ofCalls (calls : List (Call σ)) (s : System) : Pool σ where
  system := s
  tasks := calls.map .ready

/-- Resumes the task at a position, unless it is finished. -/
def resume (wakeUps : Nat) (p : Pool σ) (i : Nat) : Pool σ :=
  match p.tasks[i]? with
  | none | some (.finished _) => p
  | some t =>
    let (t, system) := t.resume (Task.stretch wakeUps) p.system
    { system
      tasks := p.tasks.set i t
      order := if t.reply?.isSome then p.order ++ [i] else p.order }

/-- Resumes tasks by position, one after the other. -/
def follow (wakeUps : Nat) (p : Pool σ) (schedule : List Nat) : Pool σ :=
  schedule.foldl (resume wakeUps) p

/-- Resumes every unfinished task once. -/
def round (wakeUps : Nat) (p : Pool σ) : Pool σ :=
  p.follow wakeUps (List.range p.tasks.length)

/-- What tells a pool from the one a round later if the round brought something new. -/
def progress (p : Pool σ) : Nat × Nat :=
  (p.system.bench.trace.length, p.order.length)

/-- Does rounds until one brings nothing new, at most a given number of them. -/
def rounds (wakeUps : Nat) : Nat → Pool σ → Pool σ
  | 0, p => p
  | n + 1, p =>
    let q := p.round wakeUps
    if q.progress = p.progress then q else q.rounds wakeUps n

/-- How many rounds can bring something new. No call waits more than three times, so a call that is
no worker is resumed with effect at most four times, and a worker needs a wake-up for each. -/
def longest (wakeUps : Nat) (p : Pool σ) : Nat :=
  4 * p.tasks.length + wakeUps + 1

/-- Does rounds until one brings nothing new, when there can be at most a given number of
wake-ups. -/
def settle (wakeUps : Nat) (p : Pool σ) : Pool σ :=
  p.rounds wakeUps (p.longest wakeUps)

/-- The answers of the tasks, with none for an unfinished one. -/
def replies (p : Pool σ) : List (Option Reply) :=
  p.tasks.map Task.reply?

end Pool

end Inertial
