import Inertial.Proofs.Shared.Guarded
import Inertial.Proofs.Shared.Sequence

/-!
# How far a call goes when it is resumed

A call that is no worker and does not wait for an interrupt does one piece of work with the lock
(`Call.Work`). When it is resumed it gets as far as the lock if that is taken, and otherwise up to
the first wait of its work or to its end; a call that waits with the lock gets up to the next wait.
-/

set_option autoImplicit false

namespace Inertial

namespace Routine

variable {α β : Type}

/-- A result is made something of when the routine is done. -/
theorem advance_map (f : α → β) (x : Routine α) (s : System) :
    (f <$> x).advance s =
      match x.advance s with
      | (.done a, t) => (.done (f a), t)
      | (.asleep rest, t) => (.asleep (f <$> rest), t) := by
  induction x generalizing s with
  | done a => rfl
  | act x next ih => exact ih _ _
  | sleep d rest ih => rfl

end Routine

namespace Task

variable {σ : Type} [Sink σ]

/-- What a single sample call does with the lock, up to its answer. -/
def sampleReply (timestamp : Int64) (sink : σ) : Routine Reply := do
  let (sample, _) ← Driver.takeSample timestamp sink
  return .sample sample

/-- What a sample call does with the lock is taking a sample and answering it. -/
theorem processBody_eq (timestamp : Int64) (sink : σ) :
    processBody timestamp sink = After.reply <$> sampleReply timestamp sink := by
  unfold processBody sampleReply
  rw [map_bind]
  rfl

end Task

namespace Call

variable {σ : Type} [Sink σ]

/-- The call is no worker and does not wait for an interrupt. -/
def IsBrief : Call σ → Prop
  | .operation _ | .process _ | .interrupt _ => True
  | _ => False

/-- What a brief call does with the lock. The time of a sample is that of the newest edge when the
call was made. -/
inductive Work : Call σ → Routine Reply → Prop where
  | operation (op : Operation) : Work (.operation op) op.body
  | process (sink : σ) (timestamp : Int64) :
    Work (.process sink) (Task.sampleReply timestamp sink)

end Call

namespace Task

variable {σ : Type}

/-- The call has not had the lock yet. -/
def Awaits (c : Call σ) [Sink σ] (t : Task σ) : Prop :=
  t = .ready c ∨ ∃ x, c.Work x ∧ t = .queued (After.reply <$> x)

/-- A stretch of work with the lock: to its end, at which the lock is given back, or to a wait. -/
def proceed (x : Routine Reply) (s : System) : Task σ × System :=
  match x.advance s with
  | (.done r, t) => (.finished r, { t with locked := false })
  | (.asleep rest, t) => (.asleep (After.reply <$> rest), t)

variable [Sink σ]

/-- A task that cannot make a transition stays where it is. -/
theorem resume_of_stuck {t : Task σ} {s : System} (h : t.step s = none) (n : Nat) :
    t.resume n s = (t, s) := by
  cases n with
  | zero => rfl
  | succ n => rw [resume, h]

/-- Who has the lock goes on until a wait begins or the work is done. -/
theorem resume_holding (n : Nat) (x : Routine Reply) (s : System) :
    (Task.holding (After.reply <$> x) : Task σ).resume (n + 1) s = proceed x s := by
  rw [resume, step, Routine.advance_map, proceed]
  rcases x.advance s with ⟨r | rest, t⟩
  · exact resume_of_stuck rfl n
  · rfl

/-- Who was asleep wakes up and goes on. -/
theorem resume_asleep (n : Nat) (x : Routine Reply) (s : System) :
    (Task.asleep (After.reply <$> x) : Task σ).resume (n + 2) s = proceed x (s.log .woke) :=
  resume_holding n x (s.log .woke)

/-- Who wants the lock stays where it is or starts to work. -/
theorem resume_queued (n : Nat) (x : Routine Reply) (s : System) :
    (Task.queued (After.reply <$> x) : Task σ).resume (n + 2) s =
      if s.locked then (.queued (After.reply <$> x), s)
      else proceed x { s with locked := true } := by
  cases hs : s.locked with
  | true =>
    refine resume_of_stuck ?_ (n + 2)
    rw [step, if_pos hs]
  | false =>
    rw [resume, step, if_neg (by simp [hs])]
    exact resume_holding n x { s with locked := true }

/-- A brief call that has not had the lock yet gets as far as the lock, or up to its first wait. An
interrupt needs no lock. -/
theorem resume_awaits {c : Call σ} (hc : c.IsBrief) {t : Task σ} (ht : t.Awaits c) (wakeUps : Nat)
    (s : System) :
    (∃ now, c = .interrupt now ∧
        t.resume (stretch wakeUps) s = (.finished .ok, s.interrupt now)) ∨
      ∃ x, c.Work x ∧ t.resume (stretch wakeUps) s =
        if s.locked then (.queued (After.reply <$> x), s)
        else proceed x { s with locked := true } := by
  rcases ht with rfl | ⟨x, hx, rfl⟩
  · cases c with
    | operation op => exact Or.inr ⟨_, .operation op, resume_queued _ op.body s⟩
    | process sink =>
      refine Or.inr ⟨_, .process sink s.stamp, ?_⟩
      rw [← resume_queued (3 * wakeUps + 1), ← processBody_eq]
      rfl
    | interrupt now =>
      refine Or.inl ⟨now, rfl, ?_⟩
      change (Task.finished .ok : Task σ).resume (3 * wakeUps + 3) (s.interrupt now) = _
      exact resume_of_stuck rfl _
    | identity => exact hc.elim
    | awaitInterrupt => exact hc.elim
    | serve sink => exact hc.elim
  · exact Or.inr ⟨x, hx, resume_queued _ x s⟩

end Task

end Inertial
