import Inertial.Proofs.Driver.Composition
import Inertial.Proofs.Shared.Stretch

/-!
# How often drivers wait

Whatever its actions are answered, a routine has some bound on how often it waits
(`Routine.WaitsAtMost`). One routine after another waits as often as both, and a stretch up to a
wait uses up one. So a bound for every operation is read off the text of the drivers: none waits
more than three times (`Operation.waitsAtMost_body`), and taking a sample does not wait at all
(`Task.waitsAtMost_sampleReply`).
-/

set_option autoImplicit false

namespace Inertial

namespace Routine

variable {α β : Type} {m n : Nat}

/-- The routine waits at most a given number of times, whatever its actions are answered. -/
def WaitsAtMost : Nat → Routine α → Prop
  | _, .done _ => True
  | n, .act _ next => ∀ answer, (next answer).WaitsAtMost n
  | 0, .sleep .. => False
  | n + 1, .sleep _ rest => rest.WaitsAtMost n

/-- A bound on the waits may be raised. -/
theorem WaitsAtMost.mono {x : Routine α} (hx : x.WaitsAtMost m) (h : m ≤ n) : x.WaitsAtMost n := by
  induction x generalizing m n with
  | done a => trivial
  | act x next ih => exact fun answer => ih answer (hx answer) h
  | sleep d rest ih =>
    cases m with
    | zero => exact hx.elim
    | succ m =>
      cases n with
      | zero => omega
      | succ n => exact ih hx (Nat.le_of_succ_le_succ h)

/-- One routine after another waits as often as both. -/
theorem WaitsAtMost.bind {x : Routine α} {f : α → Routine β} (hx : x.WaitsAtMost m)
    (hf : ∀ a, (f a).WaitsAtMost n) : (x >>= f).WaitsAtMost (m + n) := by
  induction x generalizing m with
  | done a => exact (hf a).mono (Nat.le_add_left n m)
  | act x next ih => exact fun answer => ih answer (hx answer)
  | sleep d rest ih =>
    cases m with
    | zero => exact hx.elim
    | succ m =>
      rw [Nat.succ_add]
      exact ih hx

/-- What comes before a step without waits is what counts. -/
theorem WaitsAtMost.before {x : Routine α} {f : α → Routine β} (hx : x.WaitsAtMost n)
    (hf : ∀ a, (f a).WaitsAtMost 0) : (x >>= f).WaitsAtMost n :=
  hx.bind hf

/-- A routine that is done does not wait. -/
theorem waitsAtMost_pure (a : α) : (pure a : Routine α).WaitsAtMost n := by
  cases n <;> trivial

/-- A stretch that ends with a wait uses up one. -/
theorem WaitsAtMost.asleep {x rest : Routine α} (hx : x.WaitsAtMost n) {s t : System}
    (h : x.advance s = (.asleep rest, t)) : ∃ m, n = m + 1 ∧ rest.WaitsAtMost m := by
  induction x generalizing s with
  | done a => cases h
  | act x next ih => exact ih _ (hx _) h
  | sleep d after ih =>
    cases n with
    | zero => exact hx.elim
    | succ n =>
      cases h
      exact ⟨n, rfl, hx⟩

/-- What does not wait is done in one stretch. -/
theorem WaitsAtMost.advance_eq_run {x : Routine α} (hx : x.WaitsAtMost 0) (s : System) :
    x.advance s = (.done (x.run s).1, (x.run s).2) := by
  have hrun := x.run_eq_advance s
  rcases ht : x.advance s with ⟨a | rest, t⟩
  · rw [ht] at hrun
    rw [hrun]
  · obtain ⟨m, hm, _⟩ := hx.asleep ht
    cases hm

end Routine

/-- The driver waits at most a given number of times. -/
def Driver.WaitsAtMost {α : Type} (n : Nat) (x : Driver α) : Prop :=
  x.run.WaitsAtMost n

namespace Driver

variable {α β : Type} {m n : Nat}

/-! ## Steps of drivers -/

/-- The bound of a driver may be raised too. -/
theorem WaitsAtMost.mono {x : Driver α} (hx : x.WaitsAtMost m) (h : m ≤ n) : x.WaitsAtMost n :=
  Routine.WaitsAtMost.mono hx h

/-- A driver that only answers does not wait. -/
theorem waitsAtMost_pure (a : α) : WaitsAtMost n (pure a) :=
  Routine.waitsAtMost_pure _

/-- Nor does one that only fails. -/
theorem waitsAtMost_throw (e : DriverError) : WaitsAtMost n (throw e : Driver α) :=
  Routine.waitsAtMost_pure _

/-- The waits of two drivers in a row add up. -/
theorem WaitsAtMost.bind {x : Driver α} {f : α → Driver β} (hx : x.WaitsAtMost m)
    (hf : ∀ a, (f a).WaitsAtMost n) : (x >>= f).WaitsAtMost (m + n) := by
  unfold WaitsAtMost
  rw [ExceptT.run_bind]
  refine Routine.WaitsAtMost.bind hx fun r => ?_
  cases r with
  | ok a => exact hf a
  | error e => exact Routine.waitsAtMost_pure _

/-- What comes before a step without waits is what counts. -/
theorem WaitsAtMost.before {x : Driver α} {f : α → Driver β} (hx : x.WaitsAtMost n)
    (hf : ∀ a, (f a).WaitsAtMost 0) : (x >>= f).WaitsAtMost n :=
  hx.bind hf

/-- What comes after a step without waits is what counts. -/
theorem WaitsAtMost.after {x : Driver α} {f : α → Driver β} (hx : x.WaitsAtMost 0)
    (hf : ∀ a, (f a).WaitsAtMost n) : (x >>= f).WaitsAtMost n :=
  Nat.zero_add n ▸ hx.bind hf

/-- A single action is no wait. -/
theorem waitsAtMost_perform (x : Action) : WaitsAtMost 0 (perform x) :=
  fun _ => trivial

/-- Looking at the record takes no time. -/
theorem waitsAtMost_getCore : WaitsAtMost 0 getCore :=
  waitsAtMost_perform _

/-- Nor does changing it. -/
theorem waitsAtMost_modifyCore (f : Core → Core) : WaitsAtMost 0 (modifyCore f) :=
  waitsAtMost_getCore.after fun _ => waitsAtMost_perform _

/-- An operation on a register does not wait. -/
theorem waitsAtMost_register (op : RegisterOp) : WaitsAtMost 0 (register op) := by
  refine (waitsAtMost_perform _).after fun answer => ?_
  cases answer with
  | ok a => exact waitsAtMost_pure a
  | error fault => exact waitsAtMost_throw _

/-- Switching a rail does not wait; what follows may. -/
theorem waitsAtMost_switch (r : Rail) (on : Bool) : WaitsAtMost 0 (switch r on) := by
  refine (waitsAtMost_perform _).after fun ok => ?_
  cases ok with
  | true => exact waitsAtMost_modifyCore _
  | false => exact waitsAtMost_throw _

/-- A wait is one wait. -/
theorem waitsAtMost_sleep (d : Delay) : WaitsAtMost 1 (sleep d) :=
  trivial

/-! ## From steps to drivers -/

/-- The smallest steps of operations wait as often as their kind says. -/
theorem OperationStep.waitsAtMost {K : Core → Prop} {x : Driver Unit}
    (hx : OperationStep n K x) : WaitsAtMost n x := by
  cases hx with
  | tuning hx =>
    cases hx with
    | store r config => exact (waitsAtMost_register _).after fun _ => waitsAtMost_modifyCore _
    | sleep d => exact waitsAtMost_sleep d
  | setFifo stream => exact waitsAtMost_register _
  | switch on => exact waitsAtMost_switch _ _
  | note _ => exact waitsAtMost_modifyCore _

/-- A driver waits as often as it is composed to. -/
theorem Composed.waitsAtMost {K : Core → Prop} {x : Driver α}
    (hx : Composed OperationStep Answers n K x) : WaitsAtMost n x := by
  induction hx with
  | last hx =>
    cases hx with
    | pure a => exact waitsAtMost_pure a
  | look _ ih => exact waitsAtMost_getCore.after ih
  | step hx _ ih => exact hx.waitsAtMost.bind fun _ => ih
  | weaken _ hle _ ih => exact ih.mono hle

/-! ## Taking a sample -/

/-- Reading the data takes no wait. -/
theorem waitsAtMost_readData : WaitsAtMost 0 readData := by
  refine (waitsAtMost_register _).after fun status => ?_
  split
  · exact waitsAtMost_pure none
  · exact (waitsAtMost_register _).after fun raw => waitsAtMost_pure (some raw)

/-- Taking a sample is never interrupted. -/
theorem waitsAtMost_takeSample {σ : Type} [Sink σ] (time : Int64) (sink : σ) :
    (takeSample time sink).WaitsAtMost 0 := by
  have hraise : ∀ edges : List Int64,
      (edges.forM fun now => act (.raise now)).WaitsAtMost 0 := by
    intro edges
    induction edges with
    | nil => trivial
    | cons now edges ih => exact fun _ => ih
  unfold takeSample
  refine Routine.WaitsAtMost.before waitsAtMost_readData fun r => ?_
  rcases r with e | _ | raw
  · exact Routine.waitsAtMost_pure _
  · exact Routine.waitsAtMost_pure _
  · dsimp only
    split
    · exact fun _ => (hraise _).before fun _ => Routine.waitsAtMost_pure _
    · exact Routine.waitsAtMost_pure _

end Driver

/-! ## Calls -/

/-- What a sample call does with the lock is never interrupted. -/
theorem Task.waitsAtMost_sampleReply {σ : Type} [Sink σ] (time : Int64) (sink : σ) :
    (sampleReply time sink).WaitsAtMost 0 :=
  (Driver.waitsAtMost_takeSample time sink).before fun _ => Routine.waitsAtMost_pure _

/-- Nor is what a worker does for one wake-up. -/
theorem Task.waitsAtMost_serveBody {σ : Type} [Sink σ] (time : Int64) (sink : σ) :
    (serveBody time sink).WaitsAtMost 0 :=
  (Driver.waitsAtMost_takeSample time sink).before fun _ => Routine.waitsAtMost_pure _

namespace Operation

variable {α : Type} {n : Nat}

/-- Reporting a result takes no time. -/
theorem waitsAtMost_reply {x : Driver α} (hx : x.WaitsAtMost n) (f : α → Reply) :
    (reply x f).WaitsAtMost n := by
  unfold reply
  refine Routine.WaitsAtMost.before hx fun r => ?_
  cases r <;> exact Routine.waitsAtMost_pure _

/-- No operation waits more than three times. -/
theorem waitsAtMost_body (op : Operation) : op.body.WaitsAtMost 3 := by
  obtain ⟨α, x, f, hop⟩ := op.exists_reports
  rw [hop.body]
  exact waitsAtMost_reply hop.composed.waitsAtMost f

end Operation

/-- What a call does with the lock waits at most three times. -/
theorem Call.Work.waitsAtMost {σ : Type} [Sink σ] {c : Call σ} {x : Routine Reply}
    (hx : c.Work x) : x.WaitsAtMost 3 := by
  cases hx with
  | operation op => exact op.waitsAtMost_body
  | process sink timestamp =>
    exact (Task.waitsAtMost_sampleReply timestamp sink).mono (by decide)

end Inertial
