import Inertial.Proofs.Driver.SampleContent
import Inertial.Proofs.Driver.WaitCount
import Inertial.Proofs.Shared.Failures

/-!
# Edges from inside a sink

A sink may have the interrupt line fire while it takes a sample, that is while the worker has the
lock. The worker took its wake-up before, so the edge leaves another one, and the time of that edge
is the one that the worker looks up next (`System.resume_listening`). So a worker whose sink causes
one edge with each of its samples takes one sample for each of them, in order, and it listens again
when no edge is left (`Task.drains_of_raises`).

The main statement is `Task.serves_edges_of_sink`.
-/

set_option autoImplicit false

namespace Inertial

/-! ## Sinks -/

namespace Sink

variable {σ : Type} [Sink σ]

/-- What a sink makes of a sample: it takes it if it wants samples. -/
def offer (x : Sample) (sink : σ) : List Int64 × σ :=
  if isEnabled sink then push x sink else ([], sink)

/-- A sink that wants samples is pushed the one it is offered. -/
theorem offer_of_enabled {sink : σ} (h : isEnabled sink = true) (x : Sample) :
    offer x sink = push x sink :=
  if_pos h

/-- A sink that wants no samples stays as it is and causes no edge. -/
theorem offer_of_disabled {sink : σ} (h : isEnabled sink = false) (x : Sample) :
    offer x sink = ([], sink) :=
  if_neg (by simp [h])

/-- The sink once it has taken samples. -/
def after (xs : List Sample) (sink : σ) : σ :=
  xs.foldl (fun sink x => (push x sink).2) sink

/-- The sink wants samples and causes the given edges, one with each of the first samples and none
with the one after them. -/
def Raises : List Int64 → σ → Prop
  | [], sink => isEnabled sink = true ∧ ∀ x, (push x sink).1 = []
  | now :: later, sink =>
    isEnabled sink = true ∧ ∀ x, (push x sink).1 = [now] ∧ Raises later (push x sink).2

end Sink

/-! ## One sample -/

namespace Bench

/-- From now on every access succeeds, and no edge comes before one. -/
structure IsCalm (b : Bench) : Prop where
  succeeds : ∀ (k : Nat) (x : Access), b.accesses ≤ k → b.plan.failsAccess k x = false
  quiet : ∀ k : Nat, b.accesses ≤ k → b.plan.edges k = []

/-- The bench after an access that succeeded and before which no edge came. -/
def succeed (x : Access) (b : Bench) : Bench :=
  { b.log (.access x true) with accesses := b.accesses + 1 }

variable {b : Bench}

/-- On a calm bench an access succeeds without an edge before it. -/
theorem IsCalm.attempt (h : b.IsCalm) (x : Access) : b.attempt x = (true, b.succeed x) := by
  unfold Bench.attempt deliver
  rw [h.succeeds _ x (Nat.le_refl _), h.quiet _ (Nat.le_refl _)]
  rfl

/-- A calm bench is calm at every later access. -/
theorem IsCalm.later {c : Bench} (h : b.IsCalm) (hplan : c.plan = b.plan)
    (haccesses : b.accesses ≤ c.accesses) : c.IsCalm where
  succeeds := by
    intro k x hk
    rw [hplan]
    exact h.succeeds k x (Nat.le_trans haccesses hk)
  quiet := by
    intro k hk
    rw [hplan]
    exact h.quiet k (Nat.le_trans haccesses hk)

/-- After one access it still is. -/
theorem IsCalm.succeed (h : b.IsCalm) (x : Access) : (b.succeed x).IsCalm :=
  h.later rfl (Nat.le_succ _)

end Bench

/-- The lock is free, and the chip has new data that nothing keeps from being read. -/
structure System.IsServing (s : System) : Prop where
  free : s.locked = false
  inFirstBank : s.bench.InFirstBank
  isCalm : s.bench.IsCalm
  isReady : StatusRegister.dataReady.get (s.bench.chip.memory Register.intStatus) ≠ 0

/-- The system after a sample was taken at a time and edges came. -/
def System.afterSample (wanted : Bool) (time : Int64) (edges : List Int64) (s : System) : System :=
  { s with
    bench := { s.bench with
      accesses := s.bench.accesses + 2
      inbox := s.bench.inbox.raiseAll edges
      trace := s.bench.trace ++
        s.bench.bus.sampleLog wanted (.ofMemory s.bench.chip.memory time) } }

variable {σ : Type} [Sink σ]

/-- If nothing fails meanwhile, a sample that is taken from new data is what the registers hold. The
sink gets it if it wants it, and its edges come after that. -/
theorem Driver.run_takeSample_of_isCalm {s : System} (hfirst : s.bench.InFirstBank)
    (hcalm : s.bench.IsCalm)
    (hready : StatusRegister.dataReady.get (s.bench.chip.memory Register.intStatus) ≠ 0)
    (time : Int64) (sink : σ) :
    let x := Sample.ofMemory s.bench.chip.memory time
    (takeSample time sink).run s =
      ((some x, (Sink.offer x sink).2),
        s.afterSample (Sink.isEnabled sink) time (Sink.offer x sink).1) := by
  intro x
  have hexec := exec_readData_eq hfirst
  dsimp only at hexec
  rw [hcalm.attempt] at hexec
  dsimp only at hexec
  rw [if_neg hready, (hcalm.succeed _).attempt] at hexec
  rw [run_takeSample_some hexec]
  unfold Sink.offer System.afterSample Bus.sampleLog
  cases Sink.isEnabled sink <;>
    simp [System.withInbox, System.log, Bench.succeed, Bench.log, x, Sample.ofMemory]

/-! ## One turn of a worker -/

/-- The system once a worker has taken the wake-up. -/
def System.heard (s : System) : System :=
  s.withInbox { s.bench.inbox with signalled := false }

/-- The system after a worker took the wake-up and a sample, and gave the lock back. -/
def System.afterTurn (sink : σ) (s : System) : System :=
  s.heard.afterSample (Sink.isEnabled sink) s.stamp
    (Sink.offer (.ofMemory s.bench.chip.memory s.stamp) sink).1

namespace System

variable {s : System}

/-- A wake-up that is there is taken. -/
theorem takeWakeUp?_of_signalled (h : s.bench.inbox.signalled = true) :
    s.takeWakeUp? = some s.heard := by
  rw [takeWakeUp?, Inbox.take?, if_pos h]
  rfl

/-- Where none is there none is taken. -/
theorem takeWakeUp?_of_clear (h : s.bench.inbox.signalled = false) : s.takeWakeUp? = none := by
  rw [takeWakeUp?, Inbox.take?, if_neg (by simp [h])]
  rfl

/-- The edges of the sink come after the wake-up was taken, so they leave another one. -/
theorem inbox_afterTurn (s : System) (sink : σ) :
    (s.afterTurn sink).bench.inbox =
      Inbox.raiseAll (Sink.offer (.ofMemory s.bench.chip.memory s.stamp) sink).1
        { s.bench.inbox with signalled := false } :=
  rfl

/-- A turn changes neither the record nor a register. -/
theorem idles_afterTurn (s : System) (sink : σ) :
    Driver.Idles s (s.afterTurn sink)
      (s.bench.bus.sampleLog (Sink.isEnabled sink) (.ofMemory s.bench.chip.memory s.stamp)) where
  trace := rfl
  chip := rfl
  bus := rfl
  core := rfl

/-- After a turn the device can serve the next. -/
theorem IsServing.afterTurn (h : s.IsServing) (sink : σ) : (s.afterTurn sink).IsServing where
  free := h.free
  inFirstBank := h.inFirstBank
  isCalm := h.isCalm.later rfl (Nat.le_add_right _ 2)
  isReady := h.isReady

/-- Once it has taken the wake-up, the worker takes a sample, with or without the lock. -/
theorem IsServing.run_takeSample (h : s.IsServing) (sink : σ) (locked : Bool) :
    let x := Sample.ofMemory s.bench.chip.memory s.stamp
    (Driver.takeSample s.stamp sink).run { s.heard with locked } =
      ((some x, (Sink.offer x sink).2), { s.afterTurn sink with locked }) := by
  have hcalm : s.heard.bench.IsCalm := h.isCalm.later rfl (Nat.le_refl _)
  exact Driver.run_takeSample_of_isCalm (s := { s.heard with locked }) h.inFirstBank hcalm
    h.isReady s.stamp sink

variable (hs : s.IsServing) (hsignal : s.bench.inbox.signalled = true)
include hs hsignal

/-- A worker that finds a wake-up takes one sample and listens again. -/
theorem resume_listening (sink : σ) (n : Nat) :
    (Task.listening sink).resume (n + 3) s =
      (Task.listening (Sink.offer (.ofMemory s.bench.chip.memory s.stamp) sink).2).resume n
        (s.afterTurn sink) := by
  let body := Task.serveBody s.stamp sink
  let busy : System := { s.heard with locked := true }
  have hhear : (Task.listening sink).step s = some (.queued body, s.heard) := by
    rw [Task.step, takeWakeUp?_of_signalled hsignal]
    rfl
  have hlock : (Task.queued body).step s.heard = some (.holding body, busy) := by
    rw [Task.step, show s.heard.locked = false from hs.free]
    rfl
  have hwork : (Task.holding body).step busy =
      some (.listening (Sink.offer (.ofMemory s.bench.chip.memory s.stamp) sink).2,
        s.afterTurn sink) := by
    have hfree : { s.afterTurn sink with locked := false } = s.afterTurn sink := by
      rw [← (hs.afterTurn sink).free]
    rw [Task.step, (Task.waitsAtMost_serveBody s.stamp sink).advance_eq_run, Task.serveBody,
      Routine.run_bind, hs.run_takeSample sink true]
    exact congrArg (fun t => some (Task.listening _, t)) hfree
  rw [Task.resume, hhear]
  dsimp only
  rw [Task.resume, hlock]
  dsimp only
  rw [Task.resume, hwork]

/-- So it does if nobody else uses the device. -/
theorem serve_succ (sink : σ) (n : Nat) :
    s.serve (n + 1) sink =
      (s.afterTurn sink).serve n (Sink.offer (.ofMemory s.bench.chip.memory s.stamp) sink).2 := by
  have hsample : (Driver.takeSample s.heard.stamp sink).run s.heard = _ :=
    hs.run_takeSample sink s.locked
  rw [serve, takeWakeUp?_of_signalled hsignal]
  dsimp only
  rw [hsample]
  rfl

end System

/-! ## Until no wake-up is left -/

namespace Task

/-- From `s` a worker with one sink serves wake-ups until none is left. Then it waits for the next
one with another sink, the lock is free, the system is `t`, and the given events are all that
happened. -/
structure Drains (wakeUps : Nat) (sink : σ) (s : System) (sink' : σ) (t : System)
    (events : List Event) : Prop where
  resume : (Task.ready (.serve sink)).resume (stretch wakeUps) s = (.listening sink', t)
  perform : (Call.serve sink).perform wakeUps s = (none, t)
  blocks : (Task.listening sink').step t = none
  clear : t.bench.inbox.signalled = false
  free : t.locked = false
  idles : Driver.Idles s t events

/-- A worker that finds no wake-up does nothing. -/
theorem drains_nil {s : System} (hfree : s.locked = false)
    (hclear : s.bench.inbox.signalled = false) (sink : σ) (wakeUps : Nat) :
    Drains wakeUps sink s sink s [] := by
  have htake := System.takeWakeUp?_of_clear hclear
  have hblocks : (Task.listening sink).step s = none := by
    rw [step, htake]
    rfl
  refine ⟨?_, ?_, hblocks, hclear, hfree, .refl s⟩
  · change (Task.listening sink).resume (3 * wakeUps + 3) s = _
    exact resume_of_stuck hblocks _
  · cases wakeUps with
    | zero => rfl
    | succ n => simp [Call.perform, System.serve, htake]

/-- A worker that finds a wake-up takes one sample before it goes on. -/
theorem Drains.cons {s t : System} {sink sink' : σ} {wakeUps : Nat} {events : List Event}
    (hs : s.IsServing) (hsignal : s.bench.inbox.signalled = true)
    (h : Drains wakeUps (Sink.offer (.ofMemory s.bench.chip.memory s.stamp) sink).2
      (s.afterTurn sink) sink' t events) :
    Drains (wakeUps + 1) sink s sink' t
      (s.bench.bus.sampleLog (Sink.isEnabled sink) (.ofMemory s.bench.chip.memory s.stamp) ++
        events) where
  resume := (System.resume_listening hs hsignal sink (3 * wakeUps + 3)).trans h.resume
  perform := by
    rw [← h.perform, Call.perform, System.serve_succ hs hsignal]
    rfl
  blocks := h.blocks
  clear := h.clear
  free := h.free
  idles := (s.idles_afterTurn sink).trans h.idles

/-- A worker whose sink causes one edge with each of its first samples takes a sample for each of
them. -/
theorem drains_of_raises {edges : List Int64} {s : System} (hs : s.IsServing)
    (hsignal : s.bench.inbox.signalled = true) {sink : σ} (hsink : Sink.Raises edges sink)
    {wakeUps : Nat} (hlt : edges.length < wakeUps) :
    let times := s.stamp :: edges
    let sample := Sample.ofMemory s.bench.chip.memory
    ∃ t, Drains wakeUps sink s (Sink.after (times.map sample) sink) t
      (times.flatMap fun time => s.bench.bus.sampleLog true (sample time)) := by
  intro times sample
  obtain ⟨n, rfl⟩ := Nat.exists_eq_add_one_of_ne_zero (Nat.ne_zero_of_lt hlt)
  induction edges generalizing s sink n with
  | nil =>
    obtain ⟨henabled, hquiet⟩ := hsink
    have hclear : (s.afterTurn sink).bench.inbox.signalled = false := by
      rw [s.inbox_afterTurn, Sink.offer_of_enabled henabled, hquiet]
      rfl
    have h := Drains.cons hs hsignal (drains_nil (hs.afterTurn sink).free hclear _ n)
    rw [henabled, Sink.offer_of_enabled henabled] at h
    exact ⟨_, h⟩
  | cons now later ih =>
    obtain ⟨henabled, hrest⟩ := hsink
    obtain ⟨hedge, hsink'⟩ := hrest (sample s.stamp)
    have hoffer := Sink.offer_of_enabled henabled (sample s.stamp)
    -- The edge comes after the wake-up was taken, so it leaves another one with its own time.
    have hinbox : (s.afterTurn sink).bench.inbox = ⟨⟨now, now⟩, true⟩ := by
      rw [s.inbox_afterTurn, hoffer, hedge]
      rfl
    have hstamp : (s.afterTurn sink).stamp = now := congrArg (·.stamp.accel) hinbox
    have hlater : later.length < n := Nat.lt_of_succ_lt_succ hlt
    obtain ⟨k, rfl⟩ := Nat.exists_eq_add_one_of_ne_zero (Nat.ne_zero_of_lt hlater)
    obtain ⟨t, ht⟩ := ih (hs.afterTurn sink) (congrArg (·.signalled) hinbox) hsink' k hlater
    rw [hstamp, ← hoffer] at ht
    have h := Drains.cons hs hsignal ht
    rw [henabled, hoffer] at h
    exact ⟨t, h⟩

/-- A worker whose sink wants no samples reads one and listens again. -/
theorem drains_of_disabled {s : System} (hs : s.IsServing)
    (hsignal : s.bench.inbox.signalled = true) {sink : σ} (hsink : Sink.isEnabled sink = false)
    {wakeUps : Nat} (hpos : 0 < wakeUps) :
    ∃ t, Drains wakeUps sink s sink t
      (s.bench.bus.sampleLog false (.ofMemory s.bench.chip.memory s.stamp)) := by
  obtain ⟨n, rfl⟩ := Nat.exists_eq_add_one_of_ne_zero (Nat.ne_zero_of_lt hpos)
  have hclear : (s.afterTurn sink).bench.inbox.signalled = false := by
    rw [s.inbox_afterTurn, Sink.offer_of_disabled hsink]
    rfl
  have h := Drains.cons hs hsignal (drains_nil (hs.afterTurn sink).free hclear _ n)
  rw [List.append_nil, hsink, Sink.offer_of_disabled hsink] at h
  exact ⟨_, h⟩

/-- A worker starts wherever a device can be found with the lock free, while the registers announce
new data and nothing but its sink interferes.

If a wake-up is there and the sink causes one edge with each of its first samples, the worker takes
one sample for the wake-up and one for each edge, with their times in order, and it reads the status
and the data once for each. If the sink wants no samples, the data is read once and nothing is
pushed. Without a wake-up nothing is accessed. In the end the worker waits for a wake-up. All
samples hold what the data registers stand for. -/
theorem serves_edges_of_sink {s : System} (hs : s.IsReachable) (hfree : s.locked = false)
    (m : Memory) (hready : StatusRegister.dataReady.get (m Register.intStatus) ≠ 0) (plan : Plan)
    (hcalm : (s.withPlan plan).bench.IsCalm) (sink : σ) (wakeUps : Nat) :
    let start := (s.withMemory m).withPlan plan
    let sample := Sample.ofMemory m
    (s.bench.inbox.signalled = true →
      (∀ edges, Sink.Raises edges sink → edges.length < wakeUps →
        let times := s.stamp :: edges
        ∃ t, Drains wakeUps sink start (Sink.after (times.map sample) sink) t
          (times.flatMap fun time => s.bench.bus.sampleLog true (sample time))) ∧
      (Sink.isEnabled sink = false → 0 < wakeUps →
        ∃ t, Drains wakeUps sink start sink t (s.bench.bus.sampleLog false (sample s.stamp)))) ∧
    (s.bench.inbox.signalled = false → Drains wakeUps sink start sink start []) ∧
    ∀ time, (sample time).Shows m ∧ (sample time).timestamp = time := by
  intro start sample
  have hserving : start.IsServing :=
    ⟨hfree, hs.inFirstBank, hcalm.later rfl (Nat.le_refl _), hready⟩
  refine ⟨fun hsignal => ⟨?_, ?_⟩, ?_, fun time => ⟨Sample.shows_ofMemory m time, rfl⟩⟩
  · intro edges hsink hlt
    exact drains_of_raises hserving hsignal hsink hlt
  · intro hdisabled hpos
    exact drains_of_disabled hserving hsignal hdisabled hpos
  · intro hclear
    exact drains_nil hserving.free hclear sink wakeUps

/-- The line fires at 7 and, while the worker pushes its first two samples, at 9 and at 8. The
worker takes three samples, with these times in this order. -/
theorem serves_edges_of_sink_three_times :
    let bench : Bench := {
      chip := {
        memory := Memory.zero.writeAll [(Register.whoAmI, 0x42), (Register.intStatus, 0x10)] }
      bus := .serial Register.bank0 }
    let ready :=
      ((Driver.powerUp .icm42605 {}).exec { bench, core := .fresh .icm42605 }).2.withInbox {}
    let calls : List (Call ScriptedSink) := [.interrupt 7]
    let s := ((Pool.ofCalls calls ready).follow 0 [0]).system
    let m := Memory.zero.writeAll [(Register.intStatus, 0x08), (Register.gyroData, 0xFE),
      (Register.gyroData + 1, 0xFF)]
    let sink : ScriptedSink := { script := [9, 8] }
    let start := (s.withMemory m).withPlan {}
    let sample := Sample.ofMemory m
    s.IsReachable ∧ Sink.Raises [9, 8] sink ∧
      (∃ t, Drains 3 sink start {} t
        ([7, 9, 8].flatMap fun time => s.bench.bus.sampleLog true (sample time))) ∧
      ((sample 8).gyro[0]).toInt = -2 := by
  intro bench ready calls s m sink start sample
  have hready : ready.IsReachable :=
    .powerUp rfl (Except.eq_ok_of_toOption (by decide +kernel))
  have hs : s.IsReachable := hready.follow (by decide +kernel) calls 0 [0]
  have hraises : Sink.Raises [9, 8] sink :=
    ⟨rfl, fun _ => ⟨rfl, rfl, fun _ => ⟨rfl, rfl, fun _ => rfl⟩⟩⟩
  have hstamp : s.stamp = 7 := rfl
  have hquiet : (s.withPlan {}).bench.IsCalm := ⟨fun _ _ _ => rfl, fun _ _ => rfl⟩
  obtain ⟨hsignal, _, hshows⟩ := serves_edges_of_sink hs (by decide +kernel) m
    (by decide +kernel) {} hquiet sink 3
  have hdrains := (hsignal rfl).1 [9, 8] hraises (by decide)
  rw [hstamp] at hdrains
  exact ⟨hs, hraises, hdrains, ((hshows 8).1.gyro 0 (by decide)).trans (by decide +kernel)⟩

end Task

end Inertial
