import Inertial.Proofs.Driver.WaitCount
import Inertial.Proofs.Shared.Chronicle
import Inertial.Proofs.Shared.Failures
import Inertial.Proofs.Shared.FirstBank
import Inertial.Proofs.Shared.Timestamps

/-!
# No wake-up is lost

A worker takes one sample for each wake-up. The interrupt line may fire at any moment: before an
access of the worker or of somebody else, while the worker waits for the lock, and from inside its
sink. Edges that come before the worker takes the wake-up leave one wake-up together, so it takes
no more samples than there were edges.

It misses none either. An edge that comes after the worker took a wake-up leaves another one, which
the worker finds once it listens again. So a worker that listens while there is no wake-up has
begun and finished a sample since the newest edge, and the sample has the time of that edge
(`Pool.wakeUps_served`).

A beginning counts for no more than it is. All that the worker does is executions, one after the
other, of which each begins once, attempts the status register once and the data registers at most
once, and hands out at most one sample (`Chronicle.Executes`).
-/

set_option autoImplicit false

namespace Inertial

/-! ## What edges leave in the inbox -/

namespace Inbox

/-- The time of the newest edge is kept. -/
theorem accel_raiseAll (times : List Int64) (i : Inbox) :
    (i.raiseAll times).stamp.accel = times.getLast?.getD i.stamp.accel := by
  induction times generalizing i with
  | nil => rfl
  | cons now times ih =>
    rw [raiseAll_cons, ih, List.getLast?_cons]
    rfl

/-- Edges leave a wake-up. -/
theorem signalled_raiseAll {times : List Int64} (h : times ≠ []) (i : Inbox) :
    (i.raiseAll times).signalled = true := by
  induction times generalizing i with
  | nil => exact absurd rfl h
  | cons now times ih =>
    cases times with
    | nil => rfl
    | cons next times => exact ih nofun (i.raise now)

end Inbox

namespace System.Marked

variable {s t : System} {moments : List Moment}

/-- The time in the inbox is that of the newest edge, if one came. -/
theorem stamp_eq (h : s.Marked t moments) :
    t.stamp = (moments.filterMap Moment.edge?).getLast?.getD s.stamp := by
  rw [stamp, h.inbox, Inbox.accel_raiseAll]
  rfl

/-- An edge leaves a wake-up. -/
theorem signalled (h : s.Marked t moments) (hedges : moments.filterMap Moment.edge? ≠ []) :
    t.bench.inbox.signalled = true := by
  rw [h.inbox]
  exact Inbox.signalled_raiseAll hedges s.bench.inbox

/-- Without an edge the inbox is as it was. -/
theorem inbox_eq (h : s.Marked t moments) (hedges : moments.filterMap Moment.edge? = []) :
    t.bench.inbox = s.bench.inbox := by
  rw [h.inbox, hedges, Inbox.raiseAll_nil]

/-- Without an edge the time stays as it was. -/
theorem stamp_eq_self (h : s.Marked t moments)
    (hedges : moments.filterMap Moment.edge? = []) : t.stamp = s.stamp := by
  rw [h.stamp_eq, hedges]
  rfl

end System.Marked

/-! ## Tasks that wait for no wake-up -/

/-- The call waits for wake-ups. -/
def Call.waits {σ : Type} : Call σ → Bool
  | .awaitInterrupt | .serve _ => true
  | _ => false

namespace Routine

variable {α β : Type}

/-- Whatever the routine is answered, `P` holds of its result. -/
def Ends (P : α → Prop) : Routine α → Prop
  | .done a => P a
  | .act _ next => ∀ b, (next b).Ends P
  | .sleep _ rest => rest.Ends P

/-- What holds of every result that is made holds in the end. -/
theorem ends_map {P : β → Prop} {f : α → β} (hf : ∀ a, P (f a)) (x : Routine α) :
    (f <$> x).Ends P := by
  induction x with
  | done a => exact hf a
  | act x next ih => exact ih
  | sleep d rest ih => exact ih

/-- A routine that is done has such a result, and one that waits is going to have one. -/
theorem Ends.advance {P : α → Prop} {x : Routine α} (h : x.Ends P) (s : System) :
    match x.advance s with
    | (.done a, _) => P a
    | (.asleep rest, _) => rest.Ends P := by
  induction x generalizing s with
  | done a => exact h
  | act x next ih => exact ih _ (h _) _
  | sleep d rest ih => exact h

end Routine

namespace Task

variable {σ : Type} [Sink σ]

/-- The task neither takes wake-ups nor is going to. -/
def IsBystander : Task σ → Prop
  | .ready call => call.waits = false
  | .queued body | .holding body | .asleep body => body.Ends fun a => ∃ r, a = .reply r
  | .listening _ => False
  | .finished _ => True

namespace IsBystander

variable {t t' : Task σ} {s s' : System}

omit [Sink σ] in
/-- A bystander takes no wake-up. -/
theorem takesWakeUp (h : t.IsBystander) : t.takesWakeUp = false := by
  cases t with
  | ready call =>
    cases call with
    | awaitInterrupt => cases h
    | _ => rfl
  | listening sink => exact h.elim
  | _ => rfl

/-- A bystander remains one. -/
theorem step (h : t.IsBystander) (hstep : t.step s = some (t', s')) : t'.IsBystander := by
  cases t with
  | ready call =>
    cases call with
    | operation op =>
      cases hstep
      exact Routine.ends_map (fun r => ⟨r, rfl⟩) op.body
    | process sink =>
      cases hstep
      change (processBody s.stamp sink).Ends _
      rw [processBody_eq]
      exact Routine.ends_map (fun r => ⟨r, rfl⟩) _
    | identity =>
      cases hstep
      trivial
    | interrupt now =>
      cases hstep
      trivial
    | awaitInterrupt => cases h
    | serve sink => cases h
  | listening sink => exact h.elim
  | queued body =>
    rw [Task.step] at hstep
    split at hstep
    · cases hstep
    · cases hstep
      exact h
  | holding body =>
    have hadvance := Routine.Ends.advance h s
    rw [Task.step] at hstep
    rcases hx : body.advance s with ⟨after | rest, u⟩
    · rw [hx] at hstep hadvance
      obtain ⟨r, rfl⟩ := hadvance
      cases hstep
      trivial
    · rw [hx] at hstep hadvance
      cases hstep
      exact hadvance
  | asleep body =>
    cases hstep
    exact h
  | finished r => cases hstep

end IsBystander

/-- The sink of a worker that listens. -/
def listening? : Task σ → Option σ
  | .listening sink => some sink
  | _ => none

omit [Sink σ] in
/-- That a worker listens can be told by evaluation. -/
theorem eq_listening {t : Option (Task σ)} {sink : σ} (h : t.bind listening? = some sink) :
    t = some (.listening sink) := by
  obtain ⟨u, rfl, hu⟩ := Option.bind_eq_some_iff.mp h
  cases u with
  | listening sink' =>
    cases hu
    rfl
  | _ => cases hu

/-! ## What a worker does with the lock -/

/-- A worker that has the lock does not wait. It takes one sample with the time that it looked up,
and it is going to listen again. -/
theorem advance_serveBody (time : Int64) (sink : σ) {s : System} (hs : s.bench.InFirstBank) :
    ∃ sink' u events, (serveBody time sink).advance s = (.done (.serve sink'), u) ∧
      u.bench.trace = s.bench.trace ++ events ∧ s.bench.bus.Samples time events := by
  obtain ⟨r, u, events, hrun, hidles, hsamples, _⟩ := Driver.exists_run_takeSample time sink hs
  refine ⟨r.2, u, events, ?_, hidles.trace, hsamples⟩
  rw [(waitsAtMost_serveBody time sink).advance_eq_run, serveBody, Routine.run_bind, hrun]
  rfl

end Task

/-! ## What a worker has done -/

/-- The moments of one execution: a time is looked up, a sample with that time is taken over a bus,
and the lock is given back. Edges may come meanwhile. -/
inductive Moment.IsExecution : List Moment → Prop where
  | intro (bus : Bus) (time : Int64) (during : List Moment)
    (hbench : ∀ m ∈ during, m.isOnBench = true)
    (hsamples : bus.Samples time (during.filterMap event?)) :
    IsExecution (.begun time :: during ++ [.done])

/-- An execution begins once. -/
theorem Moment.IsExecution.countP_isBegun {moments : List Moment} (h : IsExecution moments) :
    moments.countP isBegun = 1 := by
  obtain ⟨bus, time, during, hbench, _⟩ := h
  have hduring : during.countP isBegun = 0 := by
    rw [List.countP_eq_zero]
    intro m hm hbegun
    have hon := hbench m hm
    cases m with
    | begun time => cases hon
    | _ => cases hbegun
  rw [List.countP_append, List.countP_cons_of_pos rfl, hduring]
  rfl

/-- All that the task at a position has done is some executions, one after the other, and at the end
the beginning of another one, unless nothing is left. -/
structure Chronicle.Executes (i : Nat) (finished : List (List Moment)) (unfinished : List Moment)
    (c : Chronicle) : Prop where
  own : c.own i = finished.flatten ++ unfinished
  execution : ∀ moments ∈ finished, Moment.IsExecution moments
  beginning : unfinished = [] ∨ ∃ time, unfinished = [.begun time]

namespace Chronicle.Executes

variable {i : Nat} {time : Int64} {finished : List (List Moment)} {unfinished : List Moment}
  {c : Chronicle}

/-- Who has not begun has done nothing. -/
theorem nil (i : Nat) : Executes i [] [] [] where
  own := rfl
  execution := nofun
  beginning := Or.inl rfl

/-- A task begins as often as it has executions. -/
theorem begins_eq (h : c.Executes i finished unfinished) :
    c.begins i = finished.length + unfinished.length := by
  have hfinished : ∀ rounds : List (List Moment), (∀ m ∈ rounds, Moment.IsExecution m) →
      rounds.flatten.countP Moment.isBegun = rounds.length := by
    intro rounds hall
    induction rounds with
    | nil => rfl
    | cons m rounds ih =>
      rw [List.flatten_cons, List.countP_append, (hall m List.mem_cons_self).countP_isBegun,
        ih fun m' hm' => hall m' (List.mem_cons_of_mem m hm'), List.length_cons, Nat.add_comm]
  have hunfinished : unfinished.countP Moment.isBegun = unfinished.length := by
    rcases h.beginning with rfl | ⟨time, rfl⟩ <;> rfl
  rw [begins, h.own, List.countP_append, hfinished finished h.execution, hunfinished]

/-- What others do is not among it. -/
theorem append_other (h : c.Executes i finished unfinished) {j : Nat} (hj : j ≠ i)
    (moments : List Moment) : Executes i finished unfinished (c ++ of j moments) where
  own := by rw [own_append, own_of_ne hj, List.append_nil, h.own]
  execution := h.execution
  beginning := h.beginning

/-- The next execution begins. -/
theorem begin (h : c.Executes i finished []) (time : Int64) :
    Executes i finished [.begun time] (c ++ of i [.begun time]) where
  own := by rw [own_append, own_of, h.own, List.append_nil]
  execution := h.execution
  beginning := Or.inr ⟨time, rfl⟩

/-- The execution that has begun is finished. -/
theorem finish (h : c.Executes i finished [.begun time]) {bus : Bus} {during : List Moment}
    (hbench : ∀ m ∈ during, m.isOnBench = true)
    (hsamples : bus.Samples time (during.filterMap Moment.event?)) :
    Executes i (finished ++ [.begun time :: during ++ [.done]]) []
      (c ++ of i (during ++ [.done])) where
  own := by
    rw [own_append, own_of, h.own, List.flatten_append, List.flatten_singleton, List.append_nil,
      List.append_assoc]
    rfl
  execution := by
    intro moments hmem
    rcases List.mem_append.mp hmem with hmem | hmem
    · exact h.execution moments hmem
    · rw [List.mem_singleton.mp hmem]
      exact .intro bus time during hbench hsamples
  beginning := Or.inl rfl

end Chronicle.Executes

/-! ## The last sample of a worker -/

namespace Chronicle

/-- Since the last edge the task at a position began a sample, with the given time, and since then
it did what is given. -/
def Began (i : Nat) (time : Int64) (moments : List Moment) (c : Chronicle) : Prop :=
  ∃ older newer : Chronicle,
    c = older ++ (i, .begun time) :: newer ∧ newer.edges = [] ∧ newer.own i = moments

/-- Since the last edge the task at a position began a sample, with the given time, and finished it.
It attempted to read the status register, and if it handed out a sample then with that time. -/
def Served (i : Nat) (time : Int64) (c : Chronicle) : Prop :=
  ∃ (bus : Bus) (events : List Event),
    c.Began i time (events.map .event ++ [.done]) ∧ bus.Samples time events

variable {i : Nat} {time : Int64} {moments : List Moment} {c d : Chronicle}

/-- The sample has just begun. -/
theorem began_concat (i : Nat) (time : Int64) (c : Chronicle) :
    Began i time [] (c ++ of i [.begun time]) :=
  ⟨c, [], rfl, rfl, rfl⟩

/-- More happens without an edge. -/
theorem Began.append (h : c.Began i time moments) (hd : d.edges = []) :
    (c ++ d).Began i time (moments ++ d.own i) := by
  obtain ⟨older, newer, rfl, hedges, rfl⟩ := h
  refine ⟨older, newer ++ d, ?_, ?_, own_append i newer d⟩
  · rw [List.append_assoc]
    rfl
  · rw [edges_append, hedges, hd]
    rfl

/-- Others do something, and no edge comes. -/
theorem Began.append_other (h : c.Began i time moments) {j : Nat} (hj : j ≠ i)
    {other : List Moment} (hedges : other.filterMap Moment.edge? = []) :
    (c ++ of j other).Began i time moments := by
  have hnext := h.append ((edges_of j other).trans hedges)
  rw [own_of_ne hj, List.append_nil] at hnext
  exact hnext

/-- What others do without an edge leaves the worker's last sample the last. -/
theorem Served.append_other (h : c.Served i time) {j : Nat} (hj : j ≠ i)
    {other : List Moment} (hedges : other.filterMap Moment.edge? = []) :
    (c ++ of j other).Served i time := by
  obtain ⟨bus, events, hbegan, hsamples⟩ := h
  exact ⟨bus, events, hbegan.append_other hj hedges, hsamples⟩

end Chronicle

/-- Where a worker stands, and that it has done nothing but executions, of which one has begun from
the time that it takes the wake-up until it listens again. Unless there is a wake-up, it owes
nothing: no edge has come and no wake-up was there when it began, or it has begun a sample since the
last edge, and it has finished that sample if it listens again. -/
inductive Task.Attends {σ : Type} [Sink σ] (i : Nat) (pending : Bool) (c : Chronicle)
    (s : System) (finished : List (List Moment)) : Task σ → Prop where
  | ready (sink : σ) (hwork : c.Executes i finished [])
    (hseen : s.bench.inbox.signalled = true ∨ c.edges = [] ∧ pending = false) :
    Attends i pending c s finished (.ready (.serve sink))
  | listening (sink : σ) (hwork : c.Executes i finished [])
    (hseen : s.bench.inbox.signalled = true ∨ (c.edges = [] ∧ pending = false) ∨
      c.Served i s.stamp) :
    Attends i pending c s finished (.listening sink)
  | queued (time : Int64) (sink : σ) (hwork : c.Executes i finished [.begun time])
    (hseen : s.bench.inbox.signalled = true ∨ time = s.stamp ∧ c.Began i time []) :
    Attends i pending c s finished (.queued (Task.serveBody time sink))
  | holding (time : Int64) (sink : σ) (hwork : c.Executes i finished [.begun time])
    (hseen : s.bench.inbox.signalled = true ∨ time = s.stamp ∧ c.Began i time []) :
    Attends i pending c s finished (.holding (Task.serveBody time sink))

namespace Task.Attends

variable {σ : Type} [Sink σ] {i : Nat} {pending : Bool} {c : Chronicle} {s s' : System}
  {finished : List (List Moment)} {t t' : Task σ} {moments : List Moment}

/-- All that a worker has done is executions, and none has begun while it listens. -/
theorem exists_executes (h : t.Attends i pending c s finished) :
    ∃ unfinished, c.Executes i finished unfinished ∧ (t.listening?.isSome → unfinished = []) := by
  cases h with
  | ready sink hwork => exact ⟨[], hwork, fun _ => rfl⟩
  | listening sink hwork => exact ⟨[], hwork, fun _ => rfl⟩
  | queued time sink hwork => exact ⟨_, hwork, nofun⟩
  | holding time sink hwork => exact ⟨_, hwork, nofun⟩

/-- What others do leaves the worker where it stands: if an edge comes then so does a wake-up. -/
theorem append_other (h : t.Attends i pending c s finished) {j : Nat} (hj : j ≠ i)
    (hmarked : s.Marked s' moments) : t.Attends i pending (c ++ .of j moments) s' finished := by
  -- Without an edge nothing changes for the worker. An edge leaves a wake-up, and then it owes
  -- nothing.
  by_cases hedges : moments.filterMap Moment.edge? = []
  · have hinbox := hmarked.inbox_eq hedges
    have hstamp := hmarked.stamp_eq_self hedges
    have hsame : Chronicle.edges (c ++ .of j moments) = c.edges := by
      rw [Chronicle.edges_append, Chronicle.edges_of, hedges, List.append_nil]
    cases h with
    | ready sink hwork hseen =>
      refine .ready sink (hwork.append_other hj moments) ?_
      rw [hinbox, hsame]
      exact hseen
    | listening sink hwork hseen =>
      refine .listening sink (hwork.append_other hj moments) ?_
      rw [hinbox, hsame, hstamp]
      exact hseen.imp_right (·.imp_right (·.append_other hj hedges))
    | queued time sink hwork hseen =>
      refine .queued time sink (hwork.append_other hj moments) ?_
      rw [hinbox, hstamp]
      exact hseen.imp_right (·.imp_right (·.append_other hj hedges))
    | holding time sink hwork hseen =>
      refine .holding time sink (hwork.append_other hj moments) ?_
      rw [hinbox, hstamp]
      exact hseen.imp_right (·.imp_right (·.append_other hj hedges))
  · have hsignalled := hmarked.signalled hedges
    cases h with
    | ready sink hwork _ => exact .ready sink (hwork.append_other hj moments) (Or.inl hsignalled)
    | listening sink hwork _ =>
      exact .listening sink (hwork.append_other hj moments) (Or.inl hsignalled)
    | queued time sink hwork _ =>
      exact .queued time sink (hwork.append_other hj moments) (Or.inl hsignalled)
    | holding time sink hwork _ =>
      exact .holding time sink (hwork.append_other hj moments) (Or.inl hsignalled)

/-- A worker that takes the wake-up looks up the time of the newest edge and begins a sample. -/
theorem of_step_listening {sink : σ} (hwork : c.Executes i finished [])
    (hstep : (Task.listening sink).step s = some (t', s')) :
    t'.Attends i pending (c ++ .of i ((Task.listening sink).moments s)) s' finished := by
  have hstamp : s'.stamp = s.stamp := by
    obtain ⟨_, rfl, _⟩ := step_of_takesWakeUp rfl hstep
    rfl
  obtain ⟨u, _, he⟩ := Option.map_eq_some_iff.mp hstep
  cases he
  have hmoments : (Task.listening sink).moments s = [.begun s'.stamp] := by
    rw [hstamp]
    rfl
  rw [hmoments]
  exact .queued _ sink (hwork.begin s'.stamp) (Or.inr ⟨rfl, Chronicle.began_concat i s'.stamp c⟩)

/-- A worker that has the lock finishes the sample and listens again. Edges that come meanwhile
leave a wake-up. -/
theorem of_step_holding {time : Int64} {sink : σ} (hs : s.bench.InFirstBank)
    (hwork : c.Executes i finished [.begun time])
    (hseen : s.bench.inbox.signalled = true ∨ time = s.stamp ∧ c.Began i time [])
    (hstep : (Task.holding (serveBody time sink)).step s = some (t', s')) :
    ∃ finished', t'.Attends i pending
      (c ++ .of i ((Task.holding (serveBody time sink)).moments s)) s' finished' := by
  have hmarked := marked_step rfl hstep
  obtain ⟨sink', u, events, hadvance, htrace, hsamples⟩ := advance_serveBody time sink hs
  have hmoments : (Task.holding (serveBody time sink)).moments s =
      (serveBody time sink).moments s ++ [.done] := by
    rw [moments, hadvance]
  have hbench : ∀ m ∈ (serveBody time sink).moments s, m.isOnBench = true :=
    fun m hm => Routine.isOnBench_of_mem_moments hm
  have hevents : ((serveBody time sink).moments s).filterMap Moment.event? = events := by
    have hbody := ((serveBody time sink).marked_advance s).trace
    rw [hadvance] at hbody
    exact (List.append_right_inj s.bench.trace).mp (hbody.symm.trans htrace)
  have hedges : ((Task.holding (serveBody time sink)).moments s).filterMap Moment.edge? =
      ((serveBody time sink).moments s).filterMap Moment.edge? := by
    rw [hmoments, List.filterMap_append]
    exact List.append_nil _
  rw [step, hadvance] at hstep
  cases hstep
  have hdone := hwork.finish hbench (by rw [hevents]; exact hsamples)
  rw [← hmoments] at hdone
  refine ⟨_, .listening sink' hdone ?_⟩
  -- An edge while the sample is taken leaves a wake-up. Without one the sample is the newest.
  by_cases hnone : ((serveBody time sink).moments s).filterMap Moment.edge? = []
  · have hinbox := hmarked.inbox_eq (hedges.trans hnone)
    have hstamp := hmarked.stamp_eq_self (hedges.trans hnone)
    have hown : (serveBody time sink).moments s = events.map .event := by
      rw [Moment.eq_map_event hbench hnone, hevents]
    rw [hinbox, hstamp]
    rcases hseen with hsignalled | ⟨htime, hbegan⟩
    · exact Or.inl hsignalled
    · right; right
      rw [← htime]
      have hnext := hbegan.append ((Chronicle.edges_of i _).trans (hedges.trans hnone))
      rw [Chronicle.own_of, hmoments, hown] at hnext
      rw [hmoments, hown]
      exact ⟨s.bench.bus, events, hnext, hsamples⟩
  · exact Or.inl (hmarked.signalled (by rw [hedges]; exact hnone))

end Task.Attends

/-! ## Worker and bystanders -/

/-- The task at a position is a worker, and the others wait for no wake-up. It has begun no more
samples than wake-ups were left, and the time in the inbox is that of the newest edge. `stamp` and
`pending` are what the inbox had when the worker began. -/
structure Pool.Heeds {σ : Type} [Sink σ] (i : Nat) (stamp : Int64) (pending : Bool) (c : Chronicle)
    (s : System) (tasks : List (Task σ)) : Prop where
  stamp : s.stamp = c.edges.getLast?.getD stamp
  count : c.begins i + s.bench.inbox.signalled.toNat ≤ c.edges.length + pending.toNat
  bystander : ∀ (j : Nat) (t : Task σ), tasks[j]? = some t → j ≠ i → t.IsBystander
  worker : ∃ t finished, tasks[i]? = some t ∧ t.Attends i pending c s finished

namespace Pool.Heeds

variable {σ : Type} [Sink σ] {i j : Nat} {stamp : Int64} {pending : Bool} {c : Chronicle}
  {s s' : System} {tasks : List (Task σ)} {t t' : Task σ} {moments : List Moment}
  {finished : List (List Moment)}

/-- The time in the inbox remains that of the newest edge. -/
theorem stamp_append (h : Heeds i stamp pending c s tasks) (hmarked : s.Marked s' moments) :
    s'.stamp = (Chronicle.edges (c ++ .of j moments)).getLast?.getD stamp := by
  rw [hmarked.stamp_eq, h.stamp, Chronicle.edges_append, Chronicle.edges_of, List.getLast?_append,
    Option.getD_or]

/-- Several edges leave one wake-up. -/
theorem count_append (h : Heeds i stamp pending c s tasks) (hmarked : s.Marked s' moments)
    (hbegins : Chronicle.begins i (.of j moments) = 0) :
    Chronicle.begins i (c ++ .of j moments) + s'.bench.inbox.signalled.toNat ≤
      (Chronicle.edges (c ++ .of j moments)).length + pending.toNat := by
  have hcount := h.count
  rw [Chronicle.begins_append, hbegins, Chronicle.edges_append, Chronicle.edges_of,
    List.length_append, Nat.add_zero]
  -- Edges that come together count as one wake-up at most, so the sum can only fall behind.
  by_cases hedges : moments.filterMap Moment.edge? = []
  · rw [hmarked.inbox_eq hedges, hedges]
    exact hcount
  · have hpos := List.length_pos_iff.mpr hedges
    have hone := s'.bench.inbox.signalled.toNat_le
    omega

/-- One transition of another task keeps everything. -/
theorem step_other (h : Heeds i stamp pending c s tasks) (hj : tasks[j]? = some t) (hji : j ≠ i)
    (hstep : t.step s = some (t', s')) :
    Heeds i stamp pending (c ++ .of j (t.moments s)) s' (tasks.set j t') := by
  have hbystander := h.bystander j t hj hji
  have hmarked := Task.marked_step hbystander.takesWakeUp hstep
  refine ⟨h.stamp_append hmarked, h.count_append hmarked (Chronicle.begins_of_ne hji _), ?_, ?_⟩
  · intro k u hk hki
    rcases getElem?_set_cases hk with ⟨rfl, rfl⟩ | ⟨_, hk⟩
    · exact hbystander.step hstep
    · exact h.bystander k u hk hki
  · obtain ⟨worker, finished, hi, hattends⟩ := h.worker
    refine ⟨worker, finished, ?_, hattends.append_other hji hmarked⟩
    rw [List.getElem?_set_ne hji]
    exact hi

/-- The worker may be replaced by where it stands next. -/
theorem set_worker (h : Heeds i stamp pending c s tasks) (hi : tasks[i]? = some t)
    {d : Chronicle} (hstamp : s'.stamp = d.edges.getLast?.getD stamp)
    (hcount : d.begins i + s'.bench.inbox.signalled.toNat ≤ d.edges.length + pending.toNat)
    (hattends : t'.Attends i pending d s' finished) :
    Heeds i stamp pending d s' (tasks.set i t') := by
  refine ⟨hstamp, hcount, ?_, t', finished, ?_, hattends⟩
  · intro j u hj hji
    rw [List.getElem?_set_ne (Ne.symm hji)] at hj
    exact h.bystander j u hj hji
  · obtain ⟨hlt, _⟩ := List.getElem?_eq_some_iff.mp hi
    exact List.getElem?_set_self hlt

/-- A transition of the worker that takes no wake-up begins no sample. -/
theorem set_marked (h : Heeds i stamp pending c s tasks) (hi : tasks[i]? = some t)
    (hmarked : s.Marked s' moments) (hbegun : moments.countP Moment.isBegun = 0)
    (hattends : ∃ finished, t'.Attends i pending (c ++ .of i moments) s' finished) :
    Heeds i stamp pending (c ++ .of i moments) s' (tasks.set i t') := by
  obtain ⟨finished, hattends⟩ := hattends
  refine h.set_worker hi (h.stamp_append hmarked) (h.count_append hmarked ?_) hattends
  rw [Chronicle.begins_of]
  exact hbegun

/-- The worker begins a sample for the wake-up that it takes. -/
theorem step_listening {sink : σ} (h : Heeds i stamp pending c s tasks)
    (hi : tasks[i]? = some (.listening sink)) (hwork : c.Executes i finished [])
    (hstep : (Task.listening sink).step s = some (t', s')) :
    Heeds i stamp pending (c ++ .of i ((Task.listening sink).moments s)) s' (tasks.set i t') := by
  obtain ⟨hsignalled, hnext, hedges, _⟩ := Task.step_of_takesWakeUp rfl hstep
  have hsame : Chronicle.edges (c ++ .of i ((Task.listening sink).moments s)) = c.edges := by
    rw [Chronicle.edges_append, Chronicle.edges_of, hedges, List.append_nil]
  refine h.set_worker hi ?_ ?_ (.of_step_listening hwork hstep)
  · rw [hsame, ← h.stamp, hnext]
    rfl
  · have hcount := h.count
    rw [hsignalled] at hcount
    rw [hsame, Chronicle.begins_append, Chronicle.begins_of, hnext]
    exact hcount

/-- One transition of the worker keeps everything. -/
theorem step_worker (h : Heeds i stamp pending c s tasks) (hs : s.bench.InFirstBank)
    (hi : tasks[i]? = some t) (hstep : t.step s = some (t', s')) :
    Heeds i stamp pending (c ++ .of i (t.moments s)) s' (tasks.set i t') := by
  obtain ⟨u, finished, hu, hattends⟩ := h.worker
  cases hi.symm.trans hu
  cases hattends with
  | ready sink hwork hseen =>
    refine h.set_marked hi (Task.marked_step rfl hstep) rfl ⟨finished, ?_⟩
    cases hstep
    have hsame : c ++ Chronicle.of i ((Task.ready (.serve sink)).moments s) = c := List.append_nil c
    rw [hsame]
    exact .listening sink hwork (hseen.imp_right Or.inl)
  | listening sink hwork hseen => exact h.step_listening hi hwork hstep
  | queued time sink hwork hseen =>
    refine h.set_marked hi (Task.marked_step rfl hstep) rfl ⟨finished, ?_⟩
    have hsame : c ++ Chronicle.of i ((Task.queued (Task.serveBody time sink)).moments s) = c :=
      List.append_nil c
    rw [Task.step] at hstep
    split at hstep
    · cases hstep
    · cases hstep
      rw [hsame]
      exact .holding time sink hwork hseen
  | holding time sink hwork hseen =>
    refine h.set_marked hi (Task.marked_step rfl hstep) ?_
      (Task.Attends.of_step_holding hs hwork hseen hstep)
    rw [List.countP_eq_zero]
    intro m hm
    rw [Task.isBegun_of_mem_moments hm]
    exact Bool.false_ne_true

end Pool.Heeds

namespace Pool

variable {σ : Type} [Sink σ]

/-- Calls that do not wait for wake-ups never come to. -/
theorem isBystander_follow {calls : List (Call σ)} {i : Nat}
    (honly : ∀ j c, calls[j]? = some c → c.waits = true → j = i) (s : System) (wakeUps : Nat)
    (schedule : List Nat) {j : Nat} {t : Task σ}
    (hj : ((ofCalls calls s).follow wakeUps schedule).tasks[j]? = some t) (hji : j ≠ i) :
    t.IsBystander := by
  refine follow_induction
    (P := fun _ tasks => ∀ (j : Nat) (t : Task σ), tasks[j]? = some t → j ≠ i → t.IsBystander)
    ?_ ?_ wakeUps schedule j t hj hji
  · intro s tasks k u u' s' hall hk hstep j t hj hji
    rcases getElem?_set_cases hj with ⟨rfl, rfl⟩ | ⟨_, hj⟩
    · exact (hall j u hk hji).step hstep
    · exact hall j t hj hji
  · intro j t hj hji
    have hready : (calls.map Task.ready)[j]? = some t := hj
    rw [List.getElem?_map] at hready
    obtain ⟨c, hc, rfl⟩ := Option.map_eq_some_iff.mp hready
    cases hwaits : c.waits with
    | true => exact absurd (honly j c hc hwaits) hji
    | false => exact hwaits

/-- A worker that has not begun owes nothing but the wake-up that is there. -/
theorem heeds_follow {calls : List (Call σ)} {i : Nat} {sink : σ}
    (hi : calls[i]? = some (.serve sink))
    (honly : ∀ j c, calls[j]? = some c → c.waits = true → j = i) (s : System) (wakeUps : Nat)
    {before : List Nat} (hbefore : i ∉ before) :
    let started := (ofCalls calls s).follow wakeUps before
    Heeds i started.system.stamp started.system.bench.inbox.signalled [] started.system
      started.tasks := by
  intro started
  have hready : started.tasks[i]? = some (.ready (.serve sink)) := by
    rw [getElem?_follow_of_not_mem _ wakeUps hbefore]
    change (calls.map Task.ready)[i]? = _
    rw [List.getElem?_map, hi]
    rfl
  refine ⟨rfl, Nat.le_of_eq rfl, ?_, _, [], hready, .ready sink (.nil i) ?_⟩
  · exact fun j t hj hji => isBystander_follow honly s wakeUps before hj hji
  · cases hpending : started.system.bench.inbox.signalled with
    | true => exact Or.inl rfl
    | false => exact Or.inr ⟨rfl, rfl⟩

/-- While calls are made, one of which is a worker and the only one to wait for wake-ups, the worker
begins to serve at some point of a schedule. From there on all that it does is executions, and it
begins no more of them than edges come, and one more if a wake-up was there. Whenever it listens it
has finished what it began. If then there is no wake-up, although there was one or an edge has come,
it has begun and finished a sample since the newest edge, with the time of that edge. -/
theorem wakeUps_served {s : System} (hs : s.IsReachable)
    {calls : List (Call σ)} {i : Nat} {sink : σ} (hi : calls[i]? = some (.serve sink))
    (honly : ∀ j c, calls[j]? = some c → c.waits = true → j = i) (wakeUps : Nat)
    {before : List Nat} (hbefore : i ∉ before) (after : List Nat) :
    let started := (ofCalls calls s).follow wakeUps before
    let since := started.chronicle wakeUps (i :: after)
    let p := started.follow wakeUps (i :: after)
    let pending := started.system.bench.inbox.signalled
    (∃ finished unfinished, since.Executes i finished unfinished ∧
      since.begins i = finished.length + unfinished.length ∧
      ∀ sink', p.tasks[i]? = some (.listening sink') → unfinished = []) ∧
    since.begins i ≤ since.edges.length + pending.toNat ∧
      ∀ sink', p.tasks[i]? = some (.listening sink') → p.system.bench.inbox.signalled = false →
        since.edges ≠ [] ∨ pending = true →
        since.Served i (since.edges.getLast?.getD started.system.stamp) := by
  intro started since p pending
  -- The bus reaches the status register whenever the worker begins to read it.
  have hstart := staysInFirstBank_follow hs.inFirstBank calls wakeUps before
  have hend := chronicle_induction (p := started) (c := [])
    (P := fun c s tasks => StaysInFirstBank s tasks ∧
      Heeds i started.system.stamp pending c s tasks)
    ?_ ⟨hstart, heeds_follow hi honly s wakeUps hbefore⟩ wakeUps (i :: after)
  · obtain ⟨_, hheeds⟩ := hend
    obtain ⟨t, finished, ht, hattends⟩ := hheeds.worker
    refine ⟨?_, Nat.le_trans (Nat.le_add_right _ _) hheeds.count, ?_⟩
    · obtain ⟨unfinished, hwork, hidle⟩ := hattends.exists_executes
      refine ⟨finished, unfinished, hwork, hwork.begins_eq, fun sink' hlistening => ?_⟩
      cases hlistening.symm.trans ht
      exact hidle rfl
    · intro sink' hlistening hnone hdue
      cases hlistening.symm.trans ht
      cases hattends with
      | listening _ _ hseen =>
        rcases hseen with hsignalled | ⟨hedges, hpending⟩ | hserved
        · cases hnone.symm.trans hsignalled
        · rcases hdue with hdue | hdue
          · exact absurd hedges hdue
          · cases hdue.symm.trans hpending
        · rw [hheeds.stamp] at hserved
          exact hserved
  · rintro c s tasks j t t' s' ⟨hbank, hheeds⟩ hj hstep
    refine ⟨hbank.step hj hstep, ?_⟩
    by_cases hji : j = i
    · subst hji
      exact hheeds.step_worker hbank.inFirstBank hj hstep
    · exact hheeds.step_other hj hji hstep

/-- An edge comes while the worker waits for the lock and another from inside its sink. They leave
one wake-up together, and the sample that the worker takes for it has the time of the second. The
worker is done with both executions that it began. -/
theorem wakeUps_served_from_sink :
    let bench : Bench := {
      chip := {
        memory := Memory.zero.writeAll [(Register.whoAmI, 0x42), (Register.intStatus, 0x18)] } }
    let s := ((Driver.powerUp .icm42605 {}).exec { bench, core := .fresh .icm42605 }).2.withInbox {}
    let calls : List (Call ScriptedSink) :=
      [.operation (.setPower ⟨.lowNoise, .off, false⟩ true), .serve { script := [9] },
        .interrupt 3, .interrupt 5]
    let started := (ofCalls calls s).follow 3 [0]
    let since := started.chronicle 3 [1, 2, 1, 3, 0, 0, 1]
    let p := started.follow 3 [1, 2, 1, 3, 0, 0, 1]
    s.IsReachable ∧ since.edges = [3, 5, 9] ∧ since.begins 1 = 2 ∧
      p.tasks[1]? = some (.listening { script := [] }) ∧ p.system.bench.inbox.signalled = false ∧
      (∃ finished, since.Executes 1 finished [] ∧ finished.length = 2) ∧
      since.begins 1 ≤ since.edges.length + started.system.bench.inbox.signalled.toNat ∧
      since.Served 1 9 := by
  intro bench s calls started since p
  have hs : s.IsReachable := .powerUp trivial (Except.eq_ok_of_toOption (by decide +kernel))
  have honly : ∀ j c, calls[j]? = some c → c.waits = true → j = 1 := by
    intro j c hj hwaits
    match j, hj with
    | 0, hj =>
      cases hj
      cases hwaits
    | 1, _ => rfl
    | 2, hj =>
      cases hj
      cases hwaits
    | 3, hj =>
      cases hj
      cases hwaits
    | _ + 4, hj => cases hj
  have hlistening : p.tasks[1]? = some (.listening { script := [] }) :=
    Task.eq_listening (by decide +kernel)
  have hedges : since.edges = [3, 5, 9] := by decide +kernel
  have hbegins : since.begins 1 = 2 := by decide +kernel
  have hdue : since.edges ≠ [] := by
    rw [hedges]
    exact nofun
  obtain ⟨⟨finished, unfinished, hwork, hcount, hidle⟩, hbound, hrun⟩ :=
    wakeUps_served hs (show calls[1]? = _ from rfl) honly 3 (by decide : 1 ∉ [0])
      [2, 1, 3, 0, 0, 1]
  have hdone : ∃ finished, since.Executes 1 finished [] ∧ finished.length = 2 := by
    cases hidle _ hlistening
    exact ⟨finished, hwork, hcount.symm.trans hbegins⟩
  have hserved : since.Served 1 (since.edges.getLast?.getD started.system.stamp) :=
    hrun _ hlistening (by decide +kernel) (Or.inl hdue)
  rw [hedges] at hserved
  exact ⟨hs, hedges, hbegins, hlistening, by decide +kernel, hdone, hbound, hserved⟩

end Pool

end Inertial
