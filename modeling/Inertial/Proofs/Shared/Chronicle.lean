import Inertial.Proofs.Bus.Steadiness
import Inertial.Proofs.Shared.History

/-!
# When the interrupt line fired

A history says who did what on the bench, but an edge of the interrupt line leaves nothing in the
trace. A chronicle has the edges in their place among the events: those that the plan delivers
before an access, those that a sink causes, and those that a call reports. It also has the moments
at which a call begins to take a sample and at which a task is done with the lock.

What it says can be checked against the run: its events are those of the history
(`Pool.events_chronicle`), and its edges are what becomes of the inbox until somebody takes the
wake-up (`Task.marked_step`).
-/

set_option autoImplicit false

namespace Inertial

/-- Something that happens at one point of a run. -/
inductive Moment where
  /-- The interrupt line fires at a time. -/
  | edge (now : Int64)
  | event (e : Event)
  /-- A call begins to take a sample and looks up its time. -/
  | begun (time : Int64)
  /-- A task has done what it wanted the lock for. -/
  | done
deriving DecidableEq, Repr

namespace Moment

/-- The time of an edge. -/
def edge? : Moment → Option Int64
  | .edge now => some now
  | _ => none

/-- The event that was logged, if one was. -/
def event? : Moment → Option Event
  | .event e => some e
  | _ => none

/-- Whether a call begins to take a sample. -/
def isBegun : Moment → Bool
  | .begun _ => true
  | _ => false

/-- Whether something happens on the bench. -/
def isOnBench : Moment → Bool
  | .edge _ | .event _ => true
  | .begun _ | .done => false

/-- What happens on the bench without an edge is events. -/
theorem eq_map_event {moments : List Moment} (hbench : ∀ m ∈ moments, m.isOnBench = true)
    (hedges : moments.filterMap edge? = []) :
    moments = (moments.filterMap event?).map .event := by
  induction moments with
  | nil => rfl
  | cons m moments ih =>
    have hm := hbench m List.mem_cons_self
    have hrest := fun m' hm' => hbench m' (List.mem_cons_of_mem m hm')
    cases m with
    | edge now => cases hedges
    | event e => exact congrArg (Moment.event e :: ·) (ih hrest hedges)
    | begun time => cases hm
    | done => cases hm

end Moment

/-- Moments in their order, each with the position of the task it belongs to. -/
abbrev Chronicle := List (Nat × Moment)

namespace Chronicle

/-- Moments that are all of one task. -/
def of (i : Nat) (moments : List Moment) : Chronicle :=
  moments.map (i, ·)

/-- The times of all edges. -/
def edges (c : Chronicle) : List Int64 :=
  c.filterMap (·.2.edge?)

/-- The moments of the task at a position. -/
def own (i : Nat) (c : Chronicle) : List Moment :=
  c.filterMap fun m => if m.1 = i then some m.2 else none

/-- How often the task at a position has begun to take a sample. -/
def begins (i : Nat) (c : Chronicle) : Nat :=
  (c.own i).countP Moment.isBegun

/-- The history of a chronicle. -/
def events (c : Chronicle) : History :=
  c.filterMap fun m => m.2.event?.map (m.1, ·)

/-- A task without moments adds nothing. -/
@[simp] theorem of_nil (i : Nat) : of i [] = [] := rfl

/-- The moments of one task may be written down in two parts. -/
theorem of_append (i : Nat) (moments later : List Moment) :
    of i (moments ++ later) = of i moments ++ of i later :=
  List.map_append

/-- Edges are listed in their order. -/
theorem edges_append (c d : Chronicle) : edges (c ++ d) = edges c ++ edges d :=
  List.filterMap_append

/-- The moments of a task are listed in their order. -/
theorem own_append (i : Nat) (c d : Chronicle) : own i (c ++ d) = own i c ++ own i d :=
  List.filterMap_append

/-- Beginnings add up. -/
theorem begins_append (i : Nat) (c d : Chronicle) :
    begins i (c ++ d) = begins i c + begins i d := by
  rw [begins, own_append, List.countP_append]
  rfl

/-- The history of two chronicles in a row is that of one after the other. -/
theorem events_append (c d : Chronicle) : events (c ++ d) = events c ++ events d :=
  List.filterMap_append

/-- The edges of one task's moments are those among the moments. -/
theorem edges_of (i : Nat) (moments : List Moment) :
    edges (of i moments) = moments.filterMap Moment.edge? := by
  rw [edges, of, List.filterMap_map]
  rfl

/-- The history of one task's moments is what was logged among them. -/
theorem events_of (i : Nat) (moments : List Moment) :
    events (of i moments) = History.of i (moments.filterMap Moment.event?) := by
  rw [events, of, List.filterMap_map, History.of, List.map_filterMap]
  rfl

/-- All moments of a task are its own. -/
theorem own_of (i : Nat) (moments : List Moment) : own i (of i moments) = moments := by
  have hself : (fun m : Nat × Moment => if m.1 = i then some m.2 else none) ∘ (i, ·) = some :=
    funext fun m => if_pos rfl
  rw [own, of, List.filterMap_map, hself, List.filterMap_some]

/-- None of them is another task's. -/
theorem own_of_ne {i j : Nat} (h : j ≠ i) (moments : List Moment) : own i (of j moments) = [] := by
  rw [own, of, List.filterMap_map, List.filterMap_eq_nil_iff]
  intro m _
  exact if_neg h

/-- A task begins as often as its moments say. -/
theorem begins_of (i : Nat) (moments : List Moment) :
    begins i (of i moments) = moments.countP Moment.isBegun := by
  rw [begins, own_of]

/-- Another task's moments begin nothing for it. -/
theorem begins_of_ne {i j : Nat} (h : j ≠ i) (moments : List Moment) :
    begins i (of j moments) = 0 := by
  rw [begins, own_of_ne h]
  rfl

end Chronicle

/-! ## The moments of an action -/

/-- Whether an event is an access. -/
def Event.isAccess : Event → Bool
  | .access .. => true
  | _ => false

/-- The moments of events that come after a number of accesses: before each access the edges that
the plan has for it. -/
def Plan.moments (plan : Plan) : Nat → List Event → List Moment
  | _, [] => []
  | k, .access x ok :: rest =>
    (plan.edges k).map .edge ++ .event (.access x ok) :: plan.moments (k + 1) rest
  | k, e :: rest => .event e :: plan.moments k rest

/-- The edges among later events are those due after the accesses among earlier ones. -/
theorem Plan.moments_append (plan : Plan) (k : Nat) (events later : List Event) :
    plan.moments k (events ++ later) =
      plan.moments k events ++ plan.moments (k + events.countP Event.isAccess) later := by
  -- Only accesses move on in the plan, so the cases are by the kind of the first event.
  induction events generalizing k with
  | nil => rfl
  | cons e events ih =>
    cases e with
    | access x ok =>
      rw [List.cons_append, moments, moments, ih, List.countP_cons_of_pos rfl,
        List.append_assoc, Nat.add_right_comm, Nat.add_assoc]
      rfl
    | _ =>
      rw [List.cons_append, moments, moments, ih, List.countP_cons_of_neg Bool.false_ne_true]
      · rfl
      all_goals exact nofun

/-- Putting edges among events leaves the events as they are. -/
theorem Plan.events_moments (plan : Plan) (k : Nat) (events : List Event) :
    (plan.moments k events).filterMap Moment.event? = events := by
  induction events generalizing k with
  | nil => rfl
  | cons e events ih =>
    cases e with
    | access x ok =>
      have hnone : ((plan.edges k).map Moment.edge).filterMap Moment.event? = [] := by
        rw [List.filterMap_map, List.filterMap_eq_nil_iff]
        exact fun _ _ => rfl
      rw [moments, List.filterMap_append, hnone]
      exact congrArg (Event.access x ok :: ·) (ih (k + 1))
    | _ => exact congrArg (List.cons _) (ih k)

/-- Events and planned edges happen on the bench. -/
theorem Plan.isOnBench_of_mem_moments {plan : Plan} {k : Nat} {events : List Event} {m : Moment}
    (h : m ∈ plan.moments k events) : m.isOnBench = true := by
  induction events generalizing k with
  | nil => cases h
  | cons e events ih =>
    cases e with
    | access x ok =>
      rcases List.mem_append.mp h with h | h
      · obtain ⟨_, _, rfl⟩ := List.mem_map.mp h
        rfl
      · rcases List.mem_cons.mp h with rfl | h
        · rfl
        · exact ih h
    | _ =>
      rcases List.mem_cons.mp h with rfl | h
      · rfl
      · exact ih h

/-- From `s` to `t` the given moments have passed: their events were logged, and their edges came
to the inbox. -/
structure System.Marked (s t : System) (moments : List Moment) : Prop where
  trace : t.bench.trace = s.bench.trace ++ moments.filterMap Moment.event?
  inbox : t.bench.inbox = s.bench.inbox.raiseAll (moments.filterMap Moment.edge?)

/-- Edges may come in two parts. -/
theorem Inbox.raiseAll_append (times later : List Int64) (i : Inbox) :
    i.raiseAll (times ++ later) = (i.raiseAll times).raiseAll later :=
  List.foldl_append

namespace System.Marked

variable {s t u : System} {moments later : List Moment}

/-- Moments pass one after the other. -/
theorem trans (h : s.Marked t moments) (h' : t.Marked u later) :
    s.Marked u (moments ++ later) where
  trace := by rw [h'.trace, h.trace, List.filterMap_append, List.append_assoc]
  inbox := by rw [h'.inbox, h.inbox, List.filterMap_append, Inbox.raiseAll_append]

/-- Nothing was logged, and no edge came. -/
theorem idle (htrace : t.bench.trace = s.bench.trace) (hinbox : t.bench.inbox = s.bench.inbox)
    (hevents : moments.filterMap Moment.event? = [])
    (hedges : moments.filterMap Moment.edge? = []) : s.Marked t moments where
  trace := by rw [htrace, hevents, List.append_nil]
  inbox := by rw [hinbox, hedges, Inbox.raiseAll_nil]

end System.Marked

/-- What an operation on registers logs goes with the edges that the plan has for its accesses. -/
theorem Bench.isSteady_delivered (bank : Byte) (b : Bench) :
    IsSteady bank fun c => ∃ events, c.trace = b.trace ++ events ∧ c.plan = b.plan ∧
      c.accesses = b.accesses + events.countP Event.isAccess ∧
      c.inbox = b.inbox.raiseAll ((b.plan.moments b.accesses events).filterMap Moment.edge?) where
  attempt := by
    rintro c x ⟨events, htrace, hplan, haccesses, hinbox⟩
    refine ⟨events ++ [.access x (c.attempt x).1], ?_, hplan, ?_, ?_⟩
    · rw [← List.append_assoc, ← htrace]
      rfl
    · rw [List.countP_append, ← Nat.add_assoc, ← haccesses]
      rfl
    · have hedges : ∀ times : List Int64,
          (times.map Moment.edge).filterMap Moment.edge? = times := by
        intro times
        rw [List.filterMap_map]
        exact List.filterMap_some
      rw [Plan.moments_append, List.filterMap_append, Inbox.raiseAll_append, ← hinbox,
        ← haccesses, Plan.moments, Plan.moments, List.filterMap_append, hedges,
        Inbox.raiseAll_append, ← hplan]
      rfl
  setChip := fun _ _ h => h
  select := fun _ h => h

/-- The moments of an action. -/
def Action.moments (x : Action) (s : System) : List Moment :=
  match x with
  | .raise now => [.edge now]
  | x => s.bench.plan.moments s.bench.accesses
    ((x.perform s).2.bench.trace.drop s.bench.trace.length)

/-- What an action logs and what comes to the inbox meanwhile are its moments. -/
theorem Action.marked_perform (x : Action) (s : System) :
    s.Marked (x.perform s).2 (x.moments s) := by
  -- An action that logs no access delivers no edge.
  have hother : ∀ (events : List Event) (t : System), t.bench.trace = s.bench.trace ++ events →
      t.bench.inbox = s.bench.inbox → (∀ e ∈ events, e.isAccess = false) →
      s.Marked t (s.bench.plan.moments s.bench.accesses
        (t.bench.trace.drop s.bench.trace.length)) := by
    intro events t htrace hinbox hnone
    rw [htrace, List.drop_left]
    refine ⟨?_, ?_⟩
    · rw [Plan.events_moments, htrace]
    · have hedges : ∀ k, (s.bench.plan.moments k events).filterMap Moment.edge? = [] := by
        intro k
        clear htrace
        induction events with
        | nil => rfl
        | cons e events ih =>
          have he := hnone e List.mem_cons_self
          cases e with
          | access x ok => cases he
          | _ => exact ih fun e' he' => hnone e' (List.mem_cons_of_mem _ he')
      rw [hedges, hinbox]
      rfl
  cases x with
  | register op =>
    obtain ⟨events, htrace, _, _, hinbox⟩ :=
      op.stays_perform (Bench.isSteady_delivered _ s.bench) rfl s.bench
        ⟨[], (List.append_nil _).symm, rfl, rfl, rfl⟩
    have hmoments : (Action.register op).moments s =
        s.bench.plan.moments s.bench.accesses events := by
      change s.bench.plan.moments s.bench.accesses
        ((op.perform.exec s.bench).2.trace.drop s.bench.trace.length) = _
      rw [htrace, List.drop_left]
    rw [hmoments]
    exact ⟨by rw [Plan.events_moments]; exact htrace, hinbox⟩
  | switch r on => exact hother [_] _ rfl rfl (by simp [Event.isAccess])
  | push sample => exact hother [_] _ rfl rfl (by simp [Event.isAccess])
  | raise now => exact ⟨(List.append_nil _).symm, rfl⟩
  | getCore => exact hother [] _ (List.append_nil _).symm rfl (by simp)
  | setCore core => exact hother [] _ (List.append_nil _).symm rfl (by simp)

/-! ## The moments of a task -/

namespace Routine

variable {α : Type}

/-- The moments of a routine up to its next wait. -/
def moments : Routine α → System → List Moment
  | .done _, _ => []
  | .act x next, s => x.moments s ++ (next (x.perform s).1).moments (x.perform s).2
  | .sleep d _, _ => [.event (.delay d)]

/-- Whoever has the lock does nothing but act on the bench. -/
theorem isOnBench_of_mem_moments {x : Routine α} {s : System} {m : Moment}
    (h : m ∈ x.moments s) : m.isOnBench = true := by
  induction x generalizing s with
  | done a => cases h
  | act x next ih =>
    rcases List.mem_append.mp h with h | h
    · cases x with
      | raise now =>
        rw [List.mem_singleton.mp h]
        rfl
      | _ => exact Plan.isOnBench_of_mem_moments h
    · exact ih _ h
  | sleep d rest ih =>
    rw [List.mem_singleton.mp h]
    rfl

/-- So it is for a routine up to its next wait. -/
theorem marked_advance (x : Routine α) (s : System) : s.Marked (x.advance s).2 (x.moments s) := by
  induction x generalizing s with
  | done a => exact .idle rfl rfl rfl rfl
  | act x next ih => exact (x.marked_perform s).trans (ih _ _)
  | sleep d rest ih => exact ⟨rfl, rfl⟩

end Routine

namespace Task

variable {σ : Type} [Sink σ]

/-- The moments of a transition, if the task can make one. -/
def moments : Task σ → System → List Moment
  | .ready (.interrupt now), _ => [.edge now]
  | .ready (.process _), s | .listening _, s => [.begun s.stamp]
  | .holding body, s =>
    body.moments s ++
      match (body.advance s).1 with
      | .done _ => [.done]
      | .asleep _ => []
  | .asleep _, _ => [.event .woke]
  | _, _ => []

omit [Sink σ] in
/-- Whoever has the lock has begun already. -/
theorem isBegun_of_mem_moments {body : Routine (After σ)} {s : System} {m : Moment}
    (h : m ∈ (Task.holding body).moments s) : m.isBegun = false := by
  rcases List.mem_append.mp h with h | h
  · have hbench := Routine.isOnBench_of_mem_moments h
    cases m with
    | begun time => cases hbench
    | _ => rfl
  · split at h
    · rw [List.mem_singleton.mp h]
      rfl
    · cases h

/-- The task takes a wake-up if it makes a transition. -/
def takesWakeUp : Task σ → Bool
  | .ready .awaitInterrupt | .listening _ => true
  | _ => false

/-- A transition that takes a wake-up does nothing else. -/
theorem step_of_takesWakeUp {t t' : Task σ} {s s' : System} (htakes : t.takesWakeUp = true)
    (h : t.step s = some (t', s')) :
    s.bench.inbox.signalled = true ∧ s' = s.withInbox { s.bench.inbox with signalled := false } ∧
      (t.moments s).filterMap Moment.edge? = [] ∧
      (t.moments s).filterMap Moment.event? = [] := by
  have htake : ∀ u, s.takeWakeUp? = some u → s.bench.inbox.signalled = true ∧
      u = s.withInbox { s.bench.inbox with signalled := false } := by
    intro u hu
    obtain ⟨i, hi, rfl⟩ := Option.map_eq_some_iff.mp hu
    unfold Inbox.take? at hi
    split at hi
    · rename_i hsignalled
      cases hi
      exact ⟨hsignalled, rfl⟩
    · cases hi
  cases t with
  | ready call =>
    cases call with
    | awaitInterrupt =>
      obtain ⟨u, hu, he⟩ := Option.map_eq_some_iff.mp h
      cases he
      exact ⟨(htake _ hu).1, (htake _ hu).2, rfl, rfl⟩
    | _ => cases htakes
  | listening sink =>
    obtain ⟨u, hu, he⟩ := Option.map_eq_some_iff.mp h
    cases he
    exact ⟨(htake _ hu).1, (htake _ hu).2, rfl, rfl⟩
  | _ => cases htakes

/-- The moments of every other transition are what happens in it. -/
theorem marked_step {t t' : Task σ} {s s' : System} (htakes : t.takesWakeUp = false)
    (h : t.step s = some (t', s')) : s.Marked s' (t.moments s) := by
  cases t with
  | ready call =>
    cases call with
    | awaitInterrupt => cases htakes
    | _ =>
      cases h
      exact ⟨(List.append_nil _).symm, rfl⟩
  | listening sink => cases htakes
  | queued body =>
    rw [step] at h
    split at h
    · cases h
    · cases h
      exact .idle rfl rfl rfl rfl
  | holding body =>
    have hadvance := body.marked_advance s
    rw [step] at h
    rcases hx : body.advance s with ⟨after | rest, u⟩
    · rw [hx] at h hadvance
      cases h
      have hmoments : (Task.holding body).moments s = body.moments s ++ [.done] := by
        rw [moments, hx]
      rw [hmoments]
      exact hadvance.trans (.idle rfl rfl rfl rfl)
    · rw [hx] at h hadvance
      cases h
      have hmoments : (Task.holding body).moments s = body.moments s := by
        rw [moments, hx, List.append_nil]
      rw [hmoments]
      exact hadvance
  | asleep body =>
    cases h
    exact ⟨rfl, rfl⟩
  | finished r => cases h

/-- The trace of every transition grows by the events among its moments, also if it takes a
wake-up. -/
theorem trace_step {t t' : Task σ} {s s' : System} (h : t.step s = some (t', s')) :
    s'.bench.trace = s.bench.trace ++ (t.moments s).filterMap Moment.event? := by
  cases htakes : t.takesWakeUp with
  | true =>
    obtain ⟨_, rfl, _, hevents⟩ := step_of_takesWakeUp htakes h
    rw [hevents, List.append_nil]
    rfl
  | false => exact (marked_step htakes h).trace

/-- The moments of a task that is resumed. -/
def chronicle : Nat → Task σ → System → List Moment
  | 0, _, _ => []
  | n + 1, t, s =>
    match t.step s with
    | none => []
    | some (.asleep _, _) => t.moments s
    | some (t', s') => t.moments s ++ t'.chronicle n s'

/-- The trace grows by the events among the moments. -/
theorem trace_resume (n : Nat) (t : Task σ) (s : System) :
    (t.resume n s).2.bench.trace =
      s.bench.trace ++ (t.chronicle n s).filterMap Moment.event? := by
  induction n generalizing t s with
  | zero => exact (List.append_nil _).symm
  | succ n ih =>
    cases hx : t.step s with
    | none =>
      rw [resume, chronicle, hx]
      exact (List.append_nil _).symm
    | some next =>
      obtain ⟨t', s'⟩ := next
      have hnext := trace_step hx
      have hrest : (t'.resume n s').2.bench.trace =
          s.bench.trace ++ (t.moments s ++ t'.chronicle n s').filterMap Moment.event? := by
        rw [ih, hnext, List.filterMap_append, List.append_assoc]
      rw [resume, chronicle, hx]
      cases t' with
      | asleep rest => exact hnext
      | _ => exact hrest

end Task

/-! ## The chronicle of a schedule -/

namespace Pool

variable {σ : Type} [Sink σ]

/-- The moments of a resumption of the task at a position. -/
def resumption (wakeUps : Nat) (p : Pool σ) (i : Nat) : Chronicle :=
  match p.tasks[i]? with
  | none | some (.finished _) => []
  | some t => .of i (t.chronicle (Task.stretch wakeUps) p.system)

/-- What happens while tasks are resumed one after the other. -/
def chronicle (wakeUps : Nat) : Pool σ → List Nat → Chronicle
  | _, [] => []
  | p, i :: schedule => p.resumption wakeUps i ++ (p.resume wakeUps i).chronicle wakeUps schedule

/-- What every transition keeps holds of what a resumption adds. -/
theorem resume_chronicle_induction {P : Chronicle → System → List (Task σ) → Prop}
    (hstep : ∀ c s tasks i t t' s', P c s tasks → tasks[i]? = some t →
      t.step s = some (t', s') → P (c ++ .of i (t.moments s)) s' (tasks.set i t'))
    (n : Nat) {c : Chronicle} {s : System} {tasks : List (Task σ)} {i : Nat} {t : Task σ}
    (hP : P c s tasks) (hi : tasks[i]? = some t) :
    P (c ++ .of i (t.chronicle n s)) (t.resume n s).2 (tasks.set i (t.resume n s).1) := by
  have hstay : P (c ++ .of i []) s (tasks.set i t) := by
    rw [Chronicle.of_nil, List.append_nil, set_eq_self hi]
    exact hP
  -- On the number of transitions, with the moments so far in one chronicle.
  induction n generalizing c s tasks t with
  | zero => exact hstay
  | succ n ih =>
    cases hx : t.step s with
    | none =>
      rw [Task.resume, Task.chronicle, hx]
      exact hstay
    | some next =>
      obtain ⟨t', s'⟩ := next
      have hnext := hstep c s tasks i t t' s' hP hi hx
      have hi' : (tasks.set i t')[i]? = some t' := by
        obtain ⟨hlt, _⟩ := List.getElem?_eq_some_iff.mp hi
        exact List.getElem?_set_self hlt
      have hstay' : P (c ++ .of i (t.moments s) ++ .of i []) s' ((tasks.set i t').set i t') := by
        rw [Chronicle.of_nil, List.append_nil, List.set_set]
        exact hnext
      have hrest := ih hnext hi' hstay'
      rw [List.append_assoc, ← Chronicle.of_append, List.set_set] at hrest
      cases t' with
      | asleep rest =>
        rw [Task.resume, Task.chronicle, hx]
        exact hnext
      | _ =>
        rw [Task.resume, Task.chronicle, hx]
        exact hrest

/-- What every transition of every task keeps holds after every schedule. -/
theorem chronicle_induction {P : Chronicle → System → List (Task σ) → Prop}
    (hstep : ∀ c s tasks i t t' s', P c s tasks → tasks[i]? = some t →
      t.step s = some (t', s') → P (c ++ .of i (t.moments s)) s' (tasks.set i t'))
    {p : Pool σ} {c : Chronicle} (hp : P c p.system p.tasks) (wakeUps : Nat)
    (schedule : List Nat) :
    P (c ++ p.chronicle wakeUps schedule) (p.follow wakeUps schedule).system
      (p.follow wakeUps schedule).tasks := by
  induction schedule generalizing p c with
  | nil =>
    rw [chronicle, List.append_nil]
    exact hp
  | cons i schedule ih =>
    rw [chronicle, ← List.append_assoc]
    refine ih ?_
    have hstay : P (c ++ []) p.system p.tasks := by
      rw [List.append_nil]
      exact hp
    cases hi : p.tasks[i]? with
    | none =>
      rw [resumption, resume, hi]
      exact hstay
    | some t =>
      have hnext := resume_chronicle_induction hstep (Task.stretch wakeUps) hp hi
      cases t with
      | finished r =>
        rw [resumption, resume, hi]
        exact hstay
      | _ =>
        rw [resumption, resume, hi]
        exact hnext

/-- The events of a chronicle are the history. -/
theorem events_chronicle (p : Pool σ) (wakeUps : Nat) (schedule : List Nat) :
    (p.chronicle wakeUps schedule).events = p.history wakeUps schedule := by
  induction schedule generalizing p with
  | nil => rfl
  | cons i schedule ih =>
    rw [chronicle, history, Chronicle.events_append, ih]
    refine congrArg (· ++ _) ?_
    have hstay : Chronicle.events [] =
        History.of i (p.system.bench.trace.drop p.system.bench.trace.length) := by
      rw [List.drop_length]
      rfl
    have hresume : ∀ t : Task σ,
        (Chronicle.of i (t.chronicle (Task.stretch wakeUps) p.system)).events =
          History.of i ((t.resume (Task.stretch wakeUps) p.system).2.bench.trace.drop
            p.system.bench.trace.length) := by
      intro t
      rw [Task.trace_resume, List.drop_left, Chronicle.events_of]
    cases hi : p.tasks[i]? with
    | none =>
      rw [resumption, resume, hi]
      exact hstay
    | some t =>
      cases t with
      | finished r =>
        rw [resumption, resume, hi]
        exact hstay
      | _ =>
        rw [resumption, resume, hi]
        exact hresume _

end Pool

end Inertial
