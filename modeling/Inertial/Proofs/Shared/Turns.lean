import Inertial.Proofs.Driver.Blindness
import Inertial.Proofs.Shared.History

/-!
# Taking turns

A task has its turn from when it gets the lock until it gives it back, and during its turn nobody
else does anything. So whatever is promised of the history can be promised turn by turn: a
`Regime` says what holds of the history between two turns, and a routine abides by it if one turn of
it leads from there to there, whatever the inbox becomes meanwhile.

If all tasks abide by a regime, the history after any schedule is one that the regime knows, or the
beginning of one in which the turn that is under way has come to its end (`Pool.governs_follow`).
-/

set_option autoImplicit false

namespace Inertial

/-- What tasks that take turns are asked to keep. -/
structure Regime (σ : Type) where
  /-- The chip before anything was done. -/
  start : SerialChip
  /-- How the record of the device and the registers agree whenever others can look. -/
  agree : Core → Memory → Prop
  /-- Holds of what was done so far whenever nobody has the lock. -/
  rest : History → Prop
  /-- Holds of what was done so far whenever a task can be interrupted. -/
  seen : History → Prop
  /-- Holds of what was done so far whenever the task at a position begins a turn. -/
  fresh : Nat → History → Prop
  /-- Holds of what the task at a position goes on to after a turn. -/
  answers : Nat → After σ → Prop
  seen_of_rest : ∀ {h : History}, rest h → seen h
  seen_woke : ∀ (h : History) (i : Nat), seen (h ++ History.of i [.woke])
  /-- A task cannot spoil the turn of another. -/
  fresh_append : ∀ {i j : Nat} (h : History) (events : List Event), j ≠ i → fresh i h →
    fresh i (h ++ History.of j events)

namespace Regime

variable {σ : Type}

/-- A turn of the task at position `i` has ended as the regime asks. When it began, the history was
`h` and the trace was `past`. -/
def Concludes (D : Regime σ) (i : Nat) (past : List Event) (h : History) (a : After σ)
    (t : System) : Prop :=
  ∃ events, t.bench.trace = past ++ events ∧ D.rest (h ++ History.of i events) ∧ D.answers i a ∧
    ∀ sink, a = .serve sink → D.fresh i (h ++ History.of i events)

/-- A turn that began like this has come to a wait at which the regime lets it be interrupted. -/
def Pauses (D : Regime σ) (i : Nat) (past : List Event) (h : History) (t : System) : Prop :=
  ∃ events, t.bench.trace = past ++ events ∧ D.seen (h ++ History.of i events)

/-- Any turn that the task at position `i` has with the routine goes as the regime asks. -/
def Abides (D : Regime σ) (i : Nat) (x : Routine (After σ)) : Prop :=
  ∀ (h : History) (s : System), s.Agrees D.agree →
    s.bench.chip = replay (h.map Prod.snd) D.start → D.rest h → D.fresh i h →
    x.Upholds (D.Pauses i s.bench.trace h) (D.Concludes i s.bench.trace h) s

end Regime

namespace Task

variable {σ : Type} [Sink σ]

/-- What is left of the call abides by the regime. `h` is the history so far, in which a turn that
is under way has left `own`. -/
def Follows (D : Regime σ) (i : Nat) (h : History) : Task σ → System → Prop
  | .ready (.operation op), _ => D.fresh i h ∧ D.Abides i (After.reply <$> op.body)
  | .ready (.process sink), _ => D.fresh i h ∧ ∀ time, D.Abides i (processBody time sink)
  | .ready (.serve sink), _ => D.fresh i h ∧ ∀ time, D.Abides i (serveBody time sink)
  | .ready _, _ => ∀ r, D.answers i (.reply r)
  | .listening sink, _ => D.fresh i h ∧ ∀ time, D.Abides i (serveBody time sink)
  | .queued body, _ => D.fresh i h ∧ D.Abides i body
  | .holding body, s => ∃ past before own, h = before ++ History.of i own ∧
    s.bench.trace = past ++ own ∧
    ∀ inbox, body.Upholds (D.Pauses i past before) (D.Concludes i past before)
      (s.withInbox inbox)
  | .asleep body, s => ∃ past before own, h = before ++ History.of i own ∧
    s.bench.trace = past ++ own ∧
    ∀ inbox, body.Upholds (D.Pauses i past before) (D.Concludes i past before)
      ((s.withInbox inbox).log .woke)
  | .finished r, _ => D.answers i (.reply r)

variable {D : Regime σ} {i j : Nat} {h : History} {t t' : Task σ} {s s' : System}

/-- A transition without the lock leaves the promise as it is. -/
theorem Follows.step (ht : t.Follows D i h s) (hlock : t.hasLock = false)
    (hlock' : t'.hasLock = false) (hstep : t.step s = some (t', s')) : t'.Follows D i h s' := by
  cases t with
  | ready call =>
    cases call with
    | operation op =>
      cases hstep
      exact ht
    | identity =>
      cases hstep
      exact ht _
    | interrupt now =>
      cases hstep
      exact ht _
    | awaitInterrupt =>
      obtain ⟨u, _, he⟩ := Option.map_eq_some_iff.mp hstep
      cases he
      exact ht _
    | process sink =>
      cases hstep
      exact ⟨ht.1, ht.2 _⟩
    | serve sink =>
      cases hstep
      exact ht
  | listening sink =>
    obtain ⟨u, _, he⟩ := Option.map_eq_some_iff.mp hstep
    cases he
    exact ⟨ht.1, ht.2 _⟩
  | queued body =>
    rw [Task.step] at hstep
    split at hstep
    · cases hstep
    · cases hstep
      cases hlock'
  | holding body => cases hlock
  | asleep body => cases hlock
  | finished r => cases hstep

/-- What another task does leaves the promise of a task without the lock as it is. -/
theorem Follows.of_other (ht : t.Follows D i h s) (hlock : t.hasLock = false) (hji : j ≠ i)
    (events : List Event) : t.Follows D i (h ++ History.of j events) s' := by
  cases t with
  | ready call =>
    cases call with
    | operation op => exact ⟨D.fresh_append h events hji ht.1, ht.2⟩
    | process sink => exact ⟨D.fresh_append h events hji ht.1, ht.2⟩
    | serve sink => exact ⟨D.fresh_append h events hji ht.1, ht.2⟩
    | _ => exact ht
  | listening sink => exact ⟨D.fresh_append h events hji ht.1, ht.2⟩
  | queued body => exact ⟨D.fresh_append h events hji ht.1, ht.2⟩
  | holding body => cases hlock
  | asleep body => cases hlock
  | finished r => exact ht

omit [Sink σ] in
/-- A change of the inbox breaks no promise. -/
theorem Follows.withInbox [Sink σ] (ht : t.Follows D i h s) (inbox : Inbox) :
    t.Follows D i h (s.withInbox inbox) := by
  cases t with
  | ready call => cases call <;> exact ht
  | _ => exact ht

omit [Sink σ] in
/-- What a turn is going to conclude continues the history so far. -/
theorem exists_rest_of_upholds {past : List Event} {before : History} {own : List Event}
    {body : Routine (After σ)} (htrace : s.bench.trace = past ++ own)
    (hup : body.Upholds (D.Pauses i past before) (D.Concludes i past before) s) :
    ∃ later, D.rest (before ++ History.of i own ++ later) := by
  obtain ⟨events, hevents, hrest, _⟩ := Routine.upholds_run hup
  obtain ⟨more, hmore⟩ := body.exists_trace_run s
  have hown : events = own ++ more := by
    refine (List.append_right_inj past).mp ?_
    rw [← hevents, hmore, htrace, List.append_assoc]
  refine ⟨History.of i more, ?_⟩
  rw [List.append_assoc, ← History.of_append, ← hown]
  exact hrest

/-- Whoever has the lock is going to conclude its turn. -/
theorem Follows.exists_rest (ht : t.Follows D i h s) (hlock : t.hasLock = true) :
    ∃ later, D.rest (h ++ later) := by
  cases t with
  | holding body =>
    obtain ⟨past, before, own, rfl, htrace, hup⟩ := ht
    exact exists_rest_of_upholds htrace (hup s.bench.inbox)
  | asleep body =>
    obtain ⟨past, before, own, rfl, htrace, hup⟩ := ht
    have htrace' : (s.log .woke).bench.trace = past ++ (own ++ [.woke]) := by
      rw [← List.append_assoc, ← htrace]
      rfl
    obtain ⟨later, hlater⟩ := exists_rest_of_upholds htrace' (hup s.bench.inbox)
    rw [History.of_append, ← List.append_assoc, List.append_assoc] at hlater
    exact ⟨_, hlater⟩
  | _ => cases hlock

end Task

/-- The chip is what the history makes of it, the history is one that the regime knows, and all
tasks keep their promise. -/
structure Orderly {σ : Type} [Sink σ] (D : Regime σ) (h : History) (s : System)
    (tasks : List (Task σ)) : Prop where
  chip : s.bench.chip = replay (h.map Prod.snd) D.start
  rest : s.locked = false → D.rest h
  seen : D.seen h
  exists_rest : ∃ later, D.rest (h ++ later)
  follows : ∀ (i : Nat) (t : Task σ), tasks[i]? = some t → t.Follows D i h s

namespace Orderly

variable {σ : Type} [Sink σ] {D : Regime σ} {h : History} {s s' : System} {tasks : List (Task σ)}
  {t t' : Task σ} {i : Nat} {events : List Event}

/-- While no other task has the lock, a task may do anything that keeps its own promise. -/
theorem set (hO : Orderly D h s tasks)
    (hother : ∀ (j : Nat) (u : Task σ), j ≠ i → tasks[j]? = some u → u.hasLock = false)
    (hlogged : s.Logged s' events) (hrest : s'.locked = false → D.rest (h ++ History.of i events))
    (hseen : D.seen (h ++ History.of i events))
    (hexists : ∃ later, D.rest (h ++ History.of i events ++ later))
    (hfollows : t'.Follows D i (h ++ History.of i events) s') :
    Orderly D (h ++ History.of i events) s' (tasks.set i t') := by
  refine ⟨?_, hrest, hseen, hexists, ?_⟩
  · rw [hlogged.chip, hO.chip, List.map_append, History.map_snd_of, replay_append]
  · intro j u hj
    rcases getElem?_set_cases hj with ⟨rfl, rfl⟩ | ⟨hji, hj⟩
    · exact hfollows
    · exact (hO.follows j u hj).of_other (hother j u hji hj) hji.symm events

/-- Who has the lock and keeps it may do anything that keeps its own promise. -/
theorem set_of_hasLock (hO : Orderly D h s tasks) (hG : Guarded D.agree s tasks)
    (hi : tasks[i]? = some t) (ht : t.hasLock = true) (hlogged : s.Logged s' events)
    (hlocked : s'.locked = s.locked) (ht' : t'.hasLock = true)
    (hseen : D.seen (h ++ History.of i events))
    (hfollows : t'.Follows D i (h ++ History.of i events) s') :
    Orderly D (h ++ History.of i events) s' (tasks.set i t') := by
  refine hO.set (hG.not_hasLock hi ht) hlogged ?_ hseen (hfollows.exists_rest ht') hfollows
  intro hfree
  rw [hlocked, hG.locked_of_hasLock hi ht] at hfree
  cases hfree

/-- One transition of one task keeps everything. -/
theorem step (hserve : ∀ i sink, D.answers i (.serve sink) →
      ∀ time, D.Abides i (Task.serveBody time sink))
    (hO : Orderly D h s tasks) (hG : Guarded D.agree s tasks) (hi : tasks[i]? = some t)
    (hstep : t.step s = some (t', s')) (hlogged : s.Logged s' events) :
    Orderly D (h ++ History.of i events) s' (tasks.set i t') := by
  have ht := hO.follows i t hi
  rcases Task.step_cases hstep with ⟨hlock, hlock', ⟨inbox, rfl⟩, _⟩ |
    ⟨body, rfl, hs, rfl, rfl⟩ | ⟨body, rfl, rfl, rfl⟩ | ⟨body, rest, rfl, hx, rfl⟩ |
    ⟨body, after, u, rfl, hx, rfl, rfl⟩
  · -- Nothing is done, so the history is the same and the promises of the others stand.
    have hnone : events = [] :=
      List.append_cancel_left (hlogged.trace.symm.trans (List.append_nil _).symm)
    rw [hnone, History.of_nil, List.append_nil]
    refine ⟨hO.chip, hO.rest, hO.seen, hO.exists_rest, ?_⟩
    intro j v hj
    rcases getElem?_set_cases hj with ⟨rfl, rfl⟩ | ⟨_, hj⟩
    · exact ht.step hlock hlock' hstep
    · exact (hO.follows j v hj).withInbox inbox
  · -- The turn begins, and nobody else is having one.
    have hnone : events = [] :=
      List.append_cancel_left (hlogged.trace.symm.trans (List.append_nil _).symm)
    have hbegin : (Task.holding body).Follows D i (h ++ History.of i events)
        { s with locked := true } := by
      rw [hnone, History.of_nil, List.append_nil]
      refine ⟨s.bench.trace, h, [], (List.append_nil h).symm, (List.append_nil _).symm, ?_⟩
      intro inbox
      exact ht.2 h (System.withInbox inbox { s with locked := true }) hG.agrees hO.chip (hO.rest hs)
        ht.1
    have hseen : D.seen (h ++ History.of i events) := by
      rw [hnone, History.of_nil, List.append_nil]
      exact hO.seen
    exact hO.set (fun j v _ hj => hG.free hs j v hj) hlogged (fun hfree => nomatch hfree) hseen
      (hbegin.exists_rest rfl) hbegin
  · -- The wait is over; what the task promised at its beginning still stands.
    have hwoke : events = [.woke] := List.append_cancel_left hlogged.trace.symm
    obtain ⟨past, before, own, rfl, htrace, hup⟩ := ht
    refine hO.set_of_hasLock hG hi rfl hlogged rfl rfl (hwoke ▸ D.seen_woke _ i)
      ⟨past, before, own ++ events, ?_, ?_, hup⟩
    · rw [History.of_append, List.append_assoc]
    · rw [hlogged.trace, htrace, List.append_assoc]
  · -- A wait begins, so what was done until now is a pause that the regime allows.
    obtain ⟨past, before, own, rfl, htrace, hup⟩ := ht
    have hrest := Routine.upholds_advance (hup s.bench.inbox)
    have hlocked := body.advance_locked s
    rw [show s.withInbox s.bench.inbox = s from rfl, hx] at hrest
    rw [hx] at hlocked
    have hnow : s'.bench.trace = past ++ (own ++ events) := by
      rw [hlogged.trace, htrace, List.append_assoc]
    obtain ⟨⟨all, hall, hseen⟩, hup'⟩ := hrest
    have hown : all = own ++ events := List.append_cancel_left (hall.symm.trans hnow)
    rw [hown, History.of_append, ← List.append_assoc] at hseen
    refine hO.set_of_hasLock hG hi rfl hlogged hlocked rfl hseen
      ⟨past, before, own ++ events, ?_, hnow, hup'⟩
    rw [History.of_append, List.append_assoc]
  · -- The turn is over, and it has concluded as the regime asks.
    obtain ⟨past, before, own, rfl, htrace, hup⟩ := ht
    have hdone := Routine.upholds_advance (hup s.bench.inbox)
    rw [show s.withInbox s.bench.inbox = s from rfl, hx] at hdone
    obtain ⟨all, hall, hrest, hanswers, hfresh⟩ := hdone
    have hnow : u.bench.trace = past ++ (own ++ events) := by
      rw [← List.append_assoc, ← htrace]
      exact hlogged.trace
    have hown : all = own ++ events := List.append_cancel_left (hall.symm.trans hnow)
    rw [hown, History.of_append, ← List.append_assoc] at hrest hfresh
    refine hO.set (hG.not_hasLock hi rfl) hlogged (fun _ => hrest) (D.seen_of_rest hrest)
      ⟨[], (List.append_nil _).symm ▸ hrest⟩ ?_
    cases after with
    | reply r => exact hanswers
    | serve sink => exact ⟨hfresh sink rfl, hserve i sink hanswers⟩

end Orderly

/-- Tasks share a lock and abide by a regime. -/
def Regime.Governs {σ : Type} [Sink σ] (D : Regime σ) (h : History) (s : System)
    (tasks : List (Task σ)) : Prop :=
  Guarded D.agree s tasks ∧ Orderly D h s tasks

section

variable {σ : Type} [Sink σ] {D : Regime σ}
  (hserve : ∀ i sink, D.answers i (.serve sink) → ∀ time, D.Abides i (Task.serveBody time sink))
include hserve

/-- A regime governs a pool after every transition. -/
theorem Regime.Governs.step (h : History) (s : System) (tasks : List (Task σ)) (i : Nat)
    (t t' : Task σ) (s' : System) (events : List Event) (hD : D.Governs h s tasks)
    (hi : tasks[i]? = some t) (hstep : t.step s = some (t', s')) (hlogged : s.Logged s' events) :
    D.Governs (h ++ History.of i events) s' (tasks.set i t') :=
  ⟨hD.1.step hi hstep, hD.2.step hserve hD.1 hi hstep hlogged⟩

/-- A regime that governs a pool does so after every schedule. -/
theorem Pool.governs_follow {p : Pool σ} {h : History} (hD : D.Governs h p.system p.tasks)
    (wakeUps : Nat) (schedule : List Nat) :
    D.Governs (h ++ p.history wakeUps schedule) (p.follow wakeUps schedule).system
      (p.follow wakeUps schedule).tasks :=
  history_induction (Regime.Governs.step hserve) hD wakeUps schedule

end

end Inertial
