import Inertial.Proofs.Driver.Blindness
import Inertial.Proofs.Shared.Covenant

/-!
# One turn after the other

A task has its turn from when it takes the device lock until it gives it back. The ledger has an
entry for every turn that is over: the operation that it was for with the answer, what was logged
meanwhile, and the record of the device as the task found it and as the task left it.

So whatever is said of a run can be said of its turns. `System.IsReachableThrough` are the systems
that can be reached, with the turns that were taken on the way to them. If a property of the turns
and the system is kept by every operation and every sample done without interruption
(`IsKeptByTurns`), it holds in all of them while nobody has the lock
(`System.IsReachableThrough.holds`).
-/

set_option autoImplicit false

namespace Inertial

/-- What a task did while it had the lock. -/
structure Turn where
  /-- The operation with its answer, and none for a sample. -/
  answered : Option (Operation × Reply)
  /-- The record of the device when the task took the lock. -/
  found : Core
  events : List Event
  /-- The record of the device when the task gave the lock back. -/
  left : Core
deriving DecidableEq

/-- The turn that leads from one system to another. -/
def Turn.between (answered : Option (Operation × Reply)) (s t : System) : Turn where
  answered := answered
  found := s.core
  events := t.bench.trace.drop s.bench.trace.length
  left := t.core

/-- The turns that are over, and how the one that is under way began. -/
structure Ledger where
  turns : List Turn := []
  /-- The record of the device when the lock was last taken. -/
  found : Core
  /-- How many events there were then. -/
  since : Nat

namespace Ledger

/-- The turns with the one that has led to a system. -/
def close (l : Ledger) (answered : Option (Operation × Reply)) (s : System) : List Turn :=
  l.turns ++ [{ answered, found := l.found, events := s.bench.trace.drop l.since, left := s.core }]

/-- Notes who takes the lock and who gives it back. -/
def note {σ : Type} (c : Call σ) (t t' : Task σ) (s s' : System) (l : Ledger) : Ledger :=
  match t.hasLock, t'.hasLock with
  | false, true => { l with found := s.core, since := s.bench.trace.length }
  | true, false => { l with turns := l.close (c.note t'.reply?).head? s' }
  | _, _ => l

end Ledger

/-- The ledger after the task of a call has been resumed. -/
def Task.ledger {σ : Type} [Sink σ] (c : Call σ) : Nat → Task σ → System → Ledger → Ledger
  | 0, _, _, l => l
  | n + 1, t, s, l =>
    match t.step s with
    | none => l
    | some (.asleep rest, s') => l.note c t (.asleep rest) s s'
    | some (t', s') => t'.ledger c n s' (l.note c t t' s s')

namespace Pool

variable {σ : Type} [Sink σ]

/-- The ledger after the task at a position has been resumed. -/
def enter (calls : List (Call σ)) (wakeUps : Nat) (p : Pool σ) (i : Nat) (l : Ledger) : Ledger :=
  match calls[i]?, p.tasks[i]? with
  | some c, some t => t.ledger c (Task.stretch wakeUps) p.system l
  | _, _ => l

/-- The ledger after tasks have been resumed by position, one after the other. -/
def ledger (calls : List (Call σ)) (wakeUps : Nat) : Pool σ → List Nat → Ledger → Ledger
  | _, [], l => l
  | p, i :: schedule, l =>
    (p.resume wakeUps i).ledger calls wakeUps schedule (p.enter calls wakeUps i l)

/-- The turns that tasks take when they are resumed by position. -/
def turns (calls : List (Call σ)) (wakeUps : Nat) (schedule : List Nat) (s : System) : List Turn :=
  ((ofCalls calls s).ledger calls wakeUps schedule { found := s.core, since := 0 }).turns

/-- What every transition keeps, with the ledger, holds after the task of a call has been resumed.
-/
theorem resume_ledger_induction {calls : List (Call σ)}
    {P : Ledger → System → List (Task σ) → Prop}
    (hstep : ∀ l s tasks i c t t' s', P l s tasks → calls[i]? = some c → tasks[i]? = some t →
      t.step s = some (t', s') → P (l.note c t t' s s') s' (tasks.set i t'))
    (n : Nat) {l : Ledger} {s : System} {tasks : List (Task σ)} {i : Nat} {c : Call σ} {t : Task σ}
    (hP : P l s tasks) (hc : calls[i]? = some c) (hi : tasks[i]? = some t) :
    P (t.ledger c n s l) (t.resume n s).2 (tasks.set i (t.resume n s).1) := by
  induction n generalizing l s tasks t with
  | zero =>
    rw [Task.ledger, Task.resume, set_eq_self hi]
    exact hP
  | succ n ih =>
    cases hx : t.step s with
    | none =>
      rw [Task.ledger, Task.resume, hx, set_eq_self hi]
      exact hP
    | some next =>
      obtain ⟨t', s'⟩ := next
      have hnext := hstep l s tasks i c t t' s' hP hc hi hx
      have hi' : (tasks.set i t')[i]? = some t' := by
        obtain ⟨hlt, _⟩ := List.getElem?_eq_some_iff.mp hi
        exact List.getElem?_set_self hlt
      have hrest := ih hnext hi'
      rw [List.set_set] at hrest
      cases t' with
      | asleep rest =>
        rw [Task.ledger, Task.resume, hx]
        exact hnext
      | _ =>
        rw [Task.ledger, Task.resume, hx]
        exact hrest

/-- What every transition of every task keeps, with the ledger, holds after every schedule. -/
theorem ledger_induction {calls : List (Call σ)} {P : Ledger → System → List (Task σ) → Prop}
    (hcalls : ∀ l s tasks, P l s tasks → ∀ (i : Nat) (t : Task σ), tasks[i]? = some t →
      ∃ c, calls[i]? = some c)
    (hstep : ∀ l s tasks i c t t' s', P l s tasks → calls[i]? = some c → tasks[i]? = some t →
      t.step s = some (t', s') → P (l.note c t t' s s') s' (tasks.set i t'))
    {p : Pool σ} {l : Ledger} (hp : P l p.system p.tasks) (wakeUps : Nat) (schedule : List Nat) :
    P (p.ledger calls wakeUps schedule l) (p.follow wakeUps schedule).system
      (p.follow wakeUps schedule).tasks := by
  induction schedule generalizing p l with
  | nil => exact hp
  | cons i schedule ih =>
    refine ih ?_
    cases hi : p.tasks[i]? with
    | none =>
      have henter : p.enter calls wakeUps i l = l := by
        rw [enter, hi]
        split <;> simp_all
      rw [henter, resume, hi]
      exact hp
    | some t =>
      obtain ⟨c, hc⟩ := hcalls l p.system p.tasks hp i t hi
      have hnext := resume_ledger_induction hstep (Task.stretch wakeUps) hp hc hi
      rw [enter, hc, hi, resume, hi]
      cases t with
      | finished r => exact hp
      | _ => exact hnext

end Pool

/-- The systems in which a device can be found after it was powered up, with what had been logged
then and the turns that have been taken since. -/
inductive System.IsReachableThrough (past : List Event) : List Turn → System → Prop where
  | powerUp {bench : Bench} {chip : Chip} {interrupt : PinSetup} (hin : bench.InStep)
      (hok : ((Driver.powerUp chip interrupt).exec { bench, core := .fresh chip }).1 = .ok ())
      (hpast : ((Driver.powerUp chip interrupt).exec
        { bench, core := .fresh chip }).2.bench.trace = past) :
      IsReachableThrough past []
        (((Driver.powerUp chip interrupt).exec { bench, core := .fresh chip }).2.withInbox {})
  | follow {σ : Type} [Sink σ] {turns : List Turn} {s : System}
      (hs : IsReachableThrough past turns s) (hfree : s.locked = false)
      (calls : List (Call σ)) (wakeUps : Nat) (schedule : List Nat) :
      IsReachableThrough past (turns ++ Pool.turns calls wakeUps schedule s)
        ((Pool.ofCalls calls s).follow wakeUps schedule).system

/-- Whatever is reached through turns is reachable. -/
theorem System.IsReachableThrough.isReachable {past : List Event} {turns : List Turn} {s : System}
    (hs : s.IsReachableThrough past turns) : s.IsReachable := by
  induction hs with
  | powerUp hin hok _ => exact .powerUp hin hok
  | follow _ hfree calls wakeUps schedule ih => exact ih.follow hfree calls wakeUps schedule

/-- Some turns have been taken on the way to every system that can be reached. -/
theorem System.IsReachable.exists_isReachableThrough {s : System} (hs : s.IsReachable) :
    ∃ past turns, s.IsReachableThrough past turns := by
  induction hs with
  | powerUp hin hok => exact ⟨_, [], .powerUp hin hok rfl⟩
  | follow _ hfree calls wakeUps schedule ih =>
    obtain ⟨past, turns, hs⟩ := ih
    exact ⟨past, _, hs.follow hfree calls wakeUps schedule⟩

/-- The turns of the first calls are all that there are. -/
theorem System.IsReachableThrough.first {σ : Type} [Sink σ] {past : List Event} {s : System}
    (hs : s.IsReachableThrough past []) (hfree : s.locked = false) (calls : List (Call σ))
    (wakeUps : Nat) (schedule : List Nat) :
    ((Pool.ofCalls calls s).follow wakeUps schedule).system.IsReachableThrough past
      (Pool.turns calls wakeUps schedule s) := by
  have h := hs.follow hfree calls wakeUps schedule
  rw [List.nil_append] at h
  exact h

/-! ## Turns without interruption -/

/-- The benches are the same but for the inbox. -/
def Bench.SameButInbox (b c : Bench) : Prop :=
  ∃ i, c = { b with inbox := i }

/-- Nothing that is done on a bench looks at the inbox. -/
theorem Bench.isLikeness_sameButInbox : IsLikeness SameButInbox where
  chip := by
    rintro b _ ⟨i, rfl⟩
    rfl
  bus := by
    rintro b _ ⟨i, rfl⟩
    rfl
  setChip := by
    rintro b _ ⟨i, rfl⟩ chip
    exact ⟨i, rfl⟩
  setBus := by
    rintro b _ ⟨i, rfl⟩ bus
    exact ⟨i, rfl⟩
  attempt := by
    rintro b _ ⟨i, rfl⟩ x
    exact ⟨rfl, i.raiseAll (b.plan.edges b.accesses), rfl⟩
  switch := by
    rintro b _ ⟨i, rfl⟩ r on
    exact ⟨rfl, i, rfl⟩
  raise := by
    rintro b _ ⟨i, rfl⟩ now
    exact ⟨i.raise now, rfl⟩
  log := by
    rintro b _ ⟨i, rfl⟩ e
    exact ⟨i, rfl⟩

/-- Systems that look the same but for the inbox differ in that and in whether the lock is taken. -/
theorem System.Like.eq_withInbox {s t : System} (h : s.Like Bench.SameButInbox t) :
    ∃ i, t = { s.withInbox i with locked := t.locked } := by
  obtain ⟨⟨i, hbench⟩, hcore⟩ := h
  obtain ⟨bench, core, locked⟩ := t
  dsimp only at hbench hcore
  subst hbench hcore
  exact ⟨i, rfl⟩

/-- What holds of a run that is not interrupted, whatever the inbox is at its end and whoever has
the lock, holds of every run. -/
theorem Routine.upholds_of_run {α : Type} {Q : α → System → Prop}
    (hQ : ∀ a t (i : Inbox) (locked : Bool), Q a t → Q a { t.withInbox i with locked })
    {x : Routine α} {s : System} (h : Q (x.run s).1 (x.run s).2) :
    x.Upholds (fun _ => True) Q s := by
  induction x generalizing s with
  | done a => exact h
  | act x next ih => exact ih _ h
  | sleep d rest ih =>
    refine ⟨trivial, fun i => ih ?_⟩
    have hlike : (wait d s).Like Bench.SameButInbox (((s.log (.delay d)).withInbox i).log .woke) :=
      ⟨⟨i, rfl⟩, rfl⟩
    obtain ⟨hanswer, hafter⟩ := rest.run_like Bench.isLikeness_sameButInbox hlike
    obtain ⟨j, hj⟩ := hafter.eq_withInbox
    rw [← hanswer, hj]
    exact hQ _ _ j _ h

/-- Every operation and every sample, done without interruption, leads from where `K` holds to where
it holds with one more turn. -/
structure IsKeptByTurns (K : List Turn → System → Prop) : Prop where
  /-- What others can do while somebody has the lock, and taking it and giving it back. -/
  around : ∀ {turns s} (i : Inbox) (locked : Bool), K turns s →
    K turns { s.withInbox i with locked }
  operation : ∀ {turns s} (op : Operation), K turns s →
    K (turns ++ [.between (some (op, (op.body.run s).1)) s (op.body.run s).2]) (op.body.run s).2
  sample : ∀ {σ : Type} [Sink σ] {turns s} (time : Int64) (sink : σ), K turns s →
    K (turns ++ [.between none s ((Driver.takeSample time sink).run s).2])
      ((Driver.takeSample time sink).run s).2

namespace IsKeptByTurns

variable {K : List Turn → System → Prop} {σ : Type}

/-- With the turn that ends like this `K` holds, and only a call that is no operation serves on. -/
def Concludes (K : List Turn → System → Prop) (c : Call σ) (l : Ledger) (a : After σ)
    (t : System) : Prop :=
  K (l.close (c.note (Task.ofAfter a).reply?).head? t) t ∧
    ∀ sink, a = .serve sink → ∀ r, c.note r = []

/-- Begun where `K` holds, a turn with the work for a call ends where it does. -/
def Abides (K : List Turn → System → Prop) (c : Call σ) (x : Routine (After σ)) : Prop :=
  ∀ l s, K l.turns s → l.found = s.core → l.since = s.bench.trace.length →
    x.Upholds (fun _ => True) (Concludes K c l) s

variable [Sink σ]

omit [Sink σ] in
/-- It is enough that a run without interruption ends where `K` holds. -/
theorem concludes_of_run (hK : IsKeptByTurns K) {c : Call σ} {x : Routine (After σ)} {l : Ledger}
    {s : System} (h : Concludes K c l (x.run s).1 (x.run s).2) :
    x.Upholds (fun _ => True) (Concludes K c l) s := by
  refine Routine.upholds_of_run ?_ h
  intro a t i locked ha
  exact ⟨hK.around i locked ha.1, ha.2⟩

omit [Sink σ] in
/-- The turn of an operation keeps what all turns keep. -/
theorem abides_operation (hK : IsKeptByTurns K) (op : Operation) :
    Abides K (.operation op : Call σ) (After.reply <$> op.body) := by
  intro l s hs hfound hsince
  apply hK.concludes_of_run
  have hturn := hK.operation op hs
  rw [Turn.between, ← hfound, ← hsince] at hturn
  rw [← bind_pure_comp, Routine.run_bind]
  exact ⟨hturn, fun sink h => nomatch h⟩

variable {c : Call σ} (hc : ∀ r, c.note r = [])
include hc

/-- So does the turn of a sample call. -/
theorem abides_processBody (hK : IsKeptByTurns K) (time : Int64) (sink : σ) :
    Abides K c (Task.processBody time sink) := by
  intro l s hs hfound hsince
  apply hK.concludes_of_run
  have hturn := hK.sample time sink hs
  rw [Turn.between, ← hfound, ← hsince] at hturn
  rw [Task.processBody, Routine.run_bind]
  refine ⟨?_, fun sink h => nomatch h⟩
  rw [hc]
  exact hturn

/-- So does each turn of a worker. -/
theorem abides_serveBody (hK : IsKeptByTurns K) (time : Int64) (sink : σ) :
    Abides K c (Task.serveBody time sink) := by
  intro l s hs hfound hsince
  apply hK.concludes_of_run
  have hturn := hK.sample time sink hs
  rw [Turn.between, ← hfound, ← hsince] at hturn
  rw [Task.serveBody, Routine.run_bind]
  refine ⟨?_, fun _ _ => hc⟩
  rw [hc]
  exact hturn

end IsKeptByTurns

/-! ## Turns of tasks -/

open IsKeptByTurns in
/-- What is left of the call `c` leads to where `K` holds. -/
def Task.Tends {σ : Type} (K : List Turn → System → Prop) (c : Call σ) (l : Ledger) :
    Task σ → System → Prop
  | .ready d, _ => d = c
  | .queued body, _ => Abides K c body
  | .holding body, s => ∀ i, body.Upholds (fun _ => True) (Concludes K c l) (s.withInbox i)
  | .asleep body, s =>
    ∀ i, body.Upholds (fun _ => True) (Concludes K c l) ((s.withInbox i).log .woke)
  | .listening _, _ => ∀ r, c.note r = []
  | .finished _, _ => True

namespace Task.Tends

variable {K : List Turn → System → Prop} {σ : Type} {c : Call σ} {l : Ledger} {u u' : Task σ}
  {s s' : System}

/-- The promise of a task without the lock is about its call only. -/
theorem of_not_hasLock {later : Ledger} (hu : u.Tends K c l s) (hlock : u.hasLock = false) :
    u.Tends K c later s' := by
  cases u with
  | holding body => cases hlock
  | asleep body => cases hlock
  | _ => exact hu

/-- What a task tends to does not look at the inbox. -/
theorem withInbox (hu : u.Tends K c l s) (i : Inbox) : u.Tends K c l (s.withInbox i) := by
  cases u <;> exact hu

/-- A transition without the lock leaves the promise as it is. -/
theorem step [Sink σ] (hK : IsKeptByTurns K) (hu : u.Tends K c l s) (hlock : u.hasLock = false)
    (hlock' : u'.hasLock = false) (hstep : u.step s = some (u', s')) : u'.Tends K c l s' := by
  cases u with
  | ready call =>
    subst hu
    cases call with
    | operation op =>
      cases hstep
      exact hK.abides_operation op
    | identity =>
      cases hstep
      trivial
    | interrupt now =>
      cases hstep
      trivial
    | awaitInterrupt =>
      obtain ⟨_, _, he⟩ := Option.map_eq_some_iff.mp hstep
      cases he
      trivial
    | process sink =>
      cases hstep
      exact hK.abides_processBody (fun _ => rfl) _ sink
    | serve sink =>
      cases hstep
      exact fun _ => rfl
  | listening sink =>
    obtain ⟨_, _, he⟩ := Option.map_eq_some_iff.mp hstep
    cases he
    exact hK.abides_serveBody hu _ sink
  | queued body =>
    rw [Task.step] at hstep
    split at hstep
    · cases hstep
    · cases hstep
      cases hlock'
  | holding body => cases hlock
  | asleep body => cases hlock
  | finished r => cases hstep

end Task.Tends

/-- After the turns that are in the ledger, `K` holds, and every task has promised that it is going
to. -/
structure Ledger.Governs {σ : Type} (K : List Turn → System → Prop) (calls : List (Call σ))
    (l : Ledger) (s : System) (tasks : List (Task σ)) : Prop where
  guarded : Guarded Core.Mirrored s tasks
  rest : s.locked = false → K l.turns s
  tends : ∀ (i : Nat) (t : Task σ), tasks[i]? = some t →
    ∃ c, calls[i]? = some c ∧ t.Tends K c l s

namespace Ledger.Governs

variable {K : List Turn → System → Prop} {σ : Type} {calls : List (Call σ)} {l l' : Ledger}
  {s s' : System} {tasks : List (Task σ)} {i : Nat} {c : Call σ} {u u' : Task σ}

/-- Before they begin, calls are governed by a ledger that is right. -/
theorem ofCalls (hagrees : s.Agrees Core.Mirrored) (hs : K l.turns s) :
    l.Governs K calls s (calls.map Task.ready) where
  guarded := .ofCalls hagrees fun op _ => op.keeps_mirrored
  rest := fun _ => hs
  tends := by
    intro i t hi
    rw [List.getElem?_map] at hi
    obtain ⟨c, hc, rfl⟩ := Option.map_eq_some_iff.mp hi
    exact ⟨c, hc, rfl⟩

/-- A task may be replaced if `K` goes on to hold when nobody has the lock and if all promises
stand. -/
theorem set (h : l.Governs K calls s tasks) (hc : calls[i]? = some c)
    (hguarded : Guarded Core.Mirrored s' (tasks.set i u'))
    (hrest : s'.locked = false → K l'.turns s') (hown : u'.Tends K c l' s')
    (hother : ∀ (j : Nat) (t : Task σ), j ≠ i → tasks[j]? = some t → ∀ d,
      t.Tends K d l s → t.Tends K d l' s') :
    l'.Governs K calls s' (tasks.set i u') := by
  refine ⟨hguarded, hrest, ?_⟩
  intro j t hj
  rcases getElem?_set_cases hj with ⟨rfl, rfl⟩ | ⟨hji, hj⟩
  · exact ⟨c, hc, hown⟩
  · obtain ⟨d, hd, ht⟩ := h.tends j t hj
    exact ⟨d, hd, hother j t hji hj d ht⟩

variable [Sink σ]

/-- One transition of one task keeps everything. -/
theorem step (hK : IsKeptByTurns K) (h : l.Governs K calls s tasks) (hc : calls[i]? = some c)
    (hi : tasks[i]? = some u) (hstep : u.step s = some (u', s')) :
    (l.note c u u' s s').Governs K calls s' (tasks.set i u') := by
  obtain ⟨d, hd, hu⟩ := h.tends i u hi
  obtain rfl : d = c := Option.some.inj (hd.symm.trans hc)
  have hguarded := h.guarded.step hi hstep
  -- While a task has the lock nothing is claimed of the turns so far.
  have hstuck : ∀ {v : System}, v.locked = true → v.locked = false → K l.turns v := by
    intro v htaken hfree
    rw [hfree] at htaken
    cases htaken
  rcases Task.step_cases hstep with ⟨hlock, hlock', ⟨inbox, rfl⟩, _⟩ |
    ⟨body, rfl, hfree, rfl, rfl⟩ | ⟨body, rfl, rfl, rfl⟩ | ⟨body, rest, rfl, hx, rfl⟩ |
    ⟨body, after, v, rfl, hx, rfl, rfl⟩
  · have hnote : l.note d u u' s (s.withInbox inbox) = l := by
      rw [Ledger.note, hlock, hlock']
    rw [hnote]
    refine h.set hc hguarded ?_ (hu.step hK hlock hlock' hstep)
      fun j t _ _ _ ht => ht.withInbox inbox
    intro hfree
    exact hK.around inbox s.locked (h.rest hfree)
  · -- A turn begins, and the ledger notes how the task finds the device.
    refine h.set hc hguarded (fun hlocked => nomatch hlocked) ?_ ?_
    · intro inbox
      have hrest : K l.turns { s.withInbox inbox with locked := true } :=
        hK.around inbox true (h.rest hfree)
      exact hu _ _ hrest rfl rfl
    · intro j t _ hj e ht
      exact ht.of_not_hasLock (h.guarded.free hfree j t hj)
  · have hlocked : (s.log .woke).locked = true := h.guarded.locked_of_hasLock hi rfl
    refine h.set hc hguarded (hstuck hlocked) hu ?_
    intro j t hji hj e ht
    exact ht.of_not_hasLock (h.guarded.not_hasLock hi rfl j t hji hj)
  · have hup := Routine.upholds_advance (hu s.bench.inbox)
    have hlocked := body.advance_locked s
    rw [show s.withInbox s.bench.inbox = s from rfl, hx] at hup
    rw [hx, h.guarded.locked_of_hasLock hi rfl] at hlocked
    refine h.set hc hguarded (hstuck hlocked) hup.2 ?_
    intro j t hji hj e ht
    exact ht.of_not_hasLock (h.guarded.not_hasLock hi rfl j t hji hj)
  · -- The turn is over and is entered.
    have hup := Routine.upholds_advance (hu s.bench.inbox)
    rw [show s.withInbox s.bench.inbox = s from rfl, hx] at hup
    obtain ⟨hrest, hserve⟩ := hup
    have hend := hK.around v.bench.inbox false hrest
    have hnote : l.note d (.holding body) (Task.ofAfter after) s { v with locked := false } =
        { l with turns := l.close (d.note (Task.ofAfter after).reply?).head? v } := by
      rw [Ledger.note, Task.hasLock_ofAfter]
      rfl
    rw [hnote]
    refine h.set hc hguarded (fun _ => hend) ?_ ?_
    · cases after with
      | reply r => trivial
      | serve sink => exact hserve sink rfl
    · intro j t hji hj e ht
      exact ht.of_not_hasLock (h.guarded.not_hasLock hi rfl j t hji hj)

end Ledger.Governs

/-! ## What all turns keep -/

/-- What turns keep, they keep after others. -/
theorem IsKeptByTurns.after {K : List Turn → System → Prop} (hK : IsKeptByTurns K)
    (before : List Turn) : IsKeptByTurns fun turns s => K (before ++ turns) s where
  around := fun i locked h => hK.around i locked h
  operation := by
    intro turns s op h
    rw [← List.append_assoc]
    exact hK.operation op h
  sample := by
    intro σ _ turns s time sink h
    rw [← List.append_assoc]
    exact hK.sample time sink h

/-- What turns keep and powering up brings about holds in all systems that can be reached while
nobody has the lock. -/
theorem System.IsReachableThrough.holds {K : List Turn → System → Prop} (hK : IsKeptByTurns K)
    {past : List Event}
    (hstart : ∀ (bench : Bench) (chip : Chip) (interrupt : PinSetup) (t : System), bench.InStep →
      (Driver.powerUp chip interrupt).exec { bench, core := .fresh chip } = (.ok (), t) →
      t.bench.trace = past → K [] t)
    {turns : List Turn} {s : System} (hs : s.IsReachableThrough past turns)
    (hfree : s.locked = false) : K turns s := by
  induction hs with
  | powerUp hin hok hpast =>
    exact hK.around {} _ (hstart _ _ _ _ hin (Prod.ext hok rfl) hpast)
  | @follow σ _ turns s hs hfree' calls wakeUps schedule ih =>
    have hrest : K (turns ++ []) s := by
      rw [List.append_nil]
      exact ih hfree'
    have h := Pool.ledger_induction
      (P := fun l s tasks => l.Governs (fun later => K (turns ++ later)) calls s tasks)
      (fun _ _ _ h i t hi => (h.tends i t hi).imp fun _ hc => hc.1)
      (fun _ _ _ _ _ _ _ _ h hc hi hstep => h.step (hK.after turns) hc hi hstep)
      (p := Pool.ofCalls calls s) (l := { found := s.core, since := 0 })
      (.ofCalls hs.isReachable.agrees hrest) wakeUps schedule
    exact h.rest hfree

/-- What was logged since the power-up was logged in the turns. -/
theorem System.IsReachableThrough.trace {past : List Event} {turns : List Turn} {s : System}
    (hs : s.IsReachableThrough past turns) (hfree : s.locked = false) :
    s.bench.trace = past ++ turns.flatMap Turn.events := by
  have hturn : ∀ {α : Type} (x : Routine α) (answered : Option (Operation × Reply))
      (turns : List Turn) (s : System), s.bench.trace = past ++ turns.flatMap Turn.events →
      (x.run s).2.bench.trace =
        past ++ (turns ++ [Turn.between answered s (x.run s).2]).flatMap Turn.events := by
    intro α x answered turns s h
    obtain ⟨events, hevents⟩ := x.exists_trace_run s
    have hnew : (Turn.between answered s (x.run s).2).events = events := by
      rw [Turn.between, hevents, List.drop_left]
    rw [List.flatMap_append, ← List.append_assoc, ← h, List.flatMap_singleton, hnew, hevents]
  have hK : IsKeptByTurns fun turns s => s.bench.trace = past ++ turns.flatMap Turn.events := {
    around := fun _ _ h => h
    operation := fun op h => hturn op.body _ _ _ h
    sample := fun time sink h => hturn (Driver.takeSample time sink) _ _ _ h }
  refine hs.holds hK ?_ hfree
  intro bench chip interrupt t _ _ hpast
  rw [List.flatMap_nil, List.append_nil]
  exact hpast

end Inertial
