import Inertial.Proofs.Driver.Stability
import Inertial.Shared.Pool

/-!
# What tasks under one lock keep

A pool makes one transition of one task at a time, so what every transition keeps holds after every
schedule (`Pool.follow_induction`).

`Guarded J s tasks` is such an invariant. The record of the device and the registers are in the
relation `J`, at most one task has the lock, and each task has promised to keep `J` with what is
left of its call. A transition of a task without the lock changes nothing but the inbox as long as
another task has it, which is why the promise of that other task stands.
-/

set_option autoImplicit false

namespace Inertial

/-- Of the entries of a list after one was replaced, that one is new and the others are as before.
-/
theorem getElem?_set_cases {α : Type} {l : List α} {i j : Nat} {a b : α}
    (h : (l.set i a)[j]? = some b) :
    j = i ∧ b = a ∨ j ≠ i ∧ l[j]? = some b := by
  by_cases hj : j = i
  · subst hj
    rw [List.getElem?_set_self'] at h
    obtain ⟨_, _, rfl⟩ := Option.map_eq_some_iff.mp h
    exact Or.inl ⟨rfl, rfl⟩
  · rw [List.getElem?_set_ne (Ne.symm hj)] at h
    exact Or.inr ⟨hj, h⟩

/-- Replacing an entry by itself changes nothing. -/
theorem set_eq_self {α : Type} {l : List α} {i : Nat} {a : α} (h : l[i]? = some a) :
    l.set i a = l := by
  obtain ⟨hlt, rfl⟩ := List.getElem?_eq_some_iff.mp h
  exact List.set_getElem_self hlt

namespace Task

variable {σ : Type} [Sink σ]

/-- The task has the lock. -/
def hasLock : Task σ → Bool
  | .holding _ | .asleep _ => true
  | _ => false

/-- What is left of the call keeps `J`, whatever the inbox becomes while the task does nothing. -/
def Honours (J : Core → Memory → Prop) : Task σ → System → Prop
  | .ready (.operation op), _ => op.body.Keeps J
  | .queued body, _ => body.Keeps J
  | .holding body, s =>
    ∀ i, body.Upholds (System.Agrees J) (fun _ t => t.Agrees J) (s.withInbox i)
  | .asleep body, s =>
    ∀ i, body.Upholds (System.Agrees J) (fun _ t => t.Agrees J) ((s.withInbox i).log .woke)
  | _, _ => True

omit [Sink σ] in
/-- Who has given the lock back does not have it. -/
theorem hasLock_ofAfter (a : After σ) : (ofAfter a).hasLock = false := by
  cases a <;> rfl

omit [Sink σ] in
/-- Nor does it owe anything. -/
theorem honours_ofAfter (J : Core → Memory → Prop) (a : After σ) (s : System) :
    (ofAfter a).Honours J s := by
  cases a <;> trivial

/-- Everything a transition can be. -/
theorem step_cases {t t' : Task σ} {s s' : System} (h : t.step s = some (t', s')) :
    (t.hasLock = false ∧ t'.hasLock = false ∧ (∃ i, s' = s.withInbox i) ∧
      ∀ J, t.Honours J s → t'.Honours J s') ∨
    (∃ body, t = .queued body ∧ s.locked = false ∧ t' = .holding body ∧
      s' = { s with locked := true }) ∨
    (∃ body, t = .asleep body ∧ t' = .holding body ∧ s' = s.log .woke) ∨
    (∃ body rest, t = .holding body ∧ body.advance s = (.asleep rest, s') ∧ t' = .asleep rest) ∨
    (∃ body after u, t = .holding body ∧ body.advance s = (.done after, u) ∧
      t' = ofAfter after ∧ s' = { u with locked := false }) := by
  cases t with
  | ready call =>
    left
    cases call with
    | operation op =>
      cases h
      exact ⟨rfl, rfl, ⟨s.bench.inbox, rfl⟩, fun J hop => hop.map _⟩
    | identity =>
      cases h
      exact ⟨rfl, rfl, ⟨s.bench.inbox, rfl⟩, fun J _ => trivial⟩
    | interrupt now =>
      cases h
      exact ⟨rfl, rfl, ⟨s.bench.inbox.raise now, rfl⟩, fun J _ => trivial⟩
    | awaitInterrupt =>
      obtain ⟨u, hu, he⟩ := Option.map_eq_some_iff.mp h
      cases he
      exact ⟨rfl, rfl, System.takeWakeUp?_eq_some hu, fun J _ => trivial⟩
    | process sink =>
      cases h
      exact ⟨rfl, rfl, ⟨s.bench.inbox, rfl⟩, fun J _ => keeps_processBody _ sink⟩
    | serve sink =>
      cases h
      exact ⟨rfl, rfl, ⟨s.bench.inbox, rfl⟩, fun J _ => trivial⟩
  | listening sink =>
    left
    obtain ⟨u, hu, he⟩ := Option.map_eq_some_iff.mp h
    cases he
    exact ⟨rfl, rfl, System.takeWakeUp?_eq_some hu, fun J _ => keeps_serveBody _ sink⟩
  | queued body =>
    right; left
    cases hlock : s.locked with
    | true =>
      rw [step, if_pos hlock] at h
      cases h
    | false =>
      rw [step, if_neg (by simp [hlock])] at h
      cases h
      exact ⟨body, rfl, rfl, rfl, rfl⟩
  | asleep body =>
    right; right; left
    cases h
    exact ⟨body, rfl, rfl, rfl⟩
  | holding body =>
    -- The holder goes on to its next wait or to its end, as `advance` tells.
    right; right; right
    rw [step] at h
    rcases hx : body.advance s with ⟨after | rest, u⟩
    · rw [hx] at h
      cases h
      exact Or.inr ⟨body, after, u, rfl, hx, rfl, rfl⟩
    · rw [hx] at h
      cases h
      exact Or.inl ⟨body, rest, rfl, hx, rfl⟩
  | finished r => cases h

end Task

/-- The device agrees with its record, one task at most has the lock, and all keep their promise. -/
structure Guarded {σ : Type} (J : Core → Memory → Prop) (s : System) (tasks : List (Task σ)) :
    Prop where
  agrees : s.Agrees J
  free : s.locked = false → ∀ (i : Nat) (t : Task σ), tasks[i]? = some t → t.hasLock = false
  unique : ∀ (i j : Nat) (t u : Task σ), tasks[i]? = some t → tasks[j]? = some u →
    t.hasLock = true → u.hasLock = true → i = j
  honours : ∀ (i : Nat) (t : Task σ), tasks[i]? = some t → t.Honours J s

namespace Guarded

section

variable {σ : Type} {J : Core → Memory → Prop} {s s' : System} {tasks : List (Task σ)}
  {t t' : Task σ} {i : Nat}

/-- Before any call has begun nothing is promised but by the operations themselves. -/
theorem ofCalls {calls : List (Call σ)} (hs : s.Agrees J)
    (hops : ∀ op, Call.operation op ∈ calls → op.body.Keeps J) :
    Guarded J s (calls.map Task.ready) := by
  have hready : ∀ (i : Nat) (t : Task σ), (calls.map Task.ready)[i]? = some t →
      ∃ call ∈ calls, t = .ready call := by
    intro i t hi
    obtain ⟨call, hcall, rfl⟩ := List.mem_map.mp (List.mem_of_getElem? hi)
    exact ⟨call, hcall, rfl⟩
  refine ⟨hs, ?_, ?_, ?_⟩
  · intro _ i t hi
    obtain ⟨call, _, rfl⟩ := hready i t hi
    rfl
  · intro i j t u hi _ ht _
    obtain ⟨call, _, rfl⟩ := hready i t hi
    cases ht
  · intro i t hi
    obtain ⟨call, hcall, rfl⟩ := hready i t hi
    cases call with
    | operation op => exact hops op hcall
    | _ => trivial

/-- The promise of a task without the lock does not depend on the system. -/
theorem honours_of_not_hasLock (ht : t.hasLock = false) (h : t.Honours J s) : t.Honours J s' := by
  cases t with
  | holding body => cases ht
  | asleep body => cases ht
  | ready call => cases call <;> exact h
  | _ => exact h

/-- A change of the inbox breaks no promise. -/
theorem honours_withInbox (i : Inbox) (h : t.Honours J s) : t.Honours J (s.withInbox i) := by
  cases t with
  | ready call => cases call <;> exact h
  | _ => exact h

/-- A task may be replaced if no other has the lock when the new one does, and if the promises of
the others stand. -/
theorem set (h : Guarded J s tasks) (hagrees : s'.Agrees J) (ht' : t'.Honours J s')
    (hfree : s'.locked = false → t'.hasLock = false ∧
      ∀ (j : Nat) (u : Task σ), j ≠ i → tasks[j]? = some u → u.hasLock = false)
    (hlock : t'.hasLock = true →
      ∀ (j : Nat) (u : Task σ), j ≠ i → tasks[j]? = some u → u.hasLock = false)
    (hother : ∀ (j : Nat) (u : Task σ), j ≠ i → tasks[j]? = some u → u.Honours J s') :
    Guarded J s' (tasks.set i t') := by
  refine ⟨hagrees, ?_, ?_, ?_⟩
  · intro hs j u hj
    rcases getElem?_set_cases hj with ⟨rfl, rfl⟩ | ⟨hji, hj⟩
    · exact (hfree hs).1
    · exact (hfree hs).2 j u hji hj
  · intro j k u v hj hk hu hv
    rcases getElem?_set_cases hj with ⟨rfl, rfl⟩ | ⟨hji, hj'⟩
    · rcases getElem?_set_cases hk with ⟨rfl, rfl⟩ | ⟨hkj, hk'⟩
      · rfl
      · rw [hlock hu k v hkj hk'] at hv
        cases hv
    · rcases getElem?_set_cases hk with ⟨rfl, rfl⟩ | ⟨hki, hk'⟩
      · rw [hlock hv j u hji hj'] at hu
        cases hu
      · exact h.unique j k u v hj' hk' hu hv
  · intro j u hj
    rcases getElem?_set_cases hj with ⟨rfl, rfl⟩ | ⟨hji, hj⟩
    · exact ht'
    · exact hother j u hji hj

/-- A task may move while no other has the lock. -/
theorem set_of_others (h : Guarded J s tasks) (hagrees : s'.Agrees J) (ht' : t'.Honours J s')
    (hfree : s'.locked = false → t'.hasLock = false)
    (hother : ∀ (j : Nat) (u : Task σ), j ≠ i → tasks[j]? = some u →
      u.hasLock = false ∧ u.Honours J s') :
    Guarded J s' (tasks.set i t') := by
  have hnone : ∀ (j : Nat) (u : Task σ), j ≠ i → tasks[j]? = some u → u.hasLock = false :=
    fun j u hji hj => (hother j u hji hj).1
  exact h.set hagrees ht' (fun hs => ⟨hfree hs, hnone⟩) (fun _ => hnone)
    fun j u hji hj => (hother j u hji hj).2

/-- A task without the lock may change the inbox whoever has the lock. -/
theorem set_of_withInbox (h : Guarded J s tasks) (inbox : Inbox) (ht' : t'.hasLock = false)
    (hhonours : t'.Honours J (s.withInbox inbox)) :
    Guarded J (s.withInbox inbox) (tasks.set i t') := by
  refine h.set h.agrees hhonours ?_ ?_ ?_
  · intro hs
    exact ⟨ht', fun j u _ hj => h.free hs j u hj⟩
  · intro hlock
    rw [ht'] at hlock
    cases hlock
  · intro j u _ hj
    exact honours_withInbox inbox (h.honours j u hj)

/-- The lock is taken when a task has it. -/
theorem locked_of_hasLock (h : Guarded J s tasks) (hi : tasks[i]? = some t)
    (ht : t.hasLock = true) : s.locked = true := by
  cases hs : s.locked with
  | true => rfl
  | false =>
    rw [h.free hs i t hi] at ht
    cases ht

/-- Only one task has the lock. -/
theorem not_hasLock (h : Guarded J s tasks) (hi : tasks[i]? = some t) (ht : t.hasLock = true) :
    ∀ (j : Nat) (u : Task σ), j ≠ i → tasks[j]? = some u → u.hasLock = false := by
  intro j u hji hj
  cases hu : u.hasLock with
  | false => rfl
  | true => exact absurd (h.unique j i u t hj hi hu ht) hji

/-- Who is not the one with the lock has promised something that no move of that one can break. -/
theorem other (h : Guarded J s tasks) (hi : tasks[i]? = some t) (ht : t.hasLock = true) :
    ∀ (j : Nat) (u : Task σ), j ≠ i → tasks[j]? = some u →
      u.hasLock = false ∧ u.Honours J s' := by
  intro j u hji hj
  have hu := h.not_hasLock hi ht j u hji hj
  exact ⟨hu, honours_of_not_hasLock hu (h.honours j u hj)⟩

end

variable {σ : Type} [Sink σ] {J : Core → Memory → Prop} {s s' : System} {tasks : List (Task σ)}
  {t t' : Task σ} {i : Nat}

/-- One transition of one task keeps everything. -/
theorem step (h : Guarded J s tasks) (hi : tasks[i]? = some t) (hstep : t.step s = some (t', s')) :
    Guarded J s' (tasks.set i t') := by
  have ht := h.honours i t hi
  rcases Task.step_cases hstep with ⟨_, ht', ⟨inbox, rfl⟩, hhonours⟩ |
    ⟨body, rfl, hs, rfl, rfl⟩ | ⟨body, rfl, rfl, rfl⟩ | ⟨body, rest, rfl, hx, rfl⟩ |
    ⟨body, after, u, rfl, hx, rfl, rfl⟩
  · exact h.set_of_withInbox inbox ht' (hhonours J ht)
  · -- The lock is free, so nobody has it but the task that takes it.
    refine h.set_of_others h.agrees ?_ (fun hlocked => nomatch hlocked) ?_
    · intro inbox
      exact ht _ h.agrees
    · intro j u _ hj
      have hu := h.free hs j u hj
      exact ⟨hu, honours_of_not_hasLock hu (h.honours j u hj)⟩
  · have hlocked := h.locked_of_hasLock hi rfl
    refine h.set_of_others h.agrees ht ?_ (h.other hi rfl)
    intro hs
    rw [show (s.log .woke).locked = s.locked from rfl, hlocked] at hs
    cases hs
  · have hlocked := h.locked_of_hasLock hi rfl
    have hup := Routine.upholds_advance (ht s.bench.inbox)
    rw [show s.withInbox s.bench.inbox = s from rfl, hx] at hup
    refine h.set_of_others hup.1 hup.2 ?_ (h.other hi rfl)
    intro hs
    have hkept := body.advance_locked s
    rw [hx, hs, hlocked] at hkept
    cases hkept
  · have hup := Routine.upholds_advance (ht s.bench.inbox)
    rw [show s.withInbox s.bench.inbox = s from rfl, hx] at hup
    refine h.set_of_others hup (Task.honours_ofAfter J after _) ?_ (h.other hi rfl)
    intro _
    exact Task.hasLock_ofAfter after

end Guarded

namespace Pool

variable {σ : Type} [Sink σ]

/-- What every transition keeps holds after a task has been resumed. -/
theorem resume_induction {P : System → List (Task σ) → Prop}
    (hstep : ∀ s tasks i t t' s', P s tasks → tasks[i]? = some t → t.step s = some (t', s') →
      P s' (tasks.set i t'))
    (n : Nat) {s : System} {tasks : List (Task σ)} {i : Nat} {t : Task σ} (hP : P s tasks)
    (hi : tasks[i]? = some t) : P (t.resume n s).2 (tasks.set i (t.resume n s).1) := by
  induction n generalizing s tasks t with
  | zero =>
    rw [Task.resume, set_eq_self hi]
    exact hP
  | succ n ih =>
    cases hx : t.step s with
    | none =>
      rw [Task.resume, hx, set_eq_self hi]
      exact hP
    | some next =>
      obtain ⟨t', s'⟩ := next
      have hnext := hstep s tasks i t t' s' hP hi hx
      have hi' : (tasks.set i t')[i]? = some t' := by
        obtain ⟨hlt, _⟩ := List.getElem?_eq_some_iff.mp hi
        exact List.getElem?_set_self hlt
      have hset : ∀ u : Task σ, (tasks.set i t').set i u = tasks.set i u := by
        intro u
        rw [List.set_set]
      have hrest := ih hnext hi'
      rw [hset] at hrest
      cases t' with
      | asleep rest =>
        rw [Task.resume, hx]
        exact hnext
      | _ =>
        rw [Task.resume, hx]
        exact hrest

/-- What every transition of every task keeps holds after every schedule. -/
theorem follow_induction {P : System → List (Task σ) → Prop}
    (hstep : ∀ s tasks i t t' s', P s tasks → tasks[i]? = some t → t.step s = some (t', s') →
      P s' (tasks.set i t'))
    {p : Pool σ} (hp : P p.system p.tasks) (wakeUps : Nat) (schedule : List Nat) :
    P (p.follow wakeUps schedule).system (p.follow wakeUps schedule).tasks := by
  induction schedule generalizing p with
  | nil => exact hp
  | cons i schedule ih =>
    refine ih ?_
    unfold resume
    split
    · exact hp
    · exact hp
    · rename_i t _ hi
      exact resume_induction hstep _ hp hi

/-- Whatever the schedule, a relation that every operation keeps is guarded by the lock. -/
theorem guarded_follow {J : Core → Memory → Prop} {s : System} (hs : s.Agrees J)
    {calls : List (Call σ)} (hops : ∀ op, Call.operation op ∈ calls → op.body.Keeps J)
    (wakeUps : Nat) (schedule : List Nat) :
    Guarded J ((ofCalls calls s).follow wakeUps schedule).system
      ((ofCalls calls s).follow wakeUps schedule).tasks :=
  follow_induction (fun _ _ _ _ _ _ h => h.step) (Guarded.ofCalls hs hops) wakeUps schedule

end Pool

end Inertial
