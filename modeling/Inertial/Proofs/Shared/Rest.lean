import Inertial.Proofs.Driver.WaitCount
import Inertial.Proofs.Shared.WakeUps

/-!
# Pools come to rest

A call that waits for no wake-up is resumed with effect at most four times: once to begin, and once
after each of its waits (`Task.Within`). A round that brings something new uses up one of these
times at least (`Pool.uses_follow`), so once there were as many rounds as there can be such
resumptions, it makes no difference how many more are allowed (`Pool.rounds_eq`). What a pool of
such calls comes to does not depend on how many wake-ups were reckoned with
(`Pool.settle_ofCalls`).
-/

set_option autoImplicit false

namespace Inertial

variable {σ : Type} [Sink σ]

/-! ## Tasks -/

namespace Task

variable {c : Call σ} {t : Task σ}

/-- A call for the identity is answered from the record at once. -/
theorem resume_identity (ht : t.Awaits .identity) (wakeUps : Nat) (s : System) :
    t.resume (stretch wakeUps) s = (.finished (.identity s.core.chip), s) := by
  rcases ht with rfl | ⟨x, hx, _⟩
  · change (Task.finished (.identity s.core.chip) : Task σ).resume (3 * wakeUps + 3) s = _
    exact resume_of_stuck rfl _
  · cases hx

/-- An interrupt is over at once and only comes to the inbox. -/
theorem resume_interrupt {now : Int64} (ht : t.Awaits (.interrupt now)) (wakeUps : Nat)
    (s : System) : t.resume (stretch wakeUps) s = (.finished .ok, s.interrupt now) := by
  rcases ht with rfl | ⟨x, hx, _⟩
  · change (Task.finished .ok : Task σ).resume (3 * wakeUps + 3) (s.interrupt now) = _
    exact resume_of_stuck rfl _
  · cases hx

/-- A call that has work to do with the lock begins with it once the lock is free. -/
theorem resume_work {y : Routine Reply} (hy : c.Work y) (ht : t.Awaits c) (wakeUps : Nat)
    (s : System) :
    ∃ x, c.Work x ∧ t.resume (stretch wakeUps) s =
      if s.locked then (.queued (After.reply <$> x), s)
      else proceed x { s with locked := true } := by
  have hbrief : c.IsBrief := by
    cases hy <;> trivial
  rcases resume_awaits hbrief ht wakeUps s with ⟨now, rfl, _⟩ | hwork
  · cases hy
  · exact hwork

/-- A call that waits for no wake-up is done at once, or it has work to do with the lock. -/
theorem resume_of_not_waits (hc : c.waits = false) (ht : t.Awaits c) (wakeUps : Nat)
    (s : System) :
    (∃ r i, t.resume (stretch wakeUps) s = (.finished r, s.withInbox i)) ∨
      ∃ x, c.Work x ∧ t.resume (stretch wakeUps) s =
        if s.locked then (.queued (After.reply <$> x), s)
        else proceed x { s with locked := true } := by
  cases c with
  | operation op => exact Or.inr (resume_work (.operation op) ht wakeUps s)
  | process sink => exact Or.inr (resume_work (.process sink s.stamp) ht wakeUps s)
  | identity => exact Or.inl ⟨_, s.bench.inbox, resume_identity ht wakeUps s⟩
  | interrupt now => exact Or.inl ⟨_, s.bench.inbox.raise now, resume_interrupt ht wakeUps s⟩
  | awaitInterrupt => cases hc
  | serve sink => cases hc

end Task

/-- The task can be resumed with effect a given number of times at most. -/
inductive Task.Within : Task σ → Nat → Prop where
  | awaits {c : Call σ} {t : Task σ} (hc : c.waits = false) (ht : t.Awaits c) : Within t 4
  | asleep {x : Routine Reply} {n : Nat} (hx : x.WaitsAtMost n) :
      Within (.asleep (After.reply <$> x)) (n + 1)
  | finished (r : Reply) : Within (.finished r) 0

namespace Task

variable {t : Task σ} {n : Nat}

/-- A stretch of work uses up one of the times. -/
theorem within_proceed {x : Routine Reply} (hx : x.WaitsAtMost n) (s : System) :
    ∃ k, k ≤ n ∧ (proceed x s : Task σ × System).1.Within k := by
  unfold proceed
  rcases hadvance : x.advance s with ⟨r | rest, t⟩
  · exact ⟨0, Nat.zero_le n, .finished r⟩
  · obtain ⟨m, rfl, hrest⟩ := hx.asleep hadvance
    exact ⟨m + 1, Nat.le_refl _, .asleep hrest⟩

/-- A task that is resumed uses up one of the times, or it does not get the lock and nothing
happens. -/
theorem Within.resume (h : t.Within n) (hopen : t.reply? = none) (wakeUps : Nat) (s : System) :
    (∃ k, k < n ∧ (t.resume (stretch wakeUps) s).1.Within k) ∨
      (t.resume (stretch wakeUps) s).1.Within n ∧
        (t.resume (stretch wakeUps) s).1.reply? = none ∧
        (t.resume (stretch wakeUps) s).2 = s := by
  cases h with
  | @awaits c _ hc ht =>
    rcases resume_of_not_waits hc ht wakeUps s with ⟨r, i, h⟩ | ⟨x, hx, h⟩
    · rw [h]
      exact Or.inl ⟨0, by decide, .finished r⟩
    · rw [h]
      split
      · exact Or.inr ⟨.awaits hc (Or.inr ⟨x, hx, rfl⟩), rfl, rfl⟩
      · obtain ⟨k, hk, hwithin⟩ := within_proceed (σ := σ) hx.waitsAtMost { s with locked := true }
        exact Or.inl ⟨k, Nat.lt_succ_of_le hk, hwithin⟩
  | @asleep x m hx =>
    obtain ⟨k, hk, hwithin⟩ := within_proceed (σ := σ) hx (s.log .woke)
    refine Or.inl ⟨k, Nat.lt_succ_of_le hk, ?_⟩
    rw [show stretch wakeUps = 3 * wakeUps + 2 + 2 from rfl, resume_asleep]
    exact hwithin
  | finished r => cases hopen

/-- The tasks can be resumed with effect a given number of times altogether. -/
def AllWithin : List (Task σ) → Nat → Prop
  | [], _ => True
  | t :: rest, n => ∃ k m, k + m ≤ n ∧ t.Within k ∧ AllWithin rest m

/-- A bound on the resumptions may be raised. -/
theorem AllWithin.mono {tasks : List (Task σ)} {m n : Nat} (h : AllWithin tasks m) (hmn : m ≤ n) :
    AllWithin tasks n := by
  cases tasks with
  | nil => trivial
  | cons t rest =>
    obtain ⟨k, l, hkl, ht, hrest⟩ := h
    exact ⟨k, l, Nat.le_trans hkl hmn, ht, hrest⟩

/-- The times of one task can be told from those of the others. -/
theorem AllWithin.lookup {tasks : List (Task σ)} {i : Nat} (h : AllWithin tasks n)
    (hi : tasks[i]? = some t) :
    ∃ k m, k + m ≤ n ∧ t.Within k ∧
      ∀ {t' : Task σ} {k' : Nat}, t'.Within k' → AllWithin (tasks.set i t') (k' + m) := by
  induction tasks generalizing i n with
  | nil => cases hi
  | cons first rest ih =>
    obtain ⟨k, m, hkm, hfirst, hrest⟩ := h
    cases i with
    | zero =>
      cases hi
      exact ⟨k, m, hkm, hfirst, fun {t' k'} ht' => ⟨k', m, Nat.le_refl _, ht', hrest⟩⟩
    | succ i =>
      obtain ⟨k', m', hkm', ht, hset⟩ := ih hrest hi
      refine ⟨k', k + m', by omega, ht, fun {t' l} ht' => ?_⟩
      exact ⟨k, l + m', by omega, hfirst, hset ht'⟩

/-- A call that waits for no wake-up is resumed with effect at most four times. -/
theorem allWithin_ready {calls : List (Call σ)} (hcalls : ∀ c ∈ calls, c.waits = false) :
    AllWithin (calls.map .ready) (4 * calls.length) := by
  induction calls with
  | nil => trivial
  | cons c calls ih =>
    refine ⟨4, 4 * calls.length, ?_, .awaits (hcalls c List.mem_cons_self) (Or.inl rfl), ?_⟩
    · rw [List.length_cons]
      omega
    · exact ih fun d hd => hcalls d (List.mem_cons_of_mem _ hd)

end Task

/-! ## Pools -/

namespace Pool

variable {p q : Pool σ} {i n wakeUps : Nat}

/-- A task that is not finished is resumed. -/
theorem resume_of_open {t : Task σ} (ht : p.tasks[i]? = some t) (hopen : t.reply? = none) :
    p.resume wakeUps i =
      { system := (t.resume (Task.stretch wakeUps) p.system).2
        tasks := p.tasks.set i (t.resume (Task.stretch wakeUps) p.system).1
        order := if (t.resume (Task.stretch wakeUps) p.system).1.reply?.isSome then p.order ++ [i]
          else p.order } := by
  unfold resume
  rw [ht]
  cases t with
  | finished r => cases hopen
  | _ => rfl

/-- Whoever is finished is not resumed. -/
theorem resume_of_finished {r : Reply} (ht : p.tasks[i]? = some (.finished r)) :
    p.resume wakeUps i = p := by
  unfold resume
  rw [ht]

/-- From the first pool to the second, nothing new came or one of the times was used up. -/
def Uses (n : Nat) (p q : Pool σ) : Prop :=
  q.progress = p.progress ∧ Task.AllWithin q.tasks n ∨ ∃ m, m < n ∧ Task.AllWithin q.tasks m

/-- A resumption uses up one of the times, or nothing happens. -/
theorem uses_resume (h : Task.AllWithin p.tasks n) (wakeUps i : Nat) :
    Uses n p (p.resume wakeUps i) := by
  rcases hi : p.tasks[i]? with _ | t
  · left
    unfold resume
    rw [hi]
    exact ⟨rfl, h⟩
  · obtain ⟨k, m, hkm, ht, hset⟩ := h.lookup hi
    cases hopen : t.reply? with
    | some r =>
      cases t with
      | finished r =>
        rw [resume_of_finished hi]
        exact Or.inl ⟨rfl, h⟩
      | _ => cases hopen
    | none =>
      rw [resume_of_open hi hopen]
      rcases ht.resume hopen wakeUps p.system with ⟨k', hk', hwithin⟩ | ⟨hwithin, hopen', hsystem⟩
      · exact Or.inr ⟨k' + m, by omega, hset hwithin⟩
      · refine Or.inl ⟨?_, (hset hwithin).mono hkm⟩
        unfold progress
        rw [hopen', hsystem]
        rfl

/-- Along a schedule the times are used up one by one. -/
theorem uses_follow (h : Task.AllWithin p.tasks n) (wakeUps : Nat) (schedule : List Nat) :
    Uses n p (p.follow wakeUps schedule) := by
  induction schedule generalizing p n with
  | nil => exact Or.inl ⟨rfl, h⟩
  | cons i schedule ih =>
    change Uses n p ((p.resume wakeUps i).follow wakeUps schedule)
    rcases uses_resume h wakeUps i with ⟨hsame, hnow⟩ | ⟨m, hm, hnow⟩
    · rcases ih hnow with ⟨hsame', hend⟩ | hless
      · exact Or.inl ⟨hsame'.trans hsame, hend⟩
      · exact Or.inr hless
    · rcases ih hnow with ⟨_, hend⟩ | ⟨l, hl, hend⟩
      · exact Or.inr ⟨m, hm, hend⟩
      · exact Or.inr ⟨l, Nat.lt_trans hl hm, hend⟩

/-- Once there were as many rounds as can bring something new, more make no difference. -/
theorem rounds_eq (h : Task.AllWithin p.tasks n) {a b : Nat} (ha : n < a) (hb : n < b) :
    p.rounds wakeUps a = p.rounds wakeUps b := by
  induction a generalizing p n b with
  | zero => omega
  | succ a ih =>
    cases b with
    | zero => omega
    | succ b =>
      rw [rounds, rounds]
      split
      · rfl
      · rename_i hnew
        rcases uses_follow h wakeUps (List.range p.tasks.length) with ⟨hsame, _⟩ | ⟨m, hm, hround⟩
        · exact absurd hsame hnew
        · exact ih hround (by omega) (by omega)

/-- A pool of calls that wait for no wake-up comes to rest within four rounds for each. -/
theorem settle_ofCalls {calls : List (Call σ)} (hcalls : ∀ c ∈ calls, c.waits = false)
    (s : System) (wakeUps : Nat) :
    (ofCalls calls s).settle wakeUps =
      (ofCalls calls s).rounds wakeUps (4 * calls.length + 1) := by
  have hlength : (ofCalls calls s).tasks.length = calls.length := List.length_map _
  have hlongest : 4 * calls.length < longest wakeUps (ofCalls calls s) := by
    unfold longest
    omega
  exact rounds_eq (Task.allWithin_ready hcalls) hlongest (Nat.lt_succ_self _)

end Pool

end Inertial
