import Inertial.Proofs.Shared.Atomicity

/-!
# Brief calls come to an end

A schedule without end is fair if it resumes every task again and again. Under a fair schedule the
task that has the lock gets through its work, wait by wait, and gives the lock back; and whenever
the lock is free another call gets its turn. So in the end all brief calls are finished.

That they are then as if made one after the other is `Pool.calls_atomic`.
-/

set_option autoImplicit false

namespace Inertial

/-- Each of the first positions comes again and again. -/
def IsFair (count : Nat) (schedule : Nat → Nat) : Prop :=
  ∀ i < count, ∀ n, ∃ m, n ≤ m ∧ schedule m = i

/-- How a schedule without end begins. -/
def firstSteps (schedule : Nat → Nat) (n : Nat) : List Nat :=
  (List.range n).map schedule

namespace Pool

variable {σ : Type} [Sink σ] {calls : List (Call σ)} {s : System} {wakeUps : Nat}
  {order : List Nat} {p : Pool σ} {schedule : Nat → Nat}

/-! ## Single resumptions -/

/-- A resumption changes no task but the one that is resumed. -/
theorem getElem?_resume_of_ne (p : Pool σ) (wakeUps : Nat) {i j : Nat} (h : i ≠ j) :
    (p.resume wakeUps i).tasks[j]? = p.tasks[j]? := by
  cases ht : p.tasks[i]? with
  | none =>
    unfold resume
    rw [ht]
  | some t => rw [(resume_eq ht wakeUps).2, List.getElem?_set_ne h]

/-- Who is finished stays so. -/
theorem finished_resume {i : Nat} {r : Reply} (h : p.tasks[i]? = some (.finished r))
    (wakeUps j : Nat) : (p.resume wakeUps j).tasks[i]? = some (.finished r) := by
  by_cases hji : j = i
  · obtain ⟨hlt, _⟩ := List.getElem?_eq_some_iff.mp h
    rw [hji, (resume_eq h wakeUps).2, Task.resume_of_stuck rfl, List.getElem?_set_self hlt]
  · rw [getElem?_resume_of_ne p wakeUps hji]
    exact h

/-- While the lock is free, all calls that have had their turn are finished. -/
theorem finished_of_free (h : Serves calls s wakeUps order p.system p.tasks)
    (hfree : p.system.locked = false) {i : Nat} (hi : i ∈ order) :
    ∃ r, p.tasks[i]? = some (.finished r) := by
  rcases h.of_mem hi with hdone | ⟨x, _, hlocked, _⟩
  · exact hdone
  · rw [hfree] at hlocked
    cases hlocked

/-- A call that is resumed while the lock is free has its turn. -/
theorem admits_of_free (hcalls : ∀ c ∈ calls, c.IsBrief)
    (h : Serves calls s wakeUps order p.system p.tasks) (hfree : p.system.locked = false) {i : Nat}
    (hlt : i < calls.length) (hi : i ∉ order) : p.admits wakeUps i = true := by
  obtain ⟨c, hc⟩ : ∃ c, calls[i]? = some c := ⟨_, List.getElem?_eq_getElem hlt⟩
  obtain ⟨t, ht⟩ : ∃ t, p.tasks[i]? = some t :=
    ⟨_, List.getElem?_eq_getElem (h.length.symm ▸ hlt)⟩
  have hwait := h.awaits i c t hc ht hi
  rw [admits_eq ht, hwait.isWaiting, Bool.true_and]
  rcases Task.resume_awaits (hcalls c (List.mem_of_getElem? hc)) hwait wakeUps p.system with
    ⟨time, _, hnext⟩ | ⟨x, _, hnext⟩
  · rw [hnext]
    rfl
  · rw [hnext, hfree, if_neg Bool.false_ne_true, Task.isWaiting_proceed]
    rfl

/-- The lock is taken only by a call that has its turn. -/
theorem free_resume (hcalls : ∀ c ∈ calls, c.IsBrief)
    (h : Serves calls s wakeUps order p.system p.tasks) (hfree : p.system.locked = false) {i : Nat}
    (hi : p.admits wakeUps i = false) : (p.resume wakeUps i).system.locked = false := by
  have hnext := serves_resume hcalls h i
  rw [hi, if_neg Bool.false_ne_true] at hnext
  obtain ⟨future, houtlook, _⟩ := hnext.outlook
  cases houtlook with
  | free hfree' _ => exact hfree'
  | held _ hmem hk _ =>
    obtain ⟨r, hr⟩ := finished_of_free h hfree hmem
    rw [finished_resume hr] at hk
    cases hk

/-! ## Along a schedule -/

/-- One step more is one resumption more. -/
theorem follow_firstSteps_succ (p : Pool σ) (wakeUps : Nat) (schedule : Nat → Nat) (n : Nat) :
    p.follow wakeUps (firstSteps schedule (n + 1)) =
      (p.follow wakeUps (firstSteps schedule n)).resume wakeUps (schedule n) := by
  unfold follow firstSteps
  rw [List.range_succ, List.map_append, List.foldl_append]
  rfl

/-- Whoever is finished remains so. -/
theorem finished_firstSteps {n m : Nat} (h : n ≤ m) {i : Nat} {r : Reply}
    (hi : (p.follow wakeUps (firstSteps schedule n)).tasks[i]? = some (.finished r)) :
    (p.follow wakeUps (firstSteps schedule m)).tasks[i]? = some (.finished r) := by
  induction h with
  | refl => exact hi
  | step _ ih =>
    rw [follow_firstSteps_succ]
    exact finished_resume ih wakeUps _

/-- Who got the lock later comes after who got it earlier. -/
theorem lockOrder_append (p : Pool σ) (wakeUps : Nat) (first second : List Nat) :
    p.lockOrder wakeUps (first ++ second) =
      p.lockOrder wakeUps first ++ (p.follow wakeUps first).lockOrder wakeUps second := by
  induction first generalizing p with
  | nil => rfl
  | cons i first ih =>
    rw [List.cons_append, lockOrder, lockOrder, ih]
    split <;> rfl

/-- One step more adds at most the task that it lets in. -/
theorem lockOrder_firstSteps_succ (p : Pool σ) (wakeUps : Nat) (schedule : Nat → Nat) (n : Nat) :
    p.lockOrder wakeUps (firstSteps schedule (n + 1)) =
      p.lockOrder wakeUps (firstSteps schedule n) ++
        if (p.follow wakeUps (firstSteps schedule n)).admits wakeUps (schedule n) then [schedule n]
        else [] := by
  have hsteps : firstSteps schedule (n + 1) = firstSteps schedule n ++ [schedule n] := by
    unfold firstSteps
    rw [List.range_succ, List.map_append, List.map_singleton]
  rw [hsteps, lockOrder_append, lockOrder, lockOrder]

/-- A task is as it was until it is resumed next. -/
theorem exists_resumed {i n : Nat} {t : Task σ} (d : Nat) (hnext : schedule (n + d) = i)
    (ht : (p.follow wakeUps (firstSteps schedule n)).tasks[i]? = some t) :
    ∃ m, n ≤ m ∧ schedule m = i ∧
      (p.follow wakeUps (firstSteps schedule m)).tasks[i]? = some t := by
  induction d generalizing n with
  | zero => exact ⟨n, Nat.le_refl n, hnext, ht⟩
  | succ d ih =>
    by_cases hn : schedule n = i
    · exact ⟨n, Nat.le_refl n, hn, ht⟩
    · rw [Nat.add_succ, ← Nat.succ_add] at hnext
      have hsame : (p.follow wakeUps (firstSteps schedule (n + 1))).tasks[i]? = some t := by
        rw [follow_firstSteps_succ, getElem?_resume_of_ne _ _ hn]
        exact ht
      obtain ⟨m, hle, hm⟩ := ih hnext hsame
      exact ⟨m, Nat.le_of_succ_le hle, hm⟩

/-- Work with the lock comes to its end, and the lock is given back. The induction is on the work,
of which every wait leaves a proper part. -/
theorem exists_free_of_asleep (hfair : IsFair calls.length schedule) {i : Nat}
    (hi : i < calls.length) (x : Routine Reply) :
    ∀ u v rest, x.advance u = (.asleep rest, v) →
      ∀ n, (p.follow wakeUps (firstSteps schedule n)).tasks[i]? =
          some (.asleep (After.reply <$> rest)) →
        ∃ m, n ≤ m ∧ (p.follow wakeUps (firstSteps schedule m)).system.locked = false := by
  induction x with
  | done r =>
    intro u v rest hx
    cases hx
  | act a next ih =>
    intro u v rest hx
    exact ih _ _ v rest hx
  | sleep d rest ih =>
    intro u v rest' hx n ht
    cases hx
    obtain ⟨k, hk, hnext⟩ := hfair i hi n
    obtain ⟨m, hm, hresumed, ht'⟩ := exists_resumed (k - n)
      (show schedule (n + (k - n)) = i by rw [Nat.add_sub_cancel' hk, hnext]) ht
    obtain ⟨hlt, _⟩ := List.getElem?_eq_some_iff.mp ht'
    obtain ⟨hsystem, htasks⟩ := resume_eq ht' wakeUps
    rw [← hresumed, ← follow_firstSteps_succ] at hsystem htasks
    generalize p.follow wakeUps (firstSteps schedule m) = q at ht' hlt hsystem htasks
    have hproceed : (Task.asleep (After.reply <$> rest) : Task σ).resume (Task.stretch wakeUps)
        q.system = Task.proceed rest (q.system.log .woke) := Task.resume_asleep _ rest q.system
    rw [hproceed, Task.proceed] at hsystem htasks
    rcases hx : rest.advance (q.system.log .woke) with ⟨r | rest', w⟩
    · rw [hx] at hsystem
      refine ⟨m + 1, Nat.le_succ_of_le hm, ?_⟩
      rw [hsystem]
    · rw [hx] at htasks
      have hasleep : (p.follow wakeUps (firstSteps schedule (m + 1))).tasks[i]? =
          some (.asleep (After.reply <$> rest')) := by
        rw [htasks, hresumed, List.getElem?_set_self hlt]
      obtain ⟨m', hm', hfree⟩ := ih _ w rest' hx (m + 1) hasleep
      exact ⟨m', Nat.le_trans (Nat.le_succ_of_le hm) hm', hfree⟩

/-- A schedule that goes on adds to the order. -/
theorem length_lockOrder_le (p : Pool σ) (wakeUps : Nat) (schedule : Nat → Nat) {n m : Nat}
    (h : n ≤ m) :
    (p.lockOrder wakeUps (firstSteps schedule n)).length ≤
      (p.lockOrder wakeUps (firstSteps schedule m)).length := by
  induction h with
  | refl => exact Nat.le_refl _
  | step _ ih =>
    rw [lockOrder_firstSteps_succ, List.length_append]
    exact Nat.le_add_right_of_le ih

variable (hcalls : ∀ c ∈ calls, c.IsBrief) (hp : Serves calls s wakeUps [] p.system p.tasks)
include hcalls hp

/-- Again and again the lock is free. -/
theorem exists_free (hfair : IsFair calls.length schedule) (n : Nat) :
    ∃ m, n ≤ m ∧ (p.follow wakeUps (firstSteps schedule m)).system.locked = false := by
  have hn := serves_follow hcalls hp (firstSteps schedule n)
  obtain ⟨future, houtlook, _⟩ := hn.outlook
  cases houtlook with
  | free hfree _ => exact ⟨n, Nat.le_refl n, hfree⟩
  | @held k x _ hmem hk _ =>
    -- A wait of any length in front leaves just the work of the task.
    exact exists_free_of_asleep hfair (hn.lt k hmem) (.sleep (.millis 0) x) p.system _ x rfl n hk

/-- While a call has not had its turn, there will be one that has. -/
theorem exists_longer {i : Nat} (hi : i < calls.length) (d : Nat) :
    ∀ n, (p.follow wakeUps (firstSteps schedule n)).system.locked = false →
      i ∉ p.lockOrder wakeUps (firstSteps schedule n) → schedule (n + d) = i →
      ∃ m, n ≤ m ∧ (p.lockOrder wakeUps (firstSteps schedule n)).length <
        (p.lockOrder wakeUps (firstSteps schedule m)).length := by
  induction d with
  | zero =>
    intro n hfree hnot hnext
    have hn := serves_follow hcalls hp (firstSteps schedule n)
    have hadmits := admits_of_free hcalls hn hfree hi hnot
    refine ⟨n + 1, Nat.le_succ n, ?_⟩
    rw [lockOrder_firstSteps_succ, show schedule n = i from hnext, if_pos hadmits,
      List.length_append]
    exact Nat.lt_succ_self _
  | succ d ih =>
    intro n hfree hnot hnext
    have hn := serves_follow hcalls hp (firstSteps schedule n)
    have horder := lockOrder_firstSteps_succ p wakeUps schedule n
    cases hadmits : (p.follow wakeUps (firstSteps schedule n)).admits wakeUps (schedule n) with
    | true =>
      refine ⟨n + 1, Nat.le_succ n, ?_⟩
      rw [horder, if_pos hadmits, List.length_append]
      exact Nat.lt_succ_self _
    | false =>
      have hfree' := free_resume hcalls hn hfree hadmits
      rw [← follow_firstSteps_succ] at hfree'
      rw [hadmits, if_neg Bool.false_ne_true, List.append_nil] at horder
      rw [Nat.add_succ, ← Nat.succ_add] at hnext
      obtain ⟨m, hm, hlonger⟩ := ih (n + 1) hfree' (horder ▸ hnot) hnext
      rw [horder] at hlonger
      exact ⟨m, Nat.le_of_succ_le hm, hlonger⟩

/-- Either all calls have had their turn and the lock is free some time, or more calls than before
will have had it. -/
theorem exists_all_or_longer (hfair : IsFair calls.length schedule) (n : Nat) :
    (∃ m, (p.follow wakeUps (firstSteps schedule m)).system.locked = false ∧
        ∀ i < calls.length, i ∈ p.lockOrder wakeUps (firstSteps schedule m)) ∨
      (p.lockOrder wakeUps (firstSteps schedule n)).length < calls.length ∧
        ∃ m, (p.lockOrder wakeUps (firstSteps schedule n)).length <
          (p.lockOrder wakeUps (firstSteps schedule m)).length := by
  obtain ⟨m, hm, hfree⟩ := exists_free hcalls hp hfair n
  have hmono := length_lockOrder_le p wakeUps schedule hm
  by_cases hall : ∀ i < calls.length, i ∈ p.lockOrder wakeUps (firstSteps schedule m)
  · exact Or.inl ⟨m, hfree, hall⟩
  · obtain ⟨i, hi⟩ := Classical.not_forall.mp hall
    obtain ⟨hlt, hnot⟩ := Classical.not_imp.mp hi
    have hserves := serves_follow hcalls hp (firstSteps schedule m)
    rw [List.nil_append] at hserves
    have hlength := hserves.length_lt_of_not_mem hlt hnot
    obtain ⟨k, hk, hnext⟩ := hfair i hlt m
    obtain ⟨m', _, hlonger⟩ := exists_longer hcalls hp hlt (k - m) m hfree hnot
      (show schedule (m + (k - m)) = i by rw [Nat.add_sub_cancel' hk, hnext])
    exact Or.inr ⟨Nat.lt_of_le_of_lt hmono hlength, m', Nat.lt_of_le_of_lt hmono hlonger⟩

/-- Some time the lock is free and all calls have had their turn. The induction is on how many may
still have to. -/
theorem exists_all (hfair : IsFair calls.length schedule) (k : Nat) :
    ∀ n, calls.length ≤ (p.lockOrder wakeUps (firstSteps schedule n)).length + k →
      ∃ m, (p.follow wakeUps (firstSteps schedule m)).system.locked = false ∧
        ∀ i < calls.length, i ∈ p.lockOrder wakeUps (firstSteps schedule m) := by
  induction k with
  | zero =>
    intro n hk
    rcases exists_all_or_longer hcalls hp hfair n with hall | ⟨hlt, _⟩
    · exact hall
    · omega
  | succ k ih =>
    intro n hk
    rcases exists_all_or_longer hcalls hp hfair n with hall | ⟨_, m, hlonger⟩
    · exact hall
    · exact ih m (by omega)

end Pool

/-! ## Together -/

/-- The pool has come to what the calls come to one after the other: `order` is the order in which
they had their turn. Answers and pushes are compared but for the time of samples. -/
structure Pool.MatchesSequence {σ : Type} [Sink σ] (calls : List (Call σ)) (s : System)
    (wakeUps : Nat) (order : List Nat) (p : Pool σ) : Prop where
  perm : order.Perm (List.range calls.length)
  free : p.system.locked = false
  core : p.system.core = (Call.performAll wakeUps (order.filterMap (calls[·]?)) s).2.core
  chip : p.system.bench.chip =
    (Call.performAll wakeUps (order.filterMap (calls[·]?)) s).2.bench.chip
  replies : order.map (fun i => (p.replies[i]?.join).map Reply.untimed) =
    (Call.performAll wakeUps (order.filterMap (calls[·]?)) s).1.map (·.1.map Reply.untimed)
  trace : p.system.bench.trace.map Event.untimed = (s.bench.trace ++
    ((Call.performAll wakeUps (order.filterMap (calls[·]?)) s).1.map Prod.snd).flatten).map
      Event.untimed

namespace Pool

variable {σ : Type} [Sink σ] {calls : List (Call σ)} {s : System} {wakeUps : Nat}

omit [Sink σ] in
/-- Everybody has an answer just if everybody is finished. -/
theorem isSome_replies {p : Pool σ} :
    (∀ r ∈ p.replies, r.isSome = true) ↔
      ∀ i < p.tasks.length, ∃ r, p.tasks[i]? = some (.finished r) := by
  unfold replies
  constructor
  · intro h i hi
    have ht := List.getElem?_eq_getElem hi
    have hsome := h _ (List.mem_map_of_mem (List.getElem_mem hi))
    rw [ht]
    cases hx : p.tasks[i] with
    | finished r => exact ⟨r, rfl⟩
    | _ =>
      rw [hx] at hsome
      cases hsome
  · intro h r hr
    obtain ⟨t, ht, rfl⟩ := List.mem_map.mp hr
    obtain ⟨i, hi, rfl⟩ := List.getElem_of_mem ht
    obtain ⟨r, hr⟩ := h i hi
    rw [List.getElem?_eq_getElem hi] at hr
    rw [Option.some.inj hr]
    rfl

/-- A pool that serves its calls and has finished them matches the sequence. -/
theorem matchesSequence_of_finished {order : List Nat} {p : Pool σ}
    (h : Serves calls s wakeUps order p.system p.tasks)
    (hdone : ∀ r ∈ p.replies, r.isSome = true) : MatchesSequence calls s wakeUps order p := by
  have hfinished := isSome_replies.mp hdone
  rw [h.length] at hfinished
  have hmem : ∀ i, i ∈ order ↔ i < calls.length := by
    intro i
    refine ⟨h.lt i, ?_⟩
    intro hi
    by_cases hin : i ∈ order
    · exact hin
    · obtain ⟨r, hr⟩ := hfinished i hi
      have hwait := h.awaits i _ _ (List.getElem?_eq_getElem hi) hr hin
      cases hwait.isWaiting
  obtain ⟨future, houtlook, hfuture⟩ := h.outlook
  cases houtlook with
  | held _ hk hasleep _ =>
    obtain ⟨r, hr⟩ := hfinished _ ((hmem _).mp hk)
    rw [hr] at hasleep
    cases hasleep
  | free hfree _ =>
    refine ⟨?_, hfree, hfuture.core, hfuture.bench.chip, ?_, ?_⟩
    · rw [List.perm_ext_iff_of_nodup h.nodup List.nodup_range]
      intro i
      rw [hmem, List.mem_range]
    · rw [← h.replies]
      refine List.map_congr_left ?_
      intro i hi
      obtain ⟨r, hr⟩ := hfinished i ((hmem i).mp hi)
      rw [outcomeAt_finished hr, replies, List.getElem?_map, hr]
      rfl
    · rw [hfuture.bench.trace, Call.trace_performAll]

/-- Brief calls on a device whose lock is free are atomic, however they are interleaved and whatever
fails. Under a fair schedule they all come to an end; and whenever all are finished the lock is
free, and the record of the device, the registers, the answers and the trace are those of the same
calls made one after the other in the order in which they obtained the lock. -/
theorem calls_atomic (hcalls : ∀ c ∈ calls, c.IsBrief) (hfree : s.locked = false) (wakeUps : Nat) :
    (∀ schedule, IsFair calls.length schedule → ∃ n, ∀ m, n ≤ m →
      ∀ r ∈ ((ofCalls calls s).follow wakeUps (firstSteps schedule m)).replies, r.isSome = true) ∧
    ∀ steps : List Nat,
      (∀ r ∈ ((ofCalls calls s).follow wakeUps steps).replies, r.isSome = true) →
      MatchesSequence calls s wakeUps ((ofCalls calls s).lockOrder wakeUps steps)
        ((ofCalls calls s).follow wakeUps steps) := by
  have hstart : Serves calls s wakeUps [] (ofCalls calls s).system (ofCalls calls s).tasks :=
    .ofCalls hfree
  constructor
  · intro schedule hfair
    obtain ⟨n, hn, hall⟩ := exists_all hcalls hstart hfair calls.length 0 (Nat.le_add_left _ _)
    have hserves := serves_follow hcalls hstart (firstSteps schedule n)
    rw [List.nil_append] at hserves
    refine ⟨n, ?_⟩
    intro m hm
    rw [isSome_replies]
    intro i hi
    rw [(serves_follow hcalls hstart (firstSteps schedule m)).length] at hi
    obtain ⟨r, hr⟩ := finished_of_free hserves hn (hall i hi)
    exact ⟨r, finished_firstSteps hm hr⟩
  · intro steps hdone
    exact matchesSequence_of_finished (serves_follow hcalls hstart steps) hdone

/-- A sample that had to wait for the lock goes before the suspend that had been made earlier and
that then fails; its time is from before the interrupt. Resuming the four calls in turn is fair. -/
theorem calls_atomic_overtaken :
    let bench : Bench := {
      chip := { memory := Memory.zero.writeAll [(Register.intStatus, 0x08)] }
      plan := { failsAccess := fun k _ => k == 3 } }
    let s : System := {
      bench
      core := { Core.fresh .icm42605 with power := { enabled := true, active := true } } }
    let calls : List (Call ScriptedSink) :=
      [.operation (.setPower ⟨.lowNoise, .off, true⟩ true), .operation .suspend, .process {},
        .interrupt 9]
    let p := (ofCalls calls s).follow 0 [0, 1, 2, 3, 0, 1, 0, 2, 1]
    (∀ c ∈ calls, c.IsBrief) ∧ s.locked = false ∧ IsFair calls.length (· % 4) ∧
      p.replies[1]? = some (some (.failed (.bus (.write Register.pwrMgmt0)))) ∧
      MatchesSequence calls s 0 [0, 3, 2, 1] p ∧
      ∃ n, ∀ m, n ≤ m →
        ∀ r ∈ ((ofCalls calls s).follow 0 (firstSteps (· % 4) m)).replies, r.isSome = true := by
  intro bench s calls p
  have hcalls : ∀ c ∈ calls, c.IsBrief := by
    intro c hc
    simp only [calls, List.mem_cons, List.not_mem_nil, or_false] at hc
    rcases hc with rfl | rfl | rfl | rfl <;> trivial
  have hfair : IsFair calls.length (· % 4) := by
    intro i hi n
    have hlt : i < 4 := hi
    refine ⟨4 * n + i, by omega, ?_⟩
    change (4 * n + i) % 4 = i
    omega
  obtain ⟨hend, hmatch⟩ := calls_atomic hcalls (show s.locked = false from rfl) 0
  have hdone : ∀ r ∈ p.replies, r.isSome = true := by decide +kernel
  have horder : (ofCalls calls s).lockOrder 0 [0, 1, 2, 3, 0, 1, 0, 2, 1] = [0, 3, 2, 1] := by
    decide +kernel
  refine ⟨hcalls, rfl, hfair, by decide +kernel, ?_, hend _ hfair⟩
  rw [← horder]
  exact hmatch _ hdone

end Pool

end Inertial
