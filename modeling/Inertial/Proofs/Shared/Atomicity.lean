import Inertial.Proofs.Shared.Stretch

/-!
# Calls are atomic under the lock

However brief calls are interleaved, what they do is what they do one after the other in the order
in which they got the lock. The invariant is `Pool.Serves`: once the task that has the lock is left
to finish, the system looks like the one after the calls that have had their turn, made one after
the other. Who does not have the lock changes nothing but the inbox, which the work of the one that
has it does not depend on but for the time of a sample.
-/

set_option autoImplicit false

namespace Inertial

namespace Task

variable {σ : Type}

/-- What the task answers if it is left to finish what it does with the lock. -/
def outcome (s : System) : Task σ → Option Reply
  | .finished r => some r
  | .asleep body =>
    match (body.run (s.log .woke)).1 with
    | .reply r => some r
    | .serve _ => none
  | _ => none

/-- A call that waits answers what it answers if it is left to finish. -/
theorem outcome_asleep (s : System) (x : Routine Reply) :
    (Task.asleep (After.reply <$> x) : Task σ).outcome s = some (x.run (s.log .woke)).1 := by
  rw [outcome, ← bind_pure_comp, Routine.run_bind]
  rfl

end Task

/-- What the task at a position answers, but for the time of a sample. -/
def outcomeAt {σ : Type} (s : System) (tasks : List (Task σ)) (i : Nat) : Option Reply :=
  (tasks[i]?.bind (Task.outcome s)).map Reply.untimed

/-- A call that is finished has answered. -/
theorem outcomeAt_finished {σ : Type} {s : System} {tasks : List (Task σ)} {i : Nat} {r : Reply}
    (h : tasks[i]? = some (.finished r)) : outcomeAt s tasks i = some r.untimed := by
  unfold outcomeAt
  rw [h]
  rfl

/-- A call that waits at a position answers what is left of its work answers. -/
theorem outcomeAt_asleep {σ : Type} {s : System} {tasks : List (Task σ)} {i : Nat}
    {x : Routine Reply} (h : tasks[i]? = some (.asleep (After.reply <$> x))) :
    outcomeAt s tasks i = some (x.run (s.log .woke)).1.untimed := by
  unfold outcomeAt
  rw [h, Option.bind_some, Task.outcome_asleep]
  rfl

namespace Call

variable {σ : Type} [Sink σ]

/-- What a call does with the lock is what it does while nobody else uses the device. -/
theorem perform_of_work {c : Call σ} {x : Routine Reply} (hx : c.Work x) (wakeUps : Nat)
    {s t : System} (h : s.Like Bench.Alike t) :
    ∃ r, (c.perform wakeUps t).1 = some r ∧ (x.run s).1.untimed = r.untimed ∧
      (x.run s).2.Like Bench.Alike (c.perform wakeUps t).2 := by
  cases hx with
  | operation op =>
    obtain ⟨hreply, hafter⟩ := op.body.run_like Bench.isLikeness_alike h
    exact ⟨_, rfl, congrArg Reply.untimed hreply, hafter⟩
  | process sink timestamp =>
    obtain ⟨hsample, hafter⟩ := Driver.takeSample_alike timestamp t.stamp
      (rfl : Sink.isEnabled sink = Sink.isEnabled sink) h
    refine ⟨_, rfl, ?_, ?_⟩
    · rw [Task.sampleReply, Routine.run_bind]
      exact congrArg Reply.sample hsample
    · rw [Task.sampleReply, Routine.run_bind]
      exact hafter

end Call

/-- Of the tasks at a list of positions all are finished, but for one that may have the lock and
wait. The last argument is the system once that one has finished too. -/
inductive Outlook {σ : Type} (order : List Nat) (s : System) (tasks : List (Task σ)) :
    System → Prop where
  | free (hfree : s.locked = false) (hdone : ∀ i ∈ order, ∃ r, tasks[i]? = some (.finished r)) :
    Outlook order s tasks s
  | held {i : Nat} {x : Routine Reply} (hlocked : s.locked = true) (hmem : i ∈ order)
      (hi : tasks[i]? = some (.asleep (After.reply <$> x)))
      (hdone : ∀ j ∈ order, j ≠ i → ∃ r, tasks[j]? = some (.finished r)) :
    Outlook order s tasks (x.run (s.log .woke)).2

namespace Outlook

variable {σ : Type} {order : List Nat} {s u : System} {tasks : List (Task σ)} {i : Nat}

/-- A task that does a stretch of its work with the lock, while all others had theirs, leaves the
outlook that a run to the end has. -/
theorem proceed {x : Routine Reply} {t' : Task σ} {v : System}
    (hnext : Task.proceed x u = (t', v)) (hlocked : u.locked = true) (hmem : i ∈ order)
    (hlt : i < tasks.length)
    (hdone : ∀ j ∈ order, j ≠ i → ∃ r, tasks[j]? = some (.finished r)) {t : System}
    (hlike : (x.run u).2.Like Bench.Alike t) :
    (∃ future, Outlook order v (tasks.set i t') future ∧ future.Like Bench.Alike t) ∧
      outcomeAt v (tasks.set i t') i = some (x.run u).1.untimed := by
  have hother : ∀ j ∈ order, j ≠ i → ∃ r, (tasks.set i t')[j]? = some (.finished r) := by
    intro j hj hji
    rw [List.getElem?_set_ne (Ne.symm hji)]
    exact hdone j hj hji
  have hself : (tasks.set i t')[i]? = some t' := List.getElem?_set_self hlt
  have hrun := x.run_eq_advance u
  have hkept := x.advance_locked u
  unfold Task.proceed at hnext
  rcases hx : x.advance u with ⟨r | rest, w⟩
  · rw [hx] at hnext hrun
    cases hnext
    rw [hrun] at hlike ⊢
    refine ⟨⟨_, .free rfl ?_, ⟨hlike.bench, hlike.core⟩⟩, outcomeAt_finished hself⟩
    intro j hj
    by_cases hji : j = i
    · rw [hji]
      exact ⟨r, hself⟩
    · exact hother j hj hji
  · rw [hx] at hnext hrun hkept
    cases hnext
    rw [hrun] at hlike ⊢
    exact ⟨⟨_, .held (hkept.trans hlocked) hmem hself hother, hlike⟩, outcomeAt_asleep hself⟩

end Outlook

/-- What is put at a position outside of a list of them is not seen there. -/
theorem getElem?_set_of_not_mem {α : Type} {order : List Nat} {l : List α} {i j : Nat} {a : α}
    (hi : i ∉ order) (hj : j ∈ order) : (l.set i a)[j]? = l[j]? := by
  refine List.getElem?_set_ne ?_
  intro hij
  exact hi (hij ▸ hj)

/-- After calls `calls` were begun on `s`, those at the positions `order` have had their turn, in
this order, and the tasks and the system are as if they had been made one after the other. -/
structure Serves {σ : Type} [Sink σ] (calls : List (Call σ)) (s : System) (wakeUps : Nat)
    (order : List Nat) (now : System) (tasks : List (Task σ)) : Prop where
  length : tasks.length = calls.length
  nodup : order.Nodup
  lt : ∀ i ∈ order, i < calls.length
  awaits : ∀ (i : Nat) (c : Call σ) (t : Task σ), calls[i]? = some c → tasks[i]? = some t →
    i ∉ order → t.Awaits c
  outlook : ∃ future, Outlook order now tasks future ∧
    future.Like Bench.Alike (Call.performAll wakeUps (order.filterMap (calls[·]?)) s).2
  replies : order.map (outcomeAt now tasks) =
    (Call.performAll wakeUps (order.filterMap (calls[·]?)) s).1.map (·.1.map Reply.untimed)

namespace Serves

variable {σ : Type} [Sink σ] {calls : List (Call σ)} {s now : System} {wakeUps : Nat}
  {order : List Nat} {tasks : List (Task σ)} {i : Nat} {t : Task σ} {c : Call σ}

/-- Before any call has begun none has had its turn. -/
theorem ofCalls (hfree : s.locked = false) :
    Serves calls s wakeUps [] s (calls.map Task.ready) where
  length := List.length_map _
  nodup := List.nodup_nil
  lt := fun i hi => absurd hi List.not_mem_nil
  awaits := by
    intro i c t hc ht _
    rw [List.getElem?_map, hc] at ht
    cases ht
    exact Or.inl rfl
  outlook := ⟨s, .free hfree fun i hi => absurd hi List.not_mem_nil, .refl s.bench, rfl⟩
  replies := rfl

/-- While a call has not had its turn, fewer have than there are. -/
theorem length_lt_of_not_mem (h : Serves calls s wakeUps order now tasks) (hlt : i < calls.length)
    (hi : i ∉ order) : order.length < calls.length := by
  have hsubset : i :: order ⊆ List.range calls.length := by
    intro j hj
    rcases List.mem_cons.mp hj with rfl | hj
    · exact List.mem_range.mpr hlt
    · exact List.mem_range.mpr (h.lt j hj)
  have hle := (List.nodup_cons.mpr ⟨hi, h.nodup⟩).length_le_of_subset hsubset
  rwa [List.length_cons, List.length_range] at hle

/-- A call has its turn next. What is left to say of it is that its task, and the system once all is
finished, are as they would be had it been made after the calls before it. -/
theorem takeTurn (h : Serves calls s wakeUps order now tasks) (hc : calls[i]? = some c)
    (hi : i ∉ order) {t' : Task σ} {now' : System}
    (houtlook : ∃ future, Outlook (order ++ [i]) now' (tasks.set i t') future ∧
      future.Like Bench.Alike (c.perform wakeUps
        (Call.performAll wakeUps (order.filterMap (calls[·]?)) s).2).2)
    (hother : ∀ j ∈ order, outcomeAt now' (tasks.set i t') j = outcomeAt now tasks j)
    (hself : outcomeAt now' (tasks.set i t') i = (c.perform wakeUps
        (Call.performAll wakeUps (order.filterMap (calls[·]?)) s).2).1.map Reply.untimed) :
    Serves calls s wakeUps (order ++ [i]) now' (tasks.set i t') := by
  obtain ⟨hlt, _⟩ := List.getElem?_eq_some_iff.mp hc
  have hcalls : (order ++ [i]).filterMap (calls[·]?) = order.filterMap (calls[·]?) ++ [c] := by
    rw [List.filterMap_append, List.filterMap_cons_some hc, List.filterMap_nil]
  refine ⟨(List.length_set).trans h.length, ?_, ?_, ?_, ?_, ?_⟩
  · refine List.nodup_append.mpr ⟨h.nodup, List.pairwise_singleton _ i, ?_⟩
    intro j hj k hk hjk
    rw [List.mem_singleton] at hk
    exact hi (hk ▸ hjk ▸ hj)
  · intro j hj
    rcases List.mem_append.mp hj with hj | hj
    · exact h.lt j hj
    · rw [List.mem_singleton.mp hj]
      exact hlt
  · intro j d u hd hu hj
    rw [List.mem_append, List.mem_singleton, not_or] at hj
    rw [List.getElem?_set_ne (Ne.symm hj.2)] at hu
    exact h.awaits j d u hd hu hj.1
  · rw [hcalls, Call.performAll_concat]
    exact houtlook
  · rw [hcalls, Call.performAll_concat, List.map_append, List.map_append, List.map_singleton, hself,
      List.map_congr_left hother, h.replies]
    rfl

/-- An interrupt has its turn at any time: it changes the inbox only. -/
theorem interrupt (h : Serves calls s wakeUps order now tasks) {time : Int64}
    (hc : calls[i]? = some (.interrupt time)) (hi : i ∉ order) :
    Serves calls s wakeUps (order ++ [i]) (now.interrupt time) (tasks.set i (.finished .ok)) := by
  obtain ⟨hlt, _⟩ := List.getElem?_eq_some_iff.mp hc
  have hself : (tasks.set i (Task.finished .ok))[i]? = some (.finished .ok) :=
    List.getElem?_set_self (h.length ▸ hlt)
  have hset : ∀ j ∈ order, (tasks.set i (Task.finished .ok))[j]? = tasks[j]? :=
    fun j hj => getElem?_set_of_not_mem hi hj
  have hother : ∀ j ∈ order ++ [i], (∃ r, tasks[j]? = some (.finished r)) ∨ j = i →
      ∃ r, (tasks.set i (Task.finished .ok))[j]? = some (.finished r) := by
    intro j hj hor
    by_cases hji : j = i
    · rw [hji]
      exact ⟨.ok, hself⟩
    · obtain ⟨r, hr⟩ := hor.resolve_right hji
      rw [List.getElem?_set_ne (Ne.symm hji)]
      exact ⟨r, hr⟩
  have hsplit : ∀ j ∈ order ++ [i], j ∈ order ∨ j = i := by
    intro j hj
    rw [List.mem_append, List.mem_singleton] at hj
    exact hj
  obtain ⟨future, houtlook, hfuture⟩ := h.outlook
  cases houtlook with
  | free hfree hdone =>
    refine h.takeTurn hc hi ⟨_, .free hfree ?_, ?_⟩ ?_ (outcomeAt_finished hself)
    · intro j hj
      exact hother j hj ((hsplit j hj).imp_left (hdone j))
    · exact ⟨{ hfuture.bench with }, hfuture.core⟩
    · intro j hj
      obtain ⟨r, hr⟩ := hdone j hj
      rw [outcomeAt_finished hr, outcomeAt_finished ((hset j hj).trans hr)]
  -- The holder is asleep; what is left of its work does not look at the inbox.
  | @held k x hlocked hmem hk hdone =>
    have hwoke : ((now.interrupt time).log .woke).Like Bench.Alike (now.log .woke) := by
      have hinbox : (now.interrupt time).bench.Alike now.bench :=
        { Bench.Alike.refl now.bench with }
      exact ⟨hinbox.log_untimed rfl, rfl⟩
    obtain ⟨hanswer, hafter⟩ := x.run_like Bench.isLikeness_alike hwoke
    refine h.takeTurn hc hi ⟨_, .held hlocked (List.mem_append_left _ hmem)
      ((hset k hmem).trans hk) ?_, ?_⟩ ?_ (outcomeAt_finished hself)
    · intro j hj hjk
      exact hother j hj ((hsplit j hj).imp_left fun hj => hdone j hj hjk)
    · have hlike := hafter.bench.trans hfuture.bench
      exact ⟨{ hlike with }, hafter.core.trans hfuture.core⟩
    · intro j hj
      by_cases hjk : j = k
      · rw [hjk, outcomeAt_asleep hk, outcomeAt_asleep ((hset k hmem).trans hk), hanswer]
      · obtain ⟨r, hr⟩ := hdone j hj hjk
        rw [outcomeAt_finished hr, outcomeAt_finished ((hset j hj).trans hr)]

/-- Who finds the lock taken waits for it. -/
theorem queue (h : Serves calls s wakeUps order now tasks) (hc : calls[i]? = some c)
    (hi : i ∉ order) (ht : t.Awaits c) : Serves calls s wakeUps order now (tasks.set i t) := by
  have hset : ∀ j ∈ order, (tasks.set i t)[j]? = tasks[j]? :=
    fun j hj => getElem?_set_of_not_mem hi hj
  refine ⟨(List.length_set).trans h.length, h.nodup, h.lt, ?_, ?_, ?_⟩
  · intro j d u hd hu hj
    by_cases hji : i = j
    · subst hji
      rw [hc] at hd
      rw [List.getElem?_set_self'] at hu
      obtain ⟨_, _, rfl⟩ := Option.map_eq_some_iff.mp hu
      exact Option.some.inj hd ▸ ht
    · rw [List.getElem?_set_ne hji] at hu
      exact h.awaits j d u hd hu hj
  · obtain ⟨future, houtlook, hfuture⟩ := h.outlook
    refine ⟨future, ?_, hfuture⟩
    cases houtlook with
    | free hfree hdone => exact .free hfree fun j hj => hset j hj ▸ hdone j hj
    | held hlocked hmem hk hdone =>
      exact .held hlocked hmem ((hset _ hmem).trans hk) fun j hj hjk => hset j hj ▸ hdone j hj hjk
  · rw [← h.replies]
    refine List.map_congr_left ?_
    intro j hj
    unfold outcomeAt
    rw [hset j hj]

/-- Who finds the lock free has its turn. -/
theorem enter (h : Serves calls s wakeUps order now tasks) (hc : calls[i]? = some c)
    (hi : i ∉ order) (hfree : now.locked = false) {x : Routine Reply} (hx : c.Work x) {t' : Task σ}
    {now' : System} (hnext : Task.proceed x { now with locked := true } = (t', now')) :
    Serves calls s wakeUps (order ++ [i]) now' (tasks.set i t') := by
  obtain ⟨hlt, _⟩ := List.getElem?_eq_some_iff.mp hc
  obtain ⟨future, houtlook, hfuture⟩ := h.outlook
  cases houtlook with
  | held hlocked hmem hk hdone =>
    rw [hfree] at hlocked
    cases hlocked
  | free _ hdone =>
    have hlocked : System.Like Bench.Alike { now with locked := true }
        (Call.performAll wakeUps (order.filterMap (calls[·]?)) s).2 :=
      ⟨hfuture.bench, hfuture.core⟩
    obtain ⟨r, hperform, hreply, hafter⟩ := Call.perform_of_work hx wakeUps hlocked
    have hdone' : ∀ j ∈ order ++ [i], j ≠ i → ∃ r, tasks[j]? = some (.finished r) := by
      intro j hj hji
      rw [List.mem_append, List.mem_singleton] at hj
      exact hdone j (hj.resolve_right hji)
    obtain ⟨houtlook', hanswer⟩ := Outlook.proceed hnext rfl
      (List.mem_append_right order (List.mem_singleton_self i)) (h.length ▸ hlt) hdone' hafter
    refine h.takeTurn hc hi houtlook' ?_ ?_
    · intro j hj
      obtain ⟨r, hr⟩ := hdone j hj
      rw [outcomeAt_finished hr, outcomeAt_finished ((getElem?_set_of_not_mem hi hj).trans hr)]
    · rw [hanswer, hperform, hreply]
      rfl

/-- A task that had its turn is finished, or it is the one that has the lock and waits. -/
theorem of_mem (h : Serves calls s wakeUps order now tasks) (hi : i ∈ order) :
    (∃ r, tasks[i]? = some (.finished r)) ∨
      ∃ x, tasks[i]? = some (.asleep (After.reply <$> x)) ∧ now.locked = true ∧
        (∀ j ∈ order, j ≠ i → ∃ r, tasks[j]? = some (.finished r)) ∧
        (x.run (now.log .woke)).2.Like Bench.Alike
          (Call.performAll wakeUps (order.filterMap (calls[·]?)) s).2 := by
  obtain ⟨future, houtlook, hfuture⟩ := h.outlook
  cases houtlook with
  | free _ hdone => exact Or.inl (hdone i hi)
  | @held k x hlocked hmem hk hdone =>
    by_cases hik : i = k
    · rw [hik]
      exact Or.inr ⟨x, hk, hlocked, hdone, hfuture⟩
    · exact Or.inl (hdone i hi hik)

/-- Who waits with the lock goes on with its work. -/
theorem wake (h : Serves calls s wakeUps order now tasks) (hi : i ∈ order) {x : Routine Reply}
    (ht : tasks[i]? = some (.asleep (After.reply <$> x))) (hlocked : now.locked = true)
    (hdone : ∀ j ∈ order, j ≠ i → ∃ r, tasks[j]? = some (.finished r))
    (hfuture : (x.run (now.log .woke)).2.Like Bench.Alike
      (Call.performAll wakeUps (order.filterMap (calls[·]?)) s).2)
    {t' : Task σ} {now' : System} (hnext : Task.proceed x (now.log .woke) = (t', now')) :
    Serves calls s wakeUps order now' (tasks.set i t') := by
  obtain ⟨hlt, _⟩ := List.getElem?_eq_some_iff.mp ht
  obtain ⟨houtlook, hanswer⟩ := Outlook.proceed hnext hlocked hi hlt hdone hfuture
  refine ⟨(List.length_set).trans h.length, h.nodup, h.lt, ?_, houtlook, ?_⟩
  · intro j d u hd hu hj
    have hij : i ≠ j := fun hij => hj (hij ▸ hi)
    rw [List.getElem?_set_ne hij] at hu
    exact h.awaits j d u hd hu hj
  · rw [← h.replies]
    refine List.map_congr_left ?_
    intro j hj
    by_cases hji : j = i
    · rw [hji, hanswer, outcomeAt_asleep ht]
    · obtain ⟨r, hr⟩ := hdone j hj hji
      rw [outcomeAt_finished hr,
        outcomeAt_finished ((List.getElem?_set_ne (Ne.symm hji)).trans hr)]

end Serves

namespace Task

variable {σ : Type}

/-- The call has not had its turn. -/
def isWaiting : Task σ → Bool
  | .ready _ | .queued _ => true
  | _ => false

/-- A call that awaits its turn is waiting. -/
theorem Awaits.isWaiting [Sink σ] {c : Call σ} {t : Task σ} (h : t.Awaits c) :
    t.isWaiting = true := by
  rcases h with rfl | ⟨x, _, rfl⟩ <;> rfl

/-- A call that has had the lock is not waiting any more. -/
theorem isWaiting_proceed (x : Routine Reply) (s : System) :
    (proceed x s : Task σ × System).1.isWaiting = false := by
  unfold proceed
  rcases x.advance s with ⟨r | rest, t⟩ <;> rfl

end Task

namespace Pool

variable {σ : Type} [Sink σ]

/-- The call at a position has its turn when it is resumed: it obtains the lock, or it is done if it
needs none. -/
def admits (wakeUps : Nat) (p : Pool σ) (i : Nat) : Bool :=
  p.tasks[i]?.any Task.isWaiting && !(p.resume wakeUps i).tasks[i]?.any Task.isWaiting

/-- The positions of calls in the order in which they have their turn under a schedule. -/
def lockOrder (wakeUps : Nat) : Pool σ → List Nat → List Nat
  | _, [] => []
  | p, i :: schedule =>
    let rest := (p.resume wakeUps i).lockOrder wakeUps schedule
    if p.admits wakeUps i then i :: rest else rest

/-- A resumption is what the task at that position does. -/
theorem resume_eq {p : Pool σ} {i : Nat} {t : Task σ} (ht : p.tasks[i]? = some t) (wakeUps : Nat) :
    (p.resume wakeUps i).system = (t.resume (Task.stretch wakeUps) p.system).2 ∧
      (p.resume wakeUps i).tasks =
        p.tasks.set i (t.resume (Task.stretch wakeUps) p.system).1 := by
  unfold resume
  rw [ht]
  cases t with
  | finished r =>
    rw [Task.resume_of_stuck rfl]
    exact ⟨rfl, (set_eq_self ht).symm⟩
  | _ => exact ⟨rfl, rfl⟩

/-- A resumption lets a task in if that was waiting before and is not afterwards. -/
theorem admits_eq {p : Pool σ} {i : Nat} {t : Task σ} (ht : p.tasks[i]? = some t) (wakeUps : Nat) :
    p.admits wakeUps i =
      (t.isWaiting && !(t.resume (Task.stretch wakeUps) p.system).1.isWaiting) := by
  obtain ⟨hlt, _⟩ := List.getElem?_eq_some_iff.mp ht
  unfold admits
  rw [(resume_eq ht wakeUps).2, List.getElem?_set_self hlt, ht]
  rfl

variable {calls : List (Call σ)} {s : System} {wakeUps : Nat} {order : List Nat} {p : Pool σ}

/-- A resumption keeps the pool as if calls were made one after the other. -/
theorem serves_resume (hcalls : ∀ c ∈ calls, c.IsBrief)
    (h : Serves calls s wakeUps order p.system p.tasks) (i : Nat) :
    Serves calls s wakeUps (if p.admits wakeUps i then order ++ [i] else order)
      (p.resume wakeUps i).system (p.resume wakeUps i).tasks := by
  cases ht : p.tasks[i]? with
  | none =>
    have hresume : p.resume wakeUps i = p := by
      unfold resume
      rw [ht]
    have hadmits : p.admits wakeUps i = false := by
      unfold admits
      rw [ht]
      rfl
    rw [hresume, hadmits]
    exact h
  | some t =>
    obtain ⟨hsystem, htasks⟩ := resume_eq ht wakeUps
    rw [hsystem, htasks, admits_eq ht]
    by_cases hi : i ∈ order
    · -- The call has had its turn already: it is finished or holds the lock asleep.
      rcases h.of_mem hi with ⟨r, hr⟩ | ⟨x, hx, hlocked, hdone, hfuture⟩
      · cases ht.symm.trans hr
        rw [Task.resume_of_stuck rfl, set_eq_self hr]
        exact h
      · cases ht.symm.trans hx
        have hnext : (Task.asleep (After.reply <$> x) : Task σ).resume (Task.stretch wakeUps)
            p.system = Task.proceed x (p.system.log .woke) := Task.resume_asleep _ x p.system
        rw [hnext]
        exact h.wake hi hx hlocked hdone hfuture rfl
    · -- It is yet to have its turn, which begins now if the lock is free.
      obtain ⟨hlt, _⟩ := List.getElem?_eq_some_iff.mp ht
      obtain ⟨c, hc⟩ : ∃ c, calls[i]? = some c :=
        ⟨_, List.getElem?_eq_getElem (h.length ▸ hlt)⟩
      have hwait := h.awaits i c t hc ht hi
      rw [hwait.isWaiting, Bool.true_and]
      rcases Task.resume_awaits (hcalls c (List.mem_of_getElem? hc)) hwait wakeUps p.system with
        ⟨time, hcall, hnext⟩ | ⟨x, hx, hnext⟩
      · rw [hnext]
        exact h.interrupt (hcall ▸ hc) hi
      · rw [hnext]
        cases hlocked : p.system.locked with
        | true => exact h.queue hc hi (Or.inr ⟨x, hx, rfl⟩)
        | false =>
          rw [if_neg Bool.false_ne_true, Task.isWaiting_proceed]
          exact h.enter hc hi hlocked hx rfl

/-- After every schedule the pool is as if the calls that had their turn had been made one after the
other. -/
theorem serves_follow (hcalls : ∀ c ∈ calls, c.IsBrief)
    (h : Serves calls s wakeUps order p.system p.tasks) (schedule : List Nat) :
    Serves calls s wakeUps (order ++ p.lockOrder wakeUps schedule)
      (p.follow wakeUps schedule).system (p.follow wakeUps schedule).tasks := by
  induction schedule generalizing order p with
  | nil =>
    rw [lockOrder, List.append_nil]
    exact h
  | cons i schedule ih =>
    have hrest := ih (serves_resume hcalls h i)
    rw [lockOrder]
    cases hadmits : p.admits wakeUps i with
    | true =>
      rw [hadmits, if_pos rfl, List.append_assoc] at hrest
      exact hrest
    | false =>
      rw [hadmits] at hrest
      exact hrest

end Pool

end Inertial
