import Inertial.Proofs.Driver.Steadiness
import Inertial.Proofs.Shared.Reachable

/-!
# What the lock guards

Whoever takes the lock of a device finds it as the answers that were given so far left it. A
covenant says how: `rest` holds of a system whenever nobody has the lock, and it knows the
operations that have been answered, in the order in which they were. It is kept if every operation
that is begun where it holds ends where it holds again with one more answer, and if taking a sample
does no harm.

`System.IsReachableFrom` are the systems that can be reached, with the operations that were answered
on the way to them, and every covenant that is kept holds in all of them (`Covenant.IsKept.holds`).
A steady property holds whoever has the lock (`Covenant.isKept_always`).
-/

set_option autoImplicit false

namespace Inertial

/-! ## Answers in their order -/

/-- What is noted of a call that has the given answer: an operation together with it. -/
def Call.note {σ : Type} : Call σ → Option Reply → List (Operation × Reply)
  | .operation op, some r => [(op, r)]
  | _, _ => []

/-- Of a call without an answer nothing is noted. -/
@[simp] theorem Call.note_none {σ : Type} (c : Call σ) : c.note none = [] := by
  cases c <;> rfl

namespace Pool

variable {σ : Type}

/-- What is noted of the calls at a list of positions. -/
def notes (calls : List (Call σ)) (order : List Nat) (tasks : List (Task σ)) :
    List (Operation × Reply) :=
  order.flatMap fun i =>
    match calls[i]?, tasks[i]? with
    | some c, some t => c.note t.reply?
    | _, _ => []

/-- The operations that have been answered, in the order in which they were, each with its answer.
-/
def answered (calls : List (Call σ)) (p : Pool σ) : List (Operation × Reply) :=
  notes calls p.order p.tasks

/-- What is noted grows by the answer of the task that moves, if that finishes it. -/
theorem notes_set {calls : List (Call σ)} {order : List Nat} {tasks : List (Task σ)} {i : Nat}
    {t t' : Task σ} {c : Call σ} (hc : calls[i]? = some c) (ht : tasks[i]? = some t)
    (hi : i ∉ order) :
    notes calls (if t'.reply?.isSome then order ++ [i] else order) (tasks.set i t') =
      notes calls order tasks ++ c.note t'.reply? := by
  have hold : notes calls order (tasks.set i t') = notes calls order tasks := by
    unfold notes
    rw [List.flatMap_def, List.flatMap_def]
    refine congrArg List.flatten (List.map_congr_left ?_)
    intro j hj
    have hji : i ≠ j := fun h => hi (h ▸ hj)
    rw [List.getElem?_set_ne hji]
  cases hreply : t'.reply? with
  | none =>
    rw [Call.note_none, List.append_nil]
    exact hold
  | some r =>
    obtain ⟨hlt, _⟩ := List.getElem?_eq_some_iff.mp ht
    have hself : (tasks.set i t')[i]? = some t' := List.getElem?_set_self hlt
    have hnew : notes calls [i] (tasks.set i t') = c.note (some r) := by
      unfold notes
      rw [List.flatMap_singleton, hc, hself, ← hreply]
    rw [← hnew, ← hold]
    exact List.flatMap_append

variable [Sink σ]

/-- What every transition keeps, with the order in which tasks finish, holds after a task has been
resumed. -/
theorem resume_order_induction {P : List Nat → System → List (Task σ) → Prop}
    (hstep : ∀ order s tasks i t t' s', P order s tasks → tasks[i]? = some t →
      t.step s = some (t', s') →
      P (if t'.reply?.isSome then order ++ [i] else order) s' (tasks.set i t'))
    (n : Nat) {order : List Nat} {s : System} {tasks : List (Task σ)} {i : Nat} {t : Task σ}
    (hP : P order s tasks) (hi : tasks[i]? = some t) (ht : t.reply? = none) :
    P (if (t.resume n s).1.reply?.isSome then order ++ [i] else order) (t.resume n s).2
      (tasks.set i (t.resume n s).1) := by
  have hstay : P (if t.reply?.isSome then order ++ [i] else order) s (tasks.set i t) := by
    rw [ht, set_eq_self hi]
    exact hP
  induction n generalizing s tasks t with
  | zero => exact hstay
  | succ n ih =>
    cases hx : t.step s with
    | none =>
      rw [Task.resume, hx]
      exact hstay
    | some next =>
      obtain ⟨t', s'⟩ := next
      have hnext := hstep order s tasks i t t' s' hP hi hx
      have hi' : (tasks.set i t')[i]? = some t' := by
        obtain ⟨hlt, _⟩ := List.getElem?_eq_some_iff.mp hi
        exact List.getElem?_set_self hlt
      -- A task that has no answer yet goes on, and nobody is added to the order.
      have hgoon : t'.reply? = none →
          P (if (t'.resume n s').1.reply?.isSome then order ++ [i] else order) (t'.resume n s').2
            (tasks.set i (t'.resume n s').1) := by
        intro ht'
        rw [ht'] at hnext
        have hrest := ih hnext hi' ht' (by rw [ht', set_eq_self hi']; exact hnext)
        rw [List.set_set] at hrest
        exact hrest
      rw [Task.resume, hx]
      cases t' with
      | asleep rest => exact hnext
      | finished r => cases n <;> exact hnext
      | _ => exact hgoon rfl

/-- What every transition keeps, with the order in which tasks finish, holds after every schedule.
-/
theorem order_induction {P : List Nat → System → List (Task σ) → Prop}
    (hstep : ∀ order s tasks i t t' s', P order s tasks → tasks[i]? = some t →
      t.step s = some (t', s') →
      P (if t'.reply?.isSome then order ++ [i] else order) s' (tasks.set i t'))
    {p : Pool σ} (hp : P p.order p.system p.tasks) (wakeUps : Nat) (schedule : List Nat) :
    P (p.follow wakeUps schedule).order (p.follow wakeUps schedule).system
      (p.follow wakeUps schedule).tasks := by
  induction schedule generalizing p with
  | nil => exact hp
  | cons i schedule ih =>
    refine ih ?_
    unfold resume
    split
    · exact hp
    · exact hp
    · rename_i t hne hi
      refine resume_order_induction hstep _ hp hi ?_
      cases t with
      | finished r => exact (hne r rfl).elim
      | _ => rfl

end Pool

/-- The systems in which a device can be found after it was powered up on a bench of which `B`
holds, with the operations that have been answered since. -/
inductive System.IsReachableFrom (B : Bench → Prop) :
    List (Operation × Reply) → System → Prop where
  | powerUp {bench : Bench} {chip : Chip} {interrupt : PinSetup} (hin : bench.InStep)
      (hbench : B bench)
      (hok : ((Driver.powerUp chip interrupt).exec { bench, core := .fresh chip }).1 = .ok ()) :
      IsReachableFrom B []
        (((Driver.powerUp chip interrupt).exec { bench, core := .fresh chip }).2.withInbox {})
  | follow {σ : Type} [Sink σ] {answers : List (Operation × Reply)} {s : System}
      (hs : IsReachableFrom B answers s) (hfree : s.locked = false)
      (calls : List (Call σ)) (wakeUps : Nat) (schedule : List Nat) :
      IsReachableFrom B
        (answers ++ ((Pool.ofCalls calls s).follow wakeUps schedule).answered calls)
        ((Pool.ofCalls calls s).follow wakeUps schedule).system

/-- The systems in which a device can be found after it was powered up on a bench with a given
trace, with the operations that have been answered since. -/
abbrev System.IsReachableBy (past : List Event) : List (Operation × Reply) → System → Prop :=
  IsReachableFrom fun bench => bench.trace = past

/-- Where the device was powered up does not matter for whether the system can be reached. -/
theorem System.IsReachableFrom.isReachable {B : Bench → Prop}
    {answers : List (Operation × Reply)} {s : System} (hs : s.IsReachableFrom B answers) :
    s.IsReachable := by
  induction hs with
  | powerUp hin _ hok => exact .powerUp hin hok
  | follow _ hfree calls wakeUps schedule ih => exact ih.follow hfree calls wakeUps schedule

/-- Some operations have been answered on the way to every system that can be reached. -/
theorem System.IsReachable.exists_isReachableBy {s : System} (hs : s.IsReachable) :
    ∃ past answers, s.IsReachableBy past answers := by
  induction hs with
  | powerUp hin hok => exact ⟨_, [], .powerUp hin rfl hok⟩
  | follow _ hfree calls wakeUps schedule ih =>
    obtain ⟨past, answers, hs⟩ := ih
    exact ⟨past, _, hs.follow hfree calls wakeUps schedule⟩

/-! ## Covenants -/

/-- What whoever takes the lock may count on. -/
structure Covenant where
  /-- Holds whenever nobody has the lock, after the given answers. -/
  rest : List (Operation × Reply) → System → Prop
  /-- Holds whenever a task can be interrupted. -/
  seen : System → Prop

namespace Covenant

variable {C : Covenant} {answers : List (Operation × Reply)} {s t : System}

/-- Operations and samples lead from `rest` to `rest`. -/
structure IsKept (C : Covenant) : Prop where
  seen_of_rest : ∀ {answers s}, C.rest answers s → C.seen s
  rest_around : ∀ {answers s} (i : Inbox) (locked : Bool), C.rest answers s →
    C.rest answers { s.withInbox i with locked }
  seen_around : ∀ {s} (i : Inbox) (locked : Bool), C.seen s → C.seen { s.withInbox i with locked }
  seen_woke : ∀ {s}, C.seen s → C.seen (s.log .woke)
  operation : ∀ answers (op : Operation) s, C.rest answers s →
    op.body.Upholds C.seen (fun r t => C.rest (answers ++ [(op, r)]) t) s
  sample : ∀ {σ : Type} [Sink σ] answers (time : Int64) (sink : σ) s, C.rest answers s →
    (Driver.takeSample time sink).Upholds C.seen (fun _ t => C.rest answers t) s

/-- A covenant does not look at the inbox. -/
theorem IsKept.rest_withInbox (hC : C.IsKept) (i : Inbox) (hs : C.rest answers s) :
    C.rest answers (s.withInbox i) :=
  hC.rest_around i s.locked hs

section

variable {σ : Type}

/-- The covenant holds again when the call goes on like this, and only a call that is no operation
serves on. -/
def Concludes (C : Covenant) (c : Call σ) (answers : List (Operation × Reply)) (a : After σ)
    (t : System) : Prop :=
  C.rest (answers ++ c.note (Task.ofAfter a).reply?) t ∧
    ∀ sink, a = .serve sink → ∀ r, c.note r = []

/-- Begun where the covenant holds, the work for a call ends where it does. -/
def Abides (C : Covenant) (c : Call σ) (x : Routine (After σ)) : Prop :=
  ∀ answers s, C.rest answers s → x.Upholds C.seen (C.Concludes c answers) s

variable [Sink σ]

omit [Sink σ] in
/-- The work for an operation leads from rest to rest, with its answer noted. -/
theorem IsKept.abides_operation (hC : C.IsKept) (op : Operation) :
    C.Abides (.operation op : Call σ) (After.reply <$> op.body) := by
  intro answers s hs
  rw [← bind_pure_comp, Routine.upholds_bind]
  refine (hC.operation answers op s hs).mono ?_
  intro r t ht
  exact ⟨ht, fun sink h => nomatch h⟩

variable {c : Call σ} (hc : ∀ r, c.note r = [])
include hc

/-- A sample call leads from rest to rest, and nothing is noted of it. -/
theorem IsKept.abides_processBody (hC : C.IsKept) (time : Int64) (sink : σ) :
    C.Abides c (Task.processBody time sink) := by
  intro answers s hs
  unfold Task.processBody
  rw [Routine.upholds_bind]
  refine (hC.sample answers time sink s hs).mono ?_
  rintro ⟨sample, sink'⟩ t ht
  refine ⟨?_, fun _ h => nomatch h⟩
  rw [hc, List.append_nil]
  exact ht

/-- So does a worker for each wake-up. -/
theorem IsKept.abides_serveBody (hC : C.IsKept) (time : Int64) (sink : σ) :
    C.Abides c (Task.serveBody time sink) := by
  intro answers s hs
  unfold Task.serveBody
  rw [Routine.upholds_bind]
  refine (hC.sample answers time sink s hs).mono ?_
  rintro ⟨sample, sink'⟩ t ht
  refine ⟨?_, fun _ _ => hc⟩
  rw [hc, List.append_nil]
  exact ht

end

/-- What is left of the call `c` leads to where the covenant holds. -/
def Binds {σ : Type} (C : Covenant) (c : Call σ) (answers : List (Operation × Reply)) :
    Task σ → System → Prop
  | .ready d, _ => d = c
  | .queued body, _ => C.Abides c body
  | .holding body, s => ∀ i, body.Upholds C.seen (C.Concludes c answers) (s.withInbox i)
  | .asleep body, s =>
    ∀ i, body.Upholds C.seen (C.Concludes c answers) ((s.withInbox i).log .woke)
  | .listening _, _ => ∀ r, c.note r = []
  | .finished _, _ => True

section

variable {σ : Type} {c : Call σ} {u u' : Task σ} {s' : System}

/-- The promise of a task without the lock is about its call only. -/
theorem Binds.of_not_hasLock {later : List (Operation × Reply)} (hu : C.Binds c answers u s)
    (hlock : u.hasLock = false) : C.Binds c later u s' := by
  cases u with
  | holding body => cases hlock
  | asleep body => cases hlock
  | _ => exact hu

/-- What binds a task does not look at the inbox. -/
theorem Binds.withInbox (hu : C.Binds c answers u s) (i : Inbox) :
    C.Binds c answers u (s.withInbox i) := by
  cases u <;> exact hu

/-- A transition without the lock leaves the promise as it is, and it answers no operation. -/
theorem Binds.step [Sink σ] (hC : C.IsKept) (hu : C.Binds c answers u s)
    (hlock : u.hasLock = false) (hlock' : u'.hasLock = false) (hstep : u.step s = some (u', s')) :
    C.Binds c answers u' s' ∧ c.note u'.reply? = [] := by
  cases u with
  | ready call =>
    subst hu
    cases call with
    | operation op =>
      cases hstep
      exact ⟨hC.abides_operation op, rfl⟩
    | identity =>
      cases hstep
      exact ⟨trivial, rfl⟩
    | interrupt now =>
      cases hstep
      exact ⟨trivial, rfl⟩
    | awaitInterrupt =>
      obtain ⟨_, _, he⟩ := Option.map_eq_some_iff.mp hstep
      cases he
      exact ⟨trivial, rfl⟩
    | process sink =>
      cases hstep
      exact ⟨hC.abides_processBody (fun _ => rfl) _ sink, rfl⟩
    | serve sink =>
      cases hstep
      exact ⟨fun _ => rfl, rfl⟩
  | listening sink =>
    obtain ⟨_, _, he⟩ := Option.map_eq_some_iff.mp hstep
    cases he
    exact ⟨hC.abides_serveBody hu _ sink, hu _⟩
  | queued body =>
    rw [Task.step] at hstep
    split at hstep
    · cases hstep
    · cases hstep
      cases hlock'
  | holding body => cases hlock
  | asleep body => cases hlock
  | finished r => cases hstep

end

/-- After the answers that are noted, the covenant holds, and every task has promised that it is
going to. `before` are the answers from before these calls. -/
structure Governs {σ : Type} (C : Covenant) (calls : List (Call σ))
    (before : List (Operation × Reply)) (order : List Nat) (s : System) (tasks : List (Task σ)) :
    Prop where
  guarded : Guarded Core.Mirrored s tasks
  finished : ∀ i ∈ order, ∃ r, tasks[i]? = some (.finished r)
  seen : C.seen s
  rest : s.locked = false → C.rest (before ++ Pool.notes calls order tasks) s
  binds : ∀ (i : Nat) (t : Task σ), tasks[i]? = some t →
    ∃ c, calls[i]? = some c ∧ C.Binds c (before ++ Pool.notes calls order tasks) t s

namespace Governs

variable {σ : Type} {calls : List (Call σ)} {before : List (Operation × Reply)}
  {order : List Nat} {tasks : List (Task σ)} {u u' : Task σ} {i : Nat} {s' : System}

/-- Before they begin, calls are governed by a covenant that holds. -/
theorem ofCalls (hC : C.IsKept) (hagrees : s.Agrees Core.Mirrored) (hs : C.rest before s) :
    C.Governs calls before [] s (calls.map Task.ready) where
  guarded := .ofCalls hagrees fun op _ => op.keeps_mirrored
  finished := by simp
  seen := hC.seen_of_rest hs
  rest := by
    intro _
    rw [Pool.notes, List.flatMap_nil, List.append_nil]
    exact hs
  binds := by
    intro i t hi
    rw [List.getElem?_map] at hi
    obtain ⟨c, hc, rfl⟩ := Option.map_eq_some_iff.mp hi
    exact ⟨c, hc, rfl⟩

/-- Who finishes is noted, and who was finished stays so. -/
theorem finished_set (h : C.Governs calls before order s tasks) (hi : tasks[i]? = some u)
    (hnew : i ∉ order) : ∀ j ∈ (if u'.reply?.isSome then order ++ [i] else order),
      ∃ r, (tasks.set i u')[j]? = some (.finished r) := by
  have hold : ∀ j ∈ order, ∃ r, (tasks.set i u')[j]? = some (.finished r) := by
    intro j hj
    have hji : i ≠ j := fun he => hnew (he ▸ hj)
    rw [List.getElem?_set_ne hji]
    exact h.finished j hj
  cases u' with
  | finished r =>
    intro j hj
    rcases List.mem_append.mp hj with hj | hj
    · exact hold j hj
    · obtain ⟨hlt, _⟩ := List.getElem?_eq_some_iff.mp hi
      rw [List.mem_singleton.mp hj]
      exact ⟨r, List.getElem?_set_self hlt⟩
  | _ => exact hold

/-- A task may be replaced if the covenant goes on to hold when nobody has the lock, after one more
answer if the task finishes, and if all promises stand after that answer. -/
theorem set {c : Call σ} (h : C.Governs calls before order s tasks) (hc : calls[i]? = some c)
    (hi : tasks[i]? = some u) (hnew : i ∉ order)
    (hguarded : Guarded Core.Mirrored s' (tasks.set i u')) (hseen : C.seen s')
    (hrest : s'.locked = false →
      C.rest (before ++ Pool.notes calls order tasks ++ c.note u'.reply?) s')
    (hown : C.Binds c (before ++ Pool.notes calls order tasks ++ c.note u'.reply?) u' s')
    (hother : ∀ (j : Nat) (t : Task σ), j ≠ i → tasks[j]? = some t → ∀ d,
      C.Binds d (before ++ Pool.notes calls order tasks) t s →
      C.Binds d (before ++ Pool.notes calls order tasks ++ c.note u'.reply?) t s') :
    C.Governs calls before (if u'.reply?.isSome then order ++ [i] else order) s'
      (tasks.set i u') := by
  refine ⟨hguarded, h.finished_set hi hnew, hseen, ?_, ?_⟩
  · rw [Pool.notes_set hc hi hnew, ← List.append_assoc]
    exact hrest
  · intro j t hj
    rw [Pool.notes_set hc hi hnew, ← List.append_assoc]
    rcases getElem?_set_cases hj with ⟨rfl, rfl⟩ | ⟨hji, hj⟩
    · exact ⟨c, hc, hown⟩
    · obtain ⟨d, hd, ht⟩ := h.binds j t hj
      exact ⟨d, hd, hother j t hji hj d ht⟩

variable [Sink σ]

/-- Who can still make a transition has not finished. -/
theorem not_mem_order (h : C.Governs calls before order s tasks) (hi : tasks[i]? = some u)
    (hstep : u.step s = some (u', s')) : i ∉ order := by
  intro hmem
  obtain ⟨r, hr⟩ := h.finished i hmem
  cases hi.symm.trans hr
  cases hstep

/-- One transition of one task keeps everything. -/
theorem step (hC : C.IsKept) (h : C.Governs calls before order s tasks) (hi : tasks[i]? = some u)
    (hstep : u.step s = some (u', s')) :
    C.Governs calls before (if u'.reply?.isSome then order ++ [i] else order) s'
      (tasks.set i u') := by
  obtain ⟨c, hc, hu⟩ := h.binds i u hi
  have hfinish := h.set hc hi (h.not_mem_order hi hstep) (h.guarded.step hi hstep)
  rcases Task.step_cases hstep with ⟨hlock, hlock', ⟨inbox, rfl⟩, _⟩ |
    ⟨body, rfl, hfree, rfl, rfl⟩ | ⟨body, rfl, rfl, rfl⟩ | ⟨body, rest, rfl, hx, rfl⟩ |
    ⟨body, after, v, rfl, hx, rfl, rfl⟩
  · -- A task without the lock changes nothing but the inbox, which no covenant looks at.
    obtain ⟨hown, hnone⟩ := hu.step hC hlock hlock' hstep
    rw [hnone, List.append_nil] at hfinish
    refine hfinish (hC.seen_around inbox s.locked h.seen) ?_ hown
      fun j t _ _ d ht => ht.withInbox inbox
    intro hfree
    exact hC.rest_withInbox inbox (h.rest hfree)
  · -- Nobody has the lock, so whoever takes it finds the covenant as it is at rest.
    have hnone : c.note (Task.holding body).reply? = [] := c.note_none
    rw [hnone, List.append_nil] at hfinish
    refine hfinish (hC.seen_around s.bench.inbox true h.seen) (fun hlocked => nomatch hlocked) ?_ ?_
    · intro inbox
      have hrest := hC.rest_around inbox true (h.rest hfree)
      exact hu _ _ hrest
    · intro j t _ hj d ht
      exact ht.of_not_hasLock (h.guarded.free hfree j t hj)
  · have hnone : c.note (Task.holding body).reply? = [] := c.note_none
    rw [hnone, List.append_nil] at hfinish
    have hlocked := h.guarded.locked_of_hasLock hi rfl
    refine hfinish (hC.seen_woke h.seen) ?_ hu ?_
    · intro hfree
      rw [show (s.log .woke).locked = s.locked from rfl, hlocked] at hfree
      cases hfree
    · intro j t hji hj d ht
      exact ht.of_not_hasLock (h.guarded.not_hasLock hi rfl j t hji hj)
  · have hnone : c.note (Task.asleep rest).reply? = [] := c.note_none
    rw [hnone, List.append_nil] at hfinish
    have hup := Routine.upholds_advance (hu s.bench.inbox)
    have hlocked := body.advance_locked s
    rw [show s.withInbox s.bench.inbox = s from rfl, hx] at hup
    rw [hx, h.guarded.locked_of_hasLock hi rfl] at hlocked
    refine hfinish hup.1 ?_ hup.2 ?_
    · intro hfree
      rw [hfree] at hlocked
      cases hlocked
    · intro j t hji hj d ht
      exact ht.of_not_hasLock (h.guarded.not_hasLock hi rfl j t hji hj)
  · -- The turn is over, and what it answered is noted.
    have hup := Routine.upholds_advance (hu s.bench.inbox)
    rw [show s.withInbox s.bench.inbox = s from rfl, hx] at hup
    obtain ⟨hrest, hserve⟩ := hup
    have hend := hC.rest_around v.bench.inbox false hrest
    refine hfinish (hC.seen_of_rest hend) (fun _ => hend) ?_ ?_
    · cases after with
      | reply r => trivial
      | serve sink => exact hserve sink rfl
    · intro j t hji hj d ht
      exact ht.of_not_hasLock (h.guarded.not_hasLock hi rfl j t hji hj)

end Governs

/-- A covenant that is kept and that powering up brings about holds in all systems that can be
reached. -/
theorem IsKept.holds (hC : C.IsKept) {B : Bench → Prop}
    (hstart : ∀ (bench : Bench) (chip : Chip) (interrupt : PinSetup) (t : System), bench.InStep →
      B bench →
      (Driver.powerUp chip interrupt).exec { bench, core := .fresh chip } = (.ok (), t) →
      C.rest [] t)
    (hs : s.IsReachableFrom B answers) :
    C.seen s ∧ (s.locked = false → C.rest answers s) := by
  induction hs with
  | powerUp hin hbench hok =>
    have hrest := hC.rest_withInbox {} (hstart _ _ _ _ hin hbench (Prod.ext hok rfl))
    exact ⟨hC.seen_of_rest hrest, fun _ => hrest⟩
  | @follow σ _ answers s hs hfree calls wakeUps schedule ih =>
    have h := Pool.order_induction
      (P := fun order s tasks => C.Governs calls answers order s tasks)
      (fun _ _ _ _ _ _ _ h hi hstep => h.step hC hi hstep)
      (p := Pool.ofCalls calls s) (.ofCalls hC hs.isReachable.agrees (ih.2 hfree)) wakeUps schedule
    exact ⟨h.seen, h.rest⟩

/-- A property that holds all the time, whoever has the lock. -/
def always (I : System → Prop) : Covenant where
  rest _ := I
  seen := I

/-- What is steady is a covenant that is kept. -/
theorem isKept_always {I : System → Prop} (hI : System.IsSteady I) : (always I).IsKept where
  seen_of_rest := fun h => h
  rest_around := fun i locked h => hI.around _ i locked h
  seen_around := fun i locked h => hI.around _ i locked h
  seen_woke := fun h => hI.log _ _ rfl h
  operation := fun _ op => op.stays_body hI
  sample := fun _ time sink => Driver.stays_takeSample hI time sink

end Covenant

/-- A steady property of the system before it was powered up holds ever after. -/
theorem System.IsReachableFrom.steady {I : System → Prop} (hI : System.IsSteady I)
    {B : Bench → Prop} {answers : List (Operation × Reply)} {s : System}
    (hstart : ∀ (bench : Bench) (chip : Chip), B bench → I { bench, core := .fresh chip })
    (hs : s.IsReachableFrom B answers) : I s := by
  refine ((Covenant.isKept_always hI).holds ?_ hs).1
  intro bench chip interrupt t _ hbench hexec
  have hend := Driver.upholds_exec (Driver.stays_powerUp hI chip interrupt _
    (hstart bench chip hbench))
  rw [hexec] at hend
  exact hend

/-- A device is always reached in its first bank. -/
theorem System.IsReachableFrom.atFirstBank {B : Bench → Prop}
    {answers : List (Operation × Reply)} {s : System} (hs : s.IsReachableFrom B answers) :
    s.bench.AtFirstBank :=
  ((Covenant.isKept_always System.isSteady_atFirstBank).holds
    (fun _ _ _ _ _ _ hexec => Driver.atFirstBank_of_exec_powerUp hexec) hs).1

end Inertial
