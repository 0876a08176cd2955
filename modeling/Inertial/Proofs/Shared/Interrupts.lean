import Inertial.Proofs.Driver.Blindness
import Inertial.Proofs.Shared.Rest

/-!
# Interrupts do not interfere

Two systems are alike if they are the same but for what interrupts leave, the inbox and the times
of samples (`System.Alike`). On such systems a call does the same and gives the same answer, and so
do calls that share the device: what a task does with the lock does not depend on when interrupts
come, so pools of tasks stay alike whatever interrupts come between resumptions of the one and of
the other (`Pool.Alike.pursue`), and when they come to rest (`Pool.settle_alike`).

The calls themselves may differ in the times of interrupts and in the sinks, as long as both sinks
want samples or both do not (`Call.Alike`). Calls that wait for interrupts are left out, since they
do depend on them.
-/

set_option autoImplicit false

namespace Inertial

/-! ## Systems and routines -/

/-- The systems are the same but for the inbox, the edges still to come and the times of samples. -/
structure System.Alike (s t : System) : Prop where
  like : s.Like Bench.Alike t
  locked : s.locked = t.locked

namespace System.Alike

variable {s t : System}

/-- Systems stay alike whatever comes to their inboxes. -/
theorem withInbox (h : s.Alike t) (i j : Inbox) : (s.withInbox i).Alike (t.withInbox j) :=
  ⟨⟨{ h.like.bench with }, h.like.core⟩, h.locked⟩

/-- Systems stay alike if the lock is taken or given back in both. -/
theorem withLocked (h : s.Alike t) (b : Bool) :
    System.Alike { s with locked := b } { t with locked := b } :=
  ⟨⟨h.like.bench, h.like.core⟩, rfl⟩

/-- Systems stay alike if the same is logged in both. -/
theorem log (h : s.Alike t) (e : Event) : (s.log e).Alike (t.log e) :=
  ⟨⟨Bench.isLikeness_alike.log h.like.bench e, h.like.core⟩, h.locked⟩

end System.Alike

/-! ## Calls -/

section

variable {σ τ : Type} [Sink σ] [Sink τ]

/-- The same call, up to the time of an interrupt and what a sink does with samples. -/
inductive Call.Alike : Call σ → Call τ → Prop where
  | operation (op : Operation) : Alike (.operation op) (.operation op)
  | identity : Alike .identity .identity
  | interrupt (now later : Int64) : Alike (.interrupt now) (.interrupt later)
  | process {sink : σ} {other : τ} (h : Sink.isEnabled sink = Sink.isEnabled other) :
      Alike (.process sink) (.process other)

namespace Call.Alike

variable {c : Call σ} {d : Call τ} {x y : Routine Reply} {s t : System}

/-- Calls that are alike do not wait for wake-ups. -/
theorem waits_eq_false (h : c.Alike d) : c.waits = false ∧ d.waits = false := by
  cases h <;> exact ⟨rfl, rfl⟩

/-- While nobody else uses the device, both calls do the same. -/
theorem perform (h : c.Alike d) (hs : s.Like Bench.Alike t) (wakeUps wakeUps' : Nat) :
    (c.perform wakeUps s).1.map Reply.untimed = (d.perform wakeUps' t).1.map Reply.untimed ∧
      (c.perform wakeUps s).2.Like Bench.Alike (d.perform wakeUps' t).2 := by
  cases h with
  | operation op =>
    obtain ⟨hreply, hafter⟩ := op.body.run_like Bench.isLikeness_alike hs
    exact ⟨congrArg (fun r => some (Reply.untimed r)) hreply, hafter⟩
  | identity => exact ⟨congrArg (fun core : Core => some (Reply.identity core.chip)) hs.core, hs⟩
  | interrupt now later => exact ⟨rfl, { hs.bench with }, hs.core⟩
  | process h =>
    obtain ⟨hsample, hafter⟩ := Driver.takeSample_alike s.stamp t.stamp h hs
    exact ⟨congrArg (fun r => some (Reply.sample r)) hsample, hafter⟩

end Call.Alike

/-! ## Tasks -/

/-- The same task, up to what its call may differ in. -/
inductive Task.Alike : Task σ → Task τ → Prop where
  | awaits {c : Call σ} {d : Call τ} {t : Task σ} {u : Task τ} (h : c.Alike d) (ht : t.Awaits c)
      (hu : u.Awaits d) : Alike t u
  | asleep (x : Routine Reply) :
      Alike (.asleep (After.reply <$> x)) (.asleep (After.reply <$> x))
  | finished {r r' : Reply} (h : r.untimed = r'.untimed) : Alike (.finished r) (.finished r')

namespace Task

/-- Two tasks are alike, and so are the systems that they leave. -/
def LeavesAlike (p : Task σ × System) (q : Task τ × System) : Prop :=
  p.1.Alike q.1 ∧ p.2.Alike q.2

variable {c : Call σ} {d : Call τ} {x y : Routine Reply} {s s' : System}

/-- A call that awaits its turn has no answer yet. -/
theorem reply?_of_awaits {t : Task σ} (h : t.Awaits c) : t.reply? = none := by
  rcases h with rfl | ⟨x, _, rfl⟩ <;> rfl

/-- The answers of tasks that are alike differ in times at most. -/
theorem Alike.reply? {t : Task σ} {u : Task τ} (h : t.Alike u) :
    t.reply?.map Reply.untimed = u.reply?.map Reply.untimed := by
  cases h with
  | awaits h ht hu => rw [reply?_of_awaits ht, reply?_of_awaits hu]
  | asleep x => rfl
  | finished h => exact congrArg some h

/-- Of two tasks that are alike both are finished or neither is. -/
theorem Alike.finished_or_open {t : Task σ} {u : Task τ} (h : t.Alike u) :
    (∃ r r', t = .finished r ∧ u = .finished r') ∨ t.reply? = none ∧ u.reply? = none := by
  cases h with
  | awaits h ht hu => exact Or.inr ⟨reply?_of_awaits ht, reply?_of_awaits hu⟩
  | asleep x => exact Or.inr ⟨rfl, rfl⟩
  | finished h => exact Or.inl ⟨_, _, rfl, rfl⟩

/-- The same work goes as far on both, up to a wait or to its end. -/
theorem proceed_alike (x : Routine Reply) (hs : s.Alike s') :
    LeavesAlike (proceed x s : Task σ × System) (proceed x s' : Task τ × System) := by
  obtain ⟨hhalt, hafter⟩ := x.advance_like Bench.isLikeness_alike hs.like
  have hlocked := x.advance_locked s
  have hlocked' := x.advance_locked s'
  unfold proceed
  rcases hx : x.advance s with ⟨halt, t⟩
  rcases hy : x.advance s' with ⟨halt', t'⟩
  rw [hx, hy] at hhalt hafter
  rw [hx] at hlocked
  rw [hy] at hlocked'
  dsimp only at hhalt
  subst hhalt
  have ht : t.Alike t' := ⟨hafter, hlocked.trans (hs.locked.trans hlocked'.symm)⟩
  cases halt with
  | done r => exact ⟨.finished rfl, ht.withLocked false⟩
  | asleep rest => exact ⟨.asleep rest, ht⟩

/-- A sample is taken in one stretch. -/
theorem proceed_sampleReply (time : Int64) (sink : σ) (s : System) :
    (proceed (sampleReply time sink) s : Task σ × System) =
      (.finished (.sample ((Driver.takeSample time sink).run s).1.1),
        { ((Driver.takeSample time sink).run s).2 with locked := false }) := by
  unfold proceed
  rw [(waitsAtMost_sampleReply time sink).advance_eq_run, sampleReply, Routine.run_bind]
  rfl

/-- The work of a call goes as far as that of a call like it. -/
theorem proceed_work (h : c.Alike d) (hx : c.Work x) (hy : d.Work y) (hs : s.Alike s') :
    LeavesAlike (proceed x s : Task σ × System) (proceed y s' : Task τ × System) := by
  cases h with
  | operation op =>
    cases hx
    cases hy
    exact proceed_alike op.body hs
  | identity => cases hx
  | interrupt now later => cases hx
  | process h =>
    cases hx with
    | process sink time =>
      cases hy with
      | process other time' =>
        obtain ⟨hsample, hafter⟩ := Driver.takeSample_alike time time' h hs.like
        rw [proceed_sampleReply, proceed_sampleReply]
        exact ⟨.finished (congrArg Reply.sample hsample), ⟨hafter.bench, hafter.core⟩, rfl⟩

/-- A task that is resumed gets as far as one like it. -/
theorem Alike.resume {t : Task σ} {u : Task τ} (h : t.Alike u) (hs : s.Alike s')
    (wakeUps wakeUps' : Nat) :
    LeavesAlike (t.resume (stretch wakeUps) s) (u.resume (stretch wakeUps') s') := by
  cases h with
  | @awaits c d _ _ h ht hu =>
    -- Both get the lock or both have to wait for it.
    have hwork : (∃ x, c.Work x) → (∃ y, d.Work y) →
        LeavesAlike (t.resume (stretch wakeUps) s) (u.resume (stretch wakeUps') s') := by
      rintro ⟨_, hx⟩ ⟨_, hy⟩
      obtain ⟨x, hx, hresume⟩ := resume_work hx ht wakeUps s
      obtain ⟨y, hy, hresume'⟩ := resume_work hy hu wakeUps' s'
      rw [hresume, hresume', ← hs.locked]
      split
      · exact ⟨.awaits h (Or.inr ⟨x, hx, rfl⟩) (Or.inr ⟨y, hy, rfl⟩), hs⟩
      · exact proceed_work h hx hy (hs.withLocked true)
    cases h with
    | operation op => exact hwork ⟨_, .operation op⟩ ⟨_, .operation op⟩
    | process h => exact hwork ⟨_, .process _ s.stamp⟩ ⟨_, .process _ s'.stamp⟩
    | identity =>
      rw [resume_identity ht, resume_identity hu, hs.like.core]
      exact ⟨.finished rfl, hs⟩
    | interrupt now later =>
      rw [resume_interrupt ht, resume_interrupt hu]
      exact ⟨.finished rfl, hs.withInbox _ _⟩
  | asleep x =>
    rw [show stretch wakeUps = 3 * wakeUps + 2 + 2 from rfl,
      show stretch wakeUps' = 3 * wakeUps' + 2 + 2 from rfl, resume_asleep, resume_asleep]
    exact proceed_alike x (hs.log .woke)
  | finished h =>
    rw [resume_of_stuck rfl, resume_of_stuck rfl]
    exact ⟨.finished h, hs⟩

end Task

/-! ## Pools -/

/-- The lists have the same length and their entries are related one by one. -/
inductive OneByOne {α β : Type} (R : α → β → Prop) : List α → List β → Prop where
  | nil : OneByOne R [] []
  | cons {a : α} {b : β} {l : List α} {m : List β} (h : R a b) (rest : OneByOne R l m) :
      OneByOne R (a :: l) (b :: m)

namespace OneByOne

variable {α β : Type} {R : α → β → Prop} {l : List α} {m : List β}

/-- Lists that go together have one length. -/
theorem length (h : OneByOne R l m) : l.length = m.length := by
  induction h with
  | nil => rfl
  | cons _ _ ih => exact congrArg (· + 1) ih

/-- At each position both lists have an entry or neither has. -/
theorem lookup (h : OneByOne R l m) (i : Nat) :
    (l[i]? = none ∧ m[i]? = none) ∨ ∃ a b, l[i]? = some a ∧ m[i]? = some b ∧ R a b := by
  induction h generalizing i with
  | nil => exact Or.inl ⟨rfl, rfl⟩
  | cons h _ ih =>
    cases i with
    | zero => exact Or.inr ⟨_, _, rfl, rfl, h⟩
    | succ i => exact ih i

/-- Entries that go together may be put in at one position. -/
theorem set (h : OneByOne R l m) {a : α} {b : β} (hab : R a b) (i : Nat) :
    OneByOne R (l.set i a) (m.set i b) := by
  induction h generalizing i with
  | nil => exact .nil
  | cons h rest ih =>
    cases i with
    | zero => exact .cons hab rest
    | succ i => exact .cons h (ih i)

/-- Lists stay together if both are mapped so that entries do. -/
theorem map {γ δ : Type} {S : γ → δ → Prop} {f : α → γ} {g : β → δ} (h : OneByOne R l m)
    (hfg : ∀ a b, R a b → S (f a) (g b)) : OneByOne S (l.map f) (m.map g) := by
  induction h with
  | nil => exact .nil
  | cons h _ ih => exact .cons (hfg _ _ h) ih

/-- What gives the same for entries that go together gives the same for the lists. -/
theorem map_eq_map {γ : Type} {f : α → γ} {g : β → γ} (h : OneByOne R l m)
    (hfg : ∀ a b, R a b → f a = g b) : l.map f = m.map g := by
  induction h with
  | nil => rfl
  | cons h _ ih => rw [List.map_cons, List.map_cons, hfg _ _ h, ih]

/-- What the relation says of single entries holds of all of them. -/
theorem forall_mem {P : α → Prop} {Q : β → Prop} (h : OneByOne R l m)
    (hR : ∀ a b, R a b → P a ∧ Q b) : (∀ a ∈ l, P a) ∧ ∀ b ∈ m, Q b := by
  induction h with
  | nil => simp
  | cons h _ ih => exact ⟨List.forall_mem_cons.mpr ⟨(hR _ _ h).1, ih.1⟩,
      List.forall_mem_cons.mpr ⟨(hR _ _ h).2, ih.2⟩⟩

end OneByOne

/-- What may happen next to a pool. -/
inductive Move where
  /-- The task at a position is resumed. -/
  | resume (i : Nat)
  /-- The interrupt line fires at a time. -/
  | interrupt (now : Int64)
deriving DecidableEq, Repr

/-- The position of the task that is resumed. -/
def Move.resumed? : Move → Option Nat
  | .resume i => some i
  | .interrupt _ => none

namespace Pool

/-- Lets a move happen. -/
def move (wakeUps : Nat) (p : Pool σ) : Move → Pool σ
  | .resume i => p.resume wakeUps i
  | .interrupt now => { p with system := p.system.interrupt now }

/-- Lets moves happen one after the other. -/
def pursue (wakeUps : Nat) (p : Pool σ) (moves : List Move) : Pool σ :=
  moves.foldl (move wakeUps) p

/-- The pools are the same, up to what calls and systems may differ in. -/
structure Alike (p : Pool σ) (q : Pool τ) : Prop where
  system : p.system.Alike q.system
  tasks : OneByOne Task.Alike p.tasks q.tasks
  order : p.order = q.order

variable {p : Pool σ} {q : Pool τ} {calls : List (Call σ)} {calls' : List (Call τ)}
  {s t : System}

/-- Calls that are alike make pools that are alike. -/
theorem Alike.ofCalls (hs : s.Alike t) (hcalls : OneByOne Call.Alike calls calls') :
    (Pool.ofCalls calls s).Alike (Pool.ofCalls calls' t) where
  system := hs
  tasks := hcalls.map fun _ _ h => .awaits h (Or.inl rfl) (Or.inl rfl)
  order := rfl

namespace Alike

/-- Pools that are alike have come equally far. -/
theorem progress (h : p.Alike q) : p.progress = q.progress := by
  have htrace := congrArg List.length h.system.like.bench.trace
  rw [List.length_map, List.length_map] at htrace
  unfold Pool.progress
  rw [htrace, h.order]

/-- The answers are the same but for the times of samples. -/
theorem replies (h : p.Alike q) :
    p.replies.map (Option.map Reply.untimed) = q.replies.map (Option.map Reply.untimed) := by
  unfold Pool.replies
  rw [List.map_map, List.map_map]
  exact h.tasks.map_eq_map fun _ _ htask => htask.reply?

/-- Resuming one task keeps pools alike, however many wake-ups either may take. -/
theorem resume (h : p.Alike q) (wakeUps wakeUps' i : Nat) :
    (p.resume wakeUps i).Alike (q.resume wakeUps' i) := by
  rcases h.tasks.lookup i with ⟨hp, hq⟩ | ⟨t, u, hp, hq, htask⟩
  · rw [Pool.resume, Pool.resume, hp, hq]
    exact h
  · rcases htask.finished_or_open with ⟨r, r', rfl, rfl⟩ | ⟨ht, hu⟩
    · rw [resume_of_finished hp, resume_of_finished hq]
      exact h
    · obtain ⟨hresumed, hsystem⟩ := htask.resume h.system wakeUps wakeUps'
      have hdone := congrArg Option.isSome hresumed.reply?
      rw [Option.isSome_map, Option.isSome_map] at hdone
      rw [resume_of_open hp ht, resume_of_open hq hu]
      refine ⟨hsystem, h.tasks.set hresumed i, ?_⟩
      dsimp only
      rw [hdone, h.order]

/-- So does a whole schedule. -/
theorem follow (h : p.Alike q) (wakeUps wakeUps' : Nat) (schedule : List Nat) :
    (p.follow wakeUps schedule).Alike (q.follow wakeUps' schedule) := by
  induction schedule generalizing p q with
  | nil => exact h
  | cons i schedule ih => exact ih (h.resume wakeUps wakeUps' i)

/-- So does a round in which every task is resumed. -/
theorem round (h : p.Alike q) (wakeUps wakeUps' : Nat) :
    (p.round wakeUps).Alike (q.round wakeUps') := by
  rw [Pool.round, Pool.round, h.tasks.length]
  exact h.follow wakeUps wakeUps' _

/-- So does any number of rounds. -/
theorem rounds (h : p.Alike q) (wakeUps wakeUps' n : Nat) :
    (p.rounds wakeUps n).Alike (q.rounds wakeUps' n) := by
  induction n generalizing p q with
  | zero => exact h
  | succ n ih =>
    have hround := h.round wakeUps wakeUps'
    rw [Pool.rounds, Pool.rounds, hround.progress, h.progress]
    split
    · exact hround
    · exact ih hround

/-! ### Interrupts between resumptions -/

/-- An edge between resumptions does not show. -/
theorem interrupt_left (h : p.Alike q) (wakeUps : Nat) (now : Int64) :
    (p.move wakeUps (.interrupt now)).Alike q :=
  ⟨h.system.withInbox _ q.system.bench.inbox, h.tasks, h.order⟩

/-- Nor does any number of them in the other pool. -/
theorem interrupts_right (h : p.Alike q) (wakeUps : Nat) {moves : List Move}
    (hmoves : ∀ m ∈ moves, m.resumed? = none) : p.Alike (q.pursue wakeUps moves) := by
  induction moves generalizing q with
  | nil => exact h
  | cons m moves ih =>
    refine ih ?_ fun m' hm' => hmoves m' (List.mem_cons_of_mem _ hm')
    have hm := hmoves m List.mem_cons_self
    cases m with
    | resume i => cases hm
    | interrupt now => exact ⟨h.system.withInbox p.system.bench.inbox _, h.tasks, h.order⟩

/-- Pools whose tasks are resumed in the same order stay alike, whatever interrupts come in
between. -/
theorem pursue (h : p.Alike q) (wakeUps wakeUps' : Nat) {moves moves' : List Move}
    (hmoves : moves.filterMap Move.resumed? = moves'.filterMap Move.resumed?) :
    (p.pursue wakeUps moves).Alike (q.pursue wakeUps' moves') := by
  induction moves generalizing p q moves' with
  | nil => exact h.interrupts_right wakeUps' (List.filterMap_eq_nil_iff.mp hmoves.symm)
  | cons m moves ih =>
    cases m with
    | interrupt now => exact ih (h.interrupt_left wakeUps now) hmoves
    | resume i =>
      -- The other pool has some interrupts first, and then resumes the same task.
      obtain ⟨before, m', after, rfl, hbefore, hm', hafter⟩ :=
        List.filterMap_eq_cons_iff.mp hmoves.symm
      cases m' with
      | interrupt now => cases hm'
      | resume j =>
        cases hm'
        have hnext := (h.interrupts_right wakeUps' hbefore).resume wakeUps wakeUps' i
        unfold Pool.pursue
        rw [List.foldl_append]
        exact ih hnext hafter.symm

end Alike

/-- Pools of the same calls come to rest in the same way, however many wake-ups are reckoned
with. -/
theorem settle_alike (hs : s.Alike t) (hcalls : OneByOne Call.Alike calls calls')
    (wakeUps wakeUps' : Nat) :
    ((Pool.ofCalls calls s).settle wakeUps).Alike ((Pool.ofCalls calls' t).settle wakeUps') := by
  obtain ⟨hleft, hright⟩ := hcalls.forall_mem fun _ _ h => h.waits_eq_false
  rw [settle_ofCalls hleft, settle_ofCalls hright, ← hcalls.length]
  exact (Alike.ofCalls hs hcalls).rounds wakeUps wakeUps' _

end Pool

end

end Inertial
