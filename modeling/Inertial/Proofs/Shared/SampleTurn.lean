import Inertial.Proofs.Driver.SampleContent
import Inertial.Proofs.Shared.Failures
import Inertial.Proofs.Shared.FirstBank
import Inertial.Proofs.Shared.Interrupts
import Inertial.Proofs.Shared.Timestamps
import Mathlib.Data.List.Induction

/-!
# The one turn of a sample call

A call that takes a sample needs the lock once and does not wait while it has it. So among tasks
that share a device it does nothing until it is resumed while the lock is free. In that one turn it
does all that it ever does, and afterwards it is finished (`Pool.waits_or_has_turn`).

The main statement, `Pool.sample_call_has_one_turn`, says of every schedule, whatever the registers
hold, what the call logs and answers and that it changes neither the record nor a register.
-/

set_option autoImplicit false

namespace Inertial

variable {σ : Type} [Sink σ] {sink : σ}

/-- What a sample call logs and answers in its turn, if there is new data and no access fails. -/
def Task.SamplesWell (sink : σ) (s : System) (r : Option Sample) (events : List Event) : Prop :=
  let m := s.bench.chip.memory
  (∀ e ∈ events, e.succeeded = true) →
    StatusRegister.dataReady.get (m Register.intStatus) ≠ 0 →
    ∃ x : Sample, r = some x ∧ x.Shows m ∧
      events = s.bench.bus.sampleLog (Sink.isEnabled sink) x

/-- A sample call that is resumed either does not get the lock, and then nothing happens, or it
takes its sample and is finished. -/
theorem Task.resume_sampling {t : Task σ} (ht : t.Awaits (.process sink)) (wakeUps : Nat)
    {s : System} (hs : s.bench.InFirstBank) :
    (s.locked = true ∧ ∃ t', t'.Awaits (.process sink) ∧ t.resume (stretch wakeUps) s = (t', s)) ∨
      s.locked = false ∧ ∃ r u events, t.resume (stretch wakeUps) s = (.finished (.sample r), u) ∧
        Driver.Idles s u events ∧ SamplesWell sink s r events := by
  obtain ⟨x, hx, hresume⟩ := resume_work (.process sink s.stamp) ht wakeUps s
  cases hlocked : s.locked with
  | true =>
    rw [if_pos hlocked] at hresume
    exact Or.inl ⟨rfl, _, Or.inr ⟨x, hx, rfl⟩, hresume⟩
  | false =>
    rw [if_neg (by simp [hlocked])] at hresume
    cases hx with
    | process _ time =>
      have hfirst : ({ s with locked := true } : System).bench.InFirstBank := hs
      obtain ⟨r, u, events, hrun, hidles, _, hshows⟩ :=
        Driver.exists_run_takeSample time sink hfirst
      rw [proceed_sampleReply, hrun] at hresume
      refine Or.inr ⟨rfl, r.1, _, events, hresume, { hidles with }, ?_⟩
      intro hall hready
      obtain ⟨hr, hevents⟩ := hshows hall hready
      exact ⟨_, hr, Sample.shows_ofMemory _ time, hevents⟩

namespace Pool

variable {p : Pool σ} {i : Nat}

/-- Who is finished does nothing any more. -/
theorem finished_follow {r : Reply} (h : p.tasks[i]? = some (.finished r)) (wakeUps : Nat)
    (schedule : List Nat) :
    (p.follow wakeUps schedule).tasks[i]? = some (.finished r) ∧
      ∀ e, (i, e) ∉ p.history wakeUps schedule := by
  induction schedule generalizing p with
  | nil => exact ⟨h, fun _ => List.not_mem_nil⟩
  | cons j schedule ih =>
    obtain ⟨hend, hrest⟩ := ih (finished_resume h wakeUps j)
    refine ⟨hend, fun e he => ?_⟩
    rw [history] at he
    rcases List.mem_append.mp he with he | he
    · obtain ⟨e', he', heq⟩ := List.mem_map.mp he
      cases heq
      rw [resume_of_finished h, List.drop_length] at he'
      cases he'
    · exact hrest e he

/-- A sample call that has not had the lock yet waits on, or it has its turn. -/
theorem resume_sampling {t : Task σ} (ht : p.tasks[i]? = some t)
    (hawaits : t.Awaits (.process sink)) (wakeUps : Nat) (hp : p.system.bench.InFirstBank) :
    let q := p.resume wakeUps i
    (p.system.locked = true ∧ q.system = p.system ∧
        ∃ t', q.tasks[i]? = some t' ∧ t'.Awaits (.process sink)) ∨
      p.system.locked = false ∧ ∃ r events, q.tasks[i]? = some (.finished (.sample r)) ∧
        Driver.Idles p.system q.system events ∧ Task.SamplesWell sink p.system r events := by
  intro q
  obtain ⟨hlt, _⟩ := List.getElem?_eq_some_iff.mp ht
  have hq : q = _ := resume_of_open ht (Task.reply?_of_awaits hawaits)
  obtain ⟨hlocked, t', hawaits', hresume⟩ | ⟨hfree, r, u, events, hresume, hidles, hwell⟩ :=
    Task.resume_sampling hawaits wakeUps hp <;> rw [hq, hresume]
  · exact Or.inl ⟨hlocked, rfl, t', List.getElem?_set_self hlt, hawaits'⟩
  · exact Or.inr ⟨hfree, r, events, List.getElem?_set_self hlt, hidles, hwell⟩

section

variable {s : System} (hs : s.bench.InFirstBank) {calls : List (Call σ)}
  (hi : calls[i]? = some (.process sink)) (wakeUps : Nat)
include hs hi

/-- The call still waits for the lock and has logged nothing, or at some point of the schedule it
was resumed while the lock was free. -/
theorem waits_or_has_turn (schedule : List Nat) :
    let pool := ofCalls calls s
    (∃ t, (pool.follow wakeUps schedule).tasks[i]? = some t ∧ t.Awaits (.process sink) ∧
        ∀ e, (i, e) ∉ pool.history wakeUps schedule) ∨
      ∃ before after t, schedule = before ++ i :: after ∧
        (pool.follow wakeUps before).tasks[i]? = some t ∧ t.Awaits (.process sink) ∧
        (pool.follow wakeUps before).system.locked = false ∧
        ∀ e, (i, e) ∉ pool.history wakeUps before := by
  intro pool
  -- From the end of the schedule: only its last resumption can be the turn, if there was none
  -- before.
  induction schedule using List.reverseRecOn with
  | nil =>
    refine Or.inl ⟨_, ?_, Or.inl rfl, fun _ => List.not_mem_nil⟩
    change (calls.map Task.ready)[i]? = _
    rw [List.getElem?_map, hi]
    rfl
  | append_singleton schedule j ih =>
    rcases ih with ⟨t, ht, hawaits, hnone⟩ | ⟨before, after, t, rfl, hturn⟩
    · by_cases hj : j = i
      · subst hj
        obtain ⟨_, hsame, t', ht', hawaits'⟩ | ⟨hfree, _⟩ :=
          resume_sampling ht hawaits wakeUps (inFirstBank_follow hs calls wakeUps schedule)
        · refine Or.inl ⟨t', ?_, hawaits', fun e he => ?_⟩
          · rw [follow_append]
            exact ht'
          · rw [history_append, history_cons (by rw [hsame, List.append_nil]), History.of_nil] at he
            rcases List.mem_append.mp he with he | he
            · exact hnone e he
            · cases he
        · exact Or.inr ⟨schedule, [], t, rfl, ht, hawaits, hfree, hnone⟩
      · refine Or.inl ⟨t, ?_, hawaits, fun e he => ?_⟩
        · rw [follow_append]
          exact (getElem?_resume_of_ne _ wakeUps hj).trans ht
        · rw [history_append] at he
          rcases List.mem_append.mp he with he | he
          · exact hnone e he
          · exact hj (List.mem_singleton.mp (mem_of_mem_history he)).symm
    · exact Or.inr ⟨before, after ++ [j], t, by simp, hturn⟩

/-- Resuming a sample call at any time changes neither the record nor a register. -/
theorem idles_resume (schedule : List Nat) :
    let made := (ofCalls calls s).follow wakeUps schedule
    ∃ events, Driver.Idles made.system (made.resume wakeUps i).system events := by
  intro made
  have hfirst : ∀ earlier, ((ofCalls calls s).follow wakeUps earlier).system.bench.InFirstBank :=
    inFirstBank_follow hs calls wakeUps
  obtain ⟨t, ht, hawaits, _⟩ | ⟨before, after, t, rfl, ht, hawaits, hfree, _⟩ :=
    waits_or_has_turn hs hi wakeUps schedule
  · obtain ⟨_, hsame, _⟩ | ⟨_, _, events, _, hidles, _⟩ :=
      resume_sampling ht hawaits wakeUps (hfirst schedule)
    · rw [hsame]
      exact ⟨[], .refl _⟩
    · exact ⟨events, hidles⟩
  · obtain ⟨hlocked, _⟩ | ⟨_, r, _, hdone, _⟩ :=
      resume_sampling ht hawaits wakeUps (hfirst before)
    · rw [hfree] at hlocked
      cases hlocked
    · have hfinished := (finished_follow hdone wakeUps after).1
      have hmade : made.tasks[i]? = some (.finished (.sample r)) := by
        rw [show made = _ from follow_append _ wakeUps before (i :: after)]
        exact hfinished
      rw [resume_of_finished hmade]
      exact ⟨[], .refl _⟩

end

/-- A call that takes a sample shares a device with other calls, and its registers hold anything.
Whenever it is resumed, it changes neither the record nor a register.

In every schedule it is still waiting and has done nothing, or it has had one turn: nobody else has
the lock, and what it does comes in one piece, with nothing of any other task in between. That is
all that it ever does, and then it is answered. If there is new data when the turn begins and no
access fails, the call reads the status register and the data registers, once each, and answers the
sample that the data registers show. It pushes that sample just if the sink wants it. -/
theorem sample_call_has_one_turn {s : System} (hs : s.IsReachable) (m : Memory)
    {calls : List (Call σ)} {i : Nat} {sink : σ} (hi : calls[i]? = some (.process sink))
    (wakeUps : Nat) (schedule : List Nat) :
    let pool := ofCalls calls (s.withMemory m)
    let p := pool.follow wakeUps schedule
    let history := pool.history wakeUps schedule
    (∀ before after, schedule = before ++ i :: after →
      let made := pool.follow wakeUps before
      let done := made.resume wakeUps i
      done.system.core = made.system.core ∧ done.system.bench.chip = made.system.bench.chip) ∧
    ((p.replies[i]? = some none ∧ ∀ e, (i, e) ∉ history) ∨
      ∃ before after r events, schedule = before ++ i :: after ∧
        let made := pool.follow wakeUps before
        let done := made.resume wakeUps i
        let memory := made.system.bench.chip.memory
        made.system.locked = false ∧
        history = pool.history wakeUps before ++ History.of i events ++
          done.history wakeUps after ∧
        (∀ e, (i, e) ∉ pool.history wakeUps before ∧ (i, e) ∉ done.history wakeUps after) ∧
        p.replies[i]? = some (some (.sample r)) ∧
        ((∀ e ∈ events, e.succeeded = true) →
          StatusRegister.dataReady.get (memory Register.intStatus) ≠ 0 →
          ∃ x : Sample, r = some x ∧ x.Shows memory ∧
            events = made.system.bench.bus.sampleLog (Sink.isEnabled sink) x)) := by
  intro pool p history
  have hfirst : (s.withMemory m).bench.InFirstBank := hs.inFirstBank
  refine ⟨?_, ?_⟩
  · rintro before after rfl
    obtain ⟨_, hidles⟩ := idles_resume hfirst hi wakeUps before
    exact ⟨hidles.core, hidles.chip⟩
  · obtain ⟨t, ht, hawaits, hnone⟩ | ⟨before, after, t, rfl, ht, hawaits, hfree, hbefore⟩ :=
      waits_or_has_turn hfirst hi wakeUps schedule
    · refine Or.inl ⟨?_, hnone⟩
      rw [replies, List.getElem?_map, show p.tasks[i]? = _ from ht, Option.map_some,
        Task.reply?_of_awaits hawaits]
    · right
      obtain ⟨hlocked, _⟩ | ⟨_, r, events, hdone, hidles, hwell⟩ :=
        resume_sampling ht hawaits wakeUps (inFirstBank_follow hfirst calls wakeUps before)
      · rw [hfree] at hlocked
        cases hlocked
      · obtain ⟨hfinished, hafter⟩ := finished_follow hdone wakeUps after
        refine ⟨before, after, r, events, rfl, hfree, ?_, fun e => ⟨hbefore e, hafter e⟩, ?_, hwell⟩
        · rw [show history = _ from history_append pool wakeUps before (i :: after),
            history_cons hidles.trace, List.append_assoc]
        · rw [replies, List.getElem?_map, show p = _ from follow_append pool wakeUps before _]
          exact congrArg (Option.map Task.reply?) hfinished

/-- A sample call waits for the lock while another call waits with it, twice, and then it pushes and
answers what the data registers show. -/
theorem sample_call_has_one_turn_behind_waits :
    let bench : Bench := {
      chip := {
        memory := Memory.zero.writeAll [(Register.whoAmI, 0x42), (Register.intStatus, 0x10)] }
      bus := .serial Register.bank0 }
    let s := ((Driver.powerUp .icm42605 {}).exec { bench, core := .fresh .icm42605 }).2.withInbox {}
    let m := Memory.zero.writeAll [(Register.intStatus, 0x08), (Register.accelData, 0xFE),
      (Register.accelData + 1, 0xFF), (Register.gyroData + 4, 0x34), (Register.gyroData + 5, 0x12)]
    let calls : List (Call ScriptedSink) :=
      [.operation (.setPower ⟨.lowNoise, .off, false⟩ true), .process {}]
    let pool := ofCalls calls (s.withMemory m)
    let schedule := [0, 1, 0, 1, 0, 1]
    s.IsReachable ∧ calls[1]? = some (.process {}) ∧
      ∃ x : Sample, (pool.follow 0 schedule).replies[1]? = some (some (.sample (some x))) ∧
        (1, .push x) ∈ pool.history 0 schedule ∧
        (x.channels[0]).toInt = -2 ∧ (x.gyro[2]).toInt = 0x1234 := by
  intro bench s m calls pool schedule
  have hs : s.IsReachable := .powerUp rfl (Except.eq_ok_of_toOption (by decide +kernel))
  have hi : calls[1]? = some (.process {}) := rfl
  obtain ⟨_, ⟨hopen, _⟩ | ⟨before, after, r, events, hsplit, _, hhistory, _, hreply, hwell⟩⟩ :=
    sample_call_has_one_turn hs m hi 0 schedule
  · exact absurd hopen (by decide +kernel)
  · have hsmooth : ∀ e ∈ pool.history 0 schedule, e.2.succeeded = true := by decide +kernel
    have hshown : ∀ k < 6, let memory := (pool.follow 0 (schedule.take k)).system.bench.chip.memory
        StatusRegister.dataReady.get (memory Register.intStatus) ≠ 0 ∧
          memory.signed Register.accelData = -2 ∧
          memory.signed (Register.gyroData + 2 * 2) = 0x1234 := by
      decide +kernel
    have hlt : before.length < 6 := by
      have hlength : 6 = before.length + (after.length + 1) :=
        (congrArg List.length hsplit).trans List.length_append
      omega
    obtain ⟨hready, haccel, hgyro⟩ := hshown before.length hlt
    rw [hsplit, List.take_left] at hready haccel hgyro
    have hown : ∀ e ∈ events, (1, e) ∈ pool.history 0 schedule := by
      intro e he
      rw [hhistory]
      exact List.mem_append_left _ (List.mem_append_right _ (List.mem_map_of_mem he))
    obtain ⟨x, rfl, hx, hevents⟩ := hwell (fun e he => hsmooth _ (hown e he)) hready
    refine ⟨hs, hi, x, hreply, hown _ ?_, ?_, ?_⟩
    · rw [hevents]
      exact List.mem_append_right _ (List.mem_singleton.mpr rfl)
    · exact (hx.channels 0 (by decide)).trans haccel
    · exact (hx.gyro 2 (by decide)).trans hgyro

end Pool

end Inertial
