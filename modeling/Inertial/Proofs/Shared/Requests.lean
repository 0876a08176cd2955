import Inertial.Proofs.Driver.Stages
import Inertial.Proofs.Shared.Failures

/-!
# Requests, attempted once and again

An attempt to grant a request stores the stages of the request one by one until an access fails
(`Call.Grants`). Each register it writes held something else before, and the record follows each
write, so an attempt that failed has done the first of the stages and has left the others to do.

Granting the request again goes on from there: all attempts together do what one attempt would have
done if nothing had failed (`System.IsReachable.grant_retried`).
-/

set_option autoImplicit false

namespace Inertial

/-! ## When the output needs no time to settle -/

namespace Settling

/-- No time is needed just if nothing that takes time has started or stopped. -/
theorem settle_eq_zero_iff (p q : PowerState) :
    (between p q).settle = .zero ↔
      (q.temperature && !p.temperature) = false ∧ p.accel.leavesOff q.accel = false ∧
        p.gyro.leavesOff q.gyro = false ∧ p.gyro.entersOff q.gyro = false := by
  have hmax : ∀ d e : Duration, max d e = .zero ↔ d = .zero ∧ e = .zero := by
    rintro ⟨d⟩ ⟨e⟩
    change Duration.mk (max d e) = ⟨0⟩ ↔ Duration.mk d = ⟨0⟩ ∧ Duration.mk e = ⟨0⟩
    simp only [Duration.mk.injEq]
    omega
  have htemperature : temperature p.temperature q.temperature = .zero ↔
      (q.temperature && !p.temperature) = false := by
    unfold temperature
    cases q.temperature && !p.temperature <;> decide
  have haccel : accel p.accel q.accel = .zero ↔ p.accel.leavesOff q.accel = false := by
    unfold accel
    cases p.accel.leavesOff q.accel <;> decide
  have hgyro : gyro p.gyro q.gyro = .zero ↔
      p.gyro.leavesOff q.gyro = false ∧ p.gyro.entersOff q.gyro = false := by
    unfold gyro
    cases p.gyro.leavesOff q.gyro <;> cases p.gyro.entersOff q.gyro <;> decide
  simp only [between, hmax, htemperature, haccel, hgyro]

end Settling

/-- A request has nothing to do with the thermometer. -/
theorem Request.temperature_goal (request : Request) (c : DeviceConfig) :
    (request.goal c).power.temperature = c.power.temperature := by
  cases request <;> rfl

/-! ## One attempt -/

/-- What an attempt to grant a request comes to: the stages in `done` were stored, of those in
`rest` the first was attempted and failed, and the waits came after that. -/
structure Call.Grants (request : Request) (wait : Bool) (s : System)
    (result : Option Reply × System) (done rest : List Stage) (waits : List Event) : Prop where
  stages : request.stages s.core.config = done ++ rest
  inFirstBank : result.2.bench.InFirstBank
  /-- There is no access but those of the stages, and none after the first that failed. -/
  trace : result.2.bench.trace = s.bench.trace ++
    (done.map (fun x => .access (x.access s.bench.bus) true) ++
      ((rest.take 1).map (fun x => .access (x.access s.bench.bus) false) ++ waits))
  isWait : ∀ e ∈ waits, e.isWait = true
  core : result.2.core = { s.core with config := Stage.reached s.core.config done }
  chip : result.2.bench.chip =
    { s.bench.chip with memory := s.bench.chip.memory.writeAll (Stage.written done) }
  succeeded : ∀ i x, done[i]? = some x →
    s.bench.plan.failsAccess (s.bench.accesses + i) (x.access s.bench.bus) = false
  failed : ∀ x, rest.head? = some x →
    s.bench.plan.failsAccess (s.bench.accesses + done.length) (x.access s.bench.bus) = true ∧
      result.1 = some (.failed (.bus (x.access s.bench.bus).fault)) ∧ waits = []
  completed : rest = [] → result.1 = some (if wait then .ok else
    .settling (Settling.between s.core.config.power (request.goal s.core.config).power).settle)

/-- A change is answered with how long it takes to settle, or that was waited for. -/
theorem Operation.run_settling (wait : Bool) (x : Driver Duration) (s : System) :
    (settling wait x).run s =
      match x.exec s with
      | (.ok d, t) => if wait then (.ok, ((Driver.settle d).exec t).2) else (.settling d, t)
      | (.error e, t) => (.failed e, t) := by
  cases wait with
  | false =>
    refine (run_reply x .settling s).trans ?_
    rcases x.exec s with ⟨_ | _, _⟩ <;> rfl
  | true =>
    refine (run_reply (x >>= Driver.settle) (fun _ => .ok) s).trans ?_
    rw [Driver.exec_bind]
    rcases x.exec s with ⟨e | d, t⟩
    · rfl
    · obtain ⟨_, _, hsettle⟩ := Driver.exec_settle d t
      dsimp only
      rw [hsettle]
      rfl

namespace Call

variable {σ : Type} [Sink σ] {s : System}

/-- A request that nobody interrupts is granted and then, if so wished, waited for. -/
theorem perform_grant (request : Request) (wait : Bool) (wakeUps : Nat) (s : System) :
    (Call.operation (.grant request wait) : Call σ).perform wakeUps s =
      match (Driver.grant request).exec s with
      | (.ok d, t) =>
        if wait then (some .ok, ((Driver.settle d).exec t).2) else (some (.settling d), t)
      | (.error e, t) => (some (.failed e), t) := by
  have hrun := Operation.run_settling wait (Driver.grant request) s
  change (some ((Operation.settling wait (Driver.grant request)).run s).1,
    ((Operation.settling wait (Driver.grant request)).run s).2) = _
  rw [hrun]
  rcases (Driver.grant request).exec s with ⟨_ | _, _⟩
  · rfl
  · cases wait <;> rfl

/-- Every attempt at a request stores some of its stages in order. -/
theorem exists_grants (request : Request) (wait : Bool) (hs : s.bench.InFirstBank) (wakeUps : Nat) :
    ∃ done rest waits, Grants request wait s
      ((Call.operation (.grant request wait) : Call σ).perform wakeUps s) done rest waits := by
  obtain ⟨done, rest, h⟩ := Driver.exists_stored (request.stages s.core.config) hs
  have hgrant := Driver.exec_grant request s
  rw [Driver.exec_bind] at hgrant
  obtain ⟨r, t, hx⟩ : ∃ r t, (Driver.storeAll (request.stages s.core.config)).exec s = (r, t) :=
    ⟨_, _, rfl⟩
  rw [hx] at h hgrant
  rw [perform_grant]
  cases rest with
  -- A stage is left because its write failed, and with that the attempt is over.
  | cons x rest =>
    obtain ⟨hfails, rfl⟩ := h.failed x rfl
    rw [hgrant]
    refine ⟨done, x :: rest, [], h.stages, h.inFirstBank, ?_, by simp, h.core, h.chip, h.succeeded,
      ?_, nofun⟩
    · rw [List.append_nil]
      exact h.trace
    · intro y hy
      cases hy
      exact ⟨hfails, rfl, rfl⟩
  | nil =>
    cases h.completed rfl
    obtain ⟨pause, hpause, hfinish⟩ := Driver.exec_finish
      (.between s.core.config.power (request.goal s.core.config).power) t
    dsimp only at hgrant
    rw [hgrant, hfinish]
    -- Whatever was waited for at the end, only waits were logged after the stages.
    have hdone : ∀ waits, (∀ e ∈ waits, e.isWait = true) → ∀ r : Option Reply,
        (r = some (if wait then .ok else .settling
          (Settling.between s.core.config.power (request.goal s.core.config).power).settle)) →
        Grants request wait s (r, t.logAll waits) done [] waits := by
      intro waits hwaits r hr
      refine ⟨h.stages, h.inFirstBank, ?_, hwaits, h.core, h.chip, h.succeeded, by simp,
        fun _ => hr⟩
      have htrace := h.trace
      rw [List.take_nil, List.map_nil, List.append_nil] at htrace
      change t.bench.trace ++ waits = _
      rw [htrace, List.append_assoc]
      rfl
    cases wait with
    | false => exact ⟨done, [], pause, hdone pause hpause _ rfl⟩
    | true =>
      obtain ⟨settling, hsettling, hsettle⟩ := Driver.exec_settle
        (Settling.between s.core.config.power (request.goal s.core.config).power).settle
        (t.logAll pause)
      refine ⟨done, [], pause ++ settling, ?_⟩
      dsimp only
      rw [if_pos rfl, hsettle, System.logAll_logAll]
      exact hdone _ (fun e he => (List.mem_append.mp he).elim (hpause e) (hsettling e)) _ rfl

/-- A request that has been granted is granted again at once, whatever would fail. -/
theorem perform_grant_of_stages_nil {request : Request} (h : request.stages s.core.config = [])
    (wait : Bool) (wakeUps : Nat) :
    (Call.operation (.grant request wait) : Call σ).perform wakeUps s =
      (some (if wait then .ok else .settling .zero), s) := by
  rw [perform_grant, Driver.exec_grant_of_stages_nil h]
  cases wait <;> rfl

end Call

/-- A request is attempted wherever the device can be found and whatever fails.

The accesses of the attempt are the stages of the request in order and nothing else, cut after the
first that fails, and each of those that succeeded replaced what its register held by something
else. The configuration on record is that of the last stage that succeeded, and nothing else on
record has changed.

If no stage failed the configuration is the one that was asked for, and the answer is how long the
change of what runs takes to settle, which is no time just if it neither starts a sensor nor stops
the gyroscope. The same request is then granted again without doing anything, whatever would
fail. -/
theorem System.IsReachable.grant_by_stages {σ : Type} [Sink σ] {s : System} (hs : s.IsReachable)
    (plan : Plan) (request : Request) (wait : Bool) (wakeUps : Nat) :
    let start := s.withPlan plan
    let old := s.core.config
    let new := request.goal old
    let grant := fun wait => (Call.operation (.grant request wait) : Call σ)
    let result := (grant wait).perform wakeUps start
    let logged := fun x : Stage => Event.access (x.access s.bench.bus) true
    ∃ done rest waits, Call.Grants request wait start result done rest waits ∧
      (∀ before x after, done = before ++ x :: after →
        (replay (before.map logged) s.bench.chip).memory x.register.address ≠ x.value ∧
          (replay ((before ++ [x]).map logged) s.bench.chip).memory x.register.address = x.value) ∧
      (rest = [] → result.2.core.config = new ∧
        (∃ d, result.1 = some (if wait then .ok else .settling d) ∧
          d = (Settling.between old.power new.power).settle ∧
          (d = .zero ↔ old.power.accel.leavesOff new.power.accel = false ∧
            old.power.gyro.leavesOff new.power.gyro = false ∧
            old.power.gyro.entersOff new.power.gyro = false)) ∧
        ∀ later again n, (grant again).perform n (result.2.withPlan later) =
          (some (if again then .ok else .settling .zero), result.2.withPlan later)) := by
  intro start old new grant result logged
  have hfirst : start.bench.InFirstBank := hs.inFirstBank
  obtain ⟨done, rest, waits, h⟩ := Call.exists_grants (σ := σ) request wait hfirst wakeUps
  have hstages : request.stages old = done ++ rest := h.stages
  refine ⟨done, rest, waits, h, ?_, ?_⟩
  · -- A stage that is due changes its register, as the chip shows when the log is replayed.
    rintro before x after rfl
    rw [List.append_assoc] at hstages
    have hbefore := Stage.replay_written hfirst before
    have hafter := Stage.replay_written hfirst (before ++ [x])
    constructor
    · rw [show replay (before.map logged) s.bench.chip = _ from hbefore.1]
      exact request.written_changes hs.agrees.2 hstages
    · rw [show replay ((before ++ [x]).map logged) s.bench.chip = _ from hafter.1]
      change s.bench.chip.memory.writeAll (Stage.written (before ++ [x])) _ = _
      rw [Stage.written, List.map_append, Memory.writeAll, List.foldl_append]
      exact Memory.write_same _ _ _
  · -- With no stage left the goal is on record, so granting it again has no stages.
    rintro rfl
    rw [List.append_nil] at hstages
    have hconfig : result.2.core.config = new := by
      rw [h.core, ← hstages]
      exact request.reached_stages old
    have hnone : request.stages result.2.core.config = [] := by
      rw [h.core]
      exact (request.stages_reached (hstages.trans (List.append_nil done).symm)).1
    refine ⟨hconfig, ⟨_, h.completed rfl, rfl, ?_⟩, ?_⟩
    · have htemperature : (new.power.temperature && !old.power.temperature) = false := by
        rw [request.temperature_goal old]
        cases old.power.temperature <;> rfl
      refine (Settling.settle_eq_zero_iff old.power new.power).trans ?_
      simp only [htemperature, true_and]
    · intro later again n
      exact Call.perform_grant_of_stages_nil (s := result.2.withPlan later) hnone again n

/-- The range, the filter and the mode of the gyroscope are to be changed, and the filter cannot be
written. The range is changed by then, and the mode is not. -/
theorem System.IsReachable.grant_by_stages_past_fault :
    let bench : Bench := {
      chip := {
        memory := Memory.zero.writeAll [(Register.whoAmI, 0x42), (Register.intStatus, 0x10)] }
      bus := .serial Register.bank0 }
    let s := ((Driver.powerUp .icm42605 {}).exec { bench, core := .fresh .icm42605 }).2.withInbox {}
    let request : Request :=
      .gyro { mode := some .lowNoise, range := some .dps250, filter := some .odrDiv4 }
    let start := s.withPlan { failsAccess := fun k _ => k == s.bench.accesses + 1 }
    let result := (Call.operation (.grant request false) : Call ScriptedSink).perform 0 start
    s.IsReachable ∧ result.1 = some (.failed (.bus .transfer)) ∧
      result.2.core.config.gyro = ⟨.off, .dps250, .hz50, .odrDiv2⟩ ∧
      ∃ done rest, request.stages s.core.config = done ++ rest ∧ done.length = 1 ∧
        rest.map Stage.register = [.filters, .power] ∧
        result.2.core.config = Stage.reached s.core.config done := by
  intro bench s request start result
  have hs : s.IsReachable := .powerUp rfl (Except.eq_ok_of_toOption (by decide +kernel))
  have hfailed : result.1 = some (.failed (.bus .transfer)) := by decide +kernel
  have hconfig : result.2.core.config.gyro = ⟨.off, .dps250, .hz50, .odrDiv2⟩ := by decide +kernel
  have hregisters : (request.stages s.core.config).map Stage.register =
      [.gyro, .filters, .power] := by decide +kernel
  clear_value s
  obtain ⟨done, rest, _, h, _, _⟩ := hs.grant_by_stages (σ := ScriptedSink)
    { failsAccess := fun k _ => k == s.bench.accesses + 1 } request false 0
  have hdone : done.length = 1 := by
    cases rest with
    | nil =>
      have hreply := h.completed rfl
      rw [show _ = result.1 from rfl, hfailed] at hreply
      cases hreply
    | cons x rest =>
      have hindex := (h.failed x rfl).1
      have hsame : s.bench.accesses + done.length = s.bench.accesses + 1 := beq_iff_eq.mp hindex
      omega
  have hstages : request.stages s.core.config = done ++ rest := h.stages
  refine ⟨hs, hfailed, hconfig, done, rest, hstages, hdone, ?_, congrArg Core.config h.core⟩
  rw [hstages, List.map_append] at hregisters
  have hdrop := congrArg (List.drop 1) hregisters
  rw [List.drop_left' (by rw [List.length_map, hdone])] at hdrop
  exact hdrop

/-! ## Several attempts -/

namespace Call

variable {σ : Type} [Sink σ] {request : Request} {wait : Bool} {s t : System}

/-- The log of an attempt tells what it has written and what has become of the chip. -/
theorem Grants.exists_logged {result : Option Reply × System} {done rest : List Stage}
    {waits : List Event} (h : Grants request wait s result done rest waits)
    (hs : s.bench.InFirstBank) :
    ∃ events, s.Logged result.2 events ∧ writes events s.bench.chip = Stage.written done := by
  let idle : List Event :=
    (rest.take 1).map (fun x => .access (x.access s.bench.bus) false) ++ waits
  have hidle : ∀ e ∈ idle, ∀ c, e.effect c = c := by
    intro e he c
    rcases List.mem_append.mp he with he | he
    · obtain ⟨x, _, rfl⟩ := List.mem_map.mp he
      rfl
    · have hwait := h.isWait e he
      cases e with
      | delay d => rfl
      | woke => rfl
      | _ => cases hwait
  have hreplay : ∀ c, replay idle c = c := by
    intro c
    clear_value idle
    induction idle with
    | nil => rfl
    | cons e idle ih =>
      rw [replay_cons, hidle e List.mem_cons_self]
      exact ih fun e' he' => hidle e' (List.mem_cons_of_mem e he')
  obtain ⟨hdone, hwrites⟩ := Stage.replay_written hs done
  refine ⟨_, ⟨h.trace, ?_⟩, ?_⟩
  · rw [replay_append, hdone, hreplay]
    exact h.chip
  · rw [writes_append, hwrites, writes_of_isHarmless (fun e he c =>
      congrArg SerialChip.memory (hidle e he c)), List.append_nil]

/-- What attempts to grant a request from `s` to `t` have come to: the stages in `done` were stored
and nothing else was written, and those in `rest` are left. -/
structure Progresses (request : Request) (s t : System) (done rest : List Stage)
    (events : List Event) : Prop where
  stages : request.stages s.core.config = done ++ rest
  inFirstBank : t.bench.InFirstBank
  core : t.core = { s.core with config := Stage.reached s.core.config done }
  logged : s.Logged t events
  writes_eq : writes events s.bench.chip = Stage.written done

namespace Progresses

variable {done rest : List Stage} {events : List Event}

/-- Nothing was attempted. -/
theorem refl (request : Request) (hs : s.bench.InFirstBank) :
    Progresses request s s [] (request.stages s.core.config) [] :=
  ⟨rfl, hs, rfl, .refl s, rfl⟩

/-- One more attempt takes some of the stages that were left. -/
theorem attempt (h : Progresses request s t done rest events) {result : Option Reply × System}
    {more left : List Stage} {waits : List Event}
    (hmore : Grants request wait t result more left waits) :
    Progresses request s result.2 (done ++ more) left
      (events ++ result.2.bench.trace.drop t.bench.trace.length) := by
  obtain ⟨later, hlogged, hwrites⟩ := hmore.exists_logged h.inFirstBank
  have hlater : result.2.bench.trace.drop t.bench.trace.length = later := by
    rw [hlogged.trace, List.drop_left]
  have hrest : rest = more ++ left := by
    rw [← hmore.stages, h.core]
    exact (request.stages_reached h.stages).1.symm
  refine ⟨?_, hmore.inFirstBank, ?_, ?_, ?_⟩
  · rw [h.stages, hrest, List.append_assoc]
  · rw [hmore.core, h.core, Stage.reached_append]
  · rw [hlater]
    exact h.logged.trans hlogged
  · rw [hlater, writes_append, h.writes_eq, ← h.logged.chip, hwrites]
    exact List.map_append.symm

/-- When no stage is left the goal is reached, and the registers of the stages were written once
each. -/
theorem complete (h : Progresses request s t done [] events) :
    t.core = { s.core with config := request.goal s.core.config } ∧
      t.bench.chip.memory =
        s.bench.chip.memory.writeAll (Stage.written (request.stages s.core.config)) ∧
      writes events s.bench.chip = Stage.written (request.stages s.core.config) ∧
      ((writes events s.bench.chip).map Prod.fst).Nodup := by
  have hdone : request.stages s.core.config = done := h.stages.trans (List.append_nil done)
  have hwrites : writes events s.bench.chip = Stage.written (request.stages s.core.config) := by
    rw [hdone]
    exact h.writes_eq
  refine ⟨?_, ?_, hwrites, ?_⟩
  · rw [h.core, ← hdone, request.reached_stages]
  · rw [h.logged.chip, memory_replay, hwrites]
  · have haddresses : (Stage.written (request.stages s.core.config)).map Prod.fst =
        ((request.stages s.core.config).map Stage.register).map ConfigRegister.address := by
      simp [Stage.written]
    rw [hwrites, haddresses]
    exact List.Pairwise.map _ (fun r t hne ha => hne (ConfigRegister.address_injective ha))
      (request.nodup_stages s.core.config)

end Progresses

/-- Attempts that all fail leave some of the stages, and the same runs as before. -/
theorem exists_progresses (request : Request) (wait : Bool) (hs : s.bench.InFirstBank)
    (wakeUps n : Nat)
    (hfailed : ∀ r ∈ (performAll wakeUps
      (List.replicate n (.operation (.grant request wait) : Call σ)) s).1,
        ∃ e, r.1 = some (.failed e)) :
    let attempts := performAll wakeUps
      (List.replicate n (.operation (.grant request wait) : Call σ)) s
    attempts.2.core.config.power = s.core.config.power ∧
      ∃ done rest, Progresses request s attempts.2 done rest (attempts.1.map Prod.snd).flatten := by
  induction n with
  | zero => exact ⟨rfl, [], _, .refl request hs⟩
  | succ n ih =>
    rw [List.replicate_succ', performAll_concat] at hfailed ⊢
    generalize performAll wakeUps
      (List.replicate n (.operation (.grant request wait) : Call σ)) s = earlier at *
    obtain ⟨replies, t⟩ := earlier
    obtain ⟨_, done, rest, h⟩ := ih fun r hr => hfailed r (List.mem_append_left _ hr)
    obtain ⟨more, left, waits, hmore⟩ := exists_grants (σ := σ) request wait h.inFirstBank wakeUps
    obtain ⟨e, he⟩ := hfailed _ (List.mem_append_right _ (List.mem_singleton_self _))
    have hnext := h.attempt hmore
    -- The attempt failed, so some of the stages are left.
    have hleft : left ≠ [] := by
      intro hleft
      have hreply := hmore.completed hleft
      rw [show ((Call.operation (.grant request wait) : Call σ).perform wakeUps t).1 = _ from he]
        at hreply
      cases wait <;> cases hreply
    refine ⟨?_, done ++ more, left, ?_⟩
    · change ((Call.operation (.grant request wait) : Call σ).perform wakeUps t).2.core.config.power
        = _
      rw [hnext.core]
      exact (request.stages_reached hnext.stages).2.2 hleft
    · dsimp only
      rw [List.map_append, List.flatten_append, List.map_singleton, List.flatten_singleton]
      exact hnext

/-- If only the last of several attempts does not fail, all stages were stored by then, and it
answers how long the whole change takes to settle. -/
theorem exists_progresses_granted (request : Request) (wait : Bool) (hs : s.bench.InFirstBank)
    (wakeUps n : Nat) {failures : List (Option Reply × List Event)}
    {last : Option Reply × List Event}
    (hattempts : (performAll wakeUps
      (List.replicate (n + 1) (.operation (.grant request wait) : Call σ)) s).1 =
        failures ++ [last])
    (hfailures : ∀ r ∈ failures, ∃ e, r.1 = some (.failed e))
    (hlast : ∀ e, last.1 ≠ some (.failed e)) :
    let attempts := performAll wakeUps
      (List.replicate (n + 1) (.operation (.grant request wait) : Call σ)) s
    (∃ done, Progresses request s attempts.2 done [] (attempts.1.map Prod.snd).flatten) ∧
      last.1 = some (if wait then .ok else .settling
        (Settling.between s.core.config.power (request.goal s.core.config).power).settle) := by
  have hprogress := exists_progresses (σ := σ) request wait hs wakeUps n
  rw [List.replicate_succ', performAll_concat] at hattempts ⊢
  generalize performAll wakeUps
    (List.replicate n (.operation (.grant request wait) : Call σ)) s = earlier at *
  obtain ⟨replies, t⟩ := earlier
  obtain ⟨rfl, hfinal⟩ := List.append_inj' hattempts rfl
  cases hfinal
  obtain ⟨hpower, done, rest, h⟩ := hprogress hfailures
  obtain ⟨more, left, waits, hmore⟩ := exists_grants (σ := σ) request wait h.inFirstBank wakeUps
  -- The last attempt did not fail, so it took all that was left.
  have hleft : left = [] := by
    cases left with
    | nil => rfl
    | cons x left => exact absurd (hmore.failed x rfl).2.1 (hlast _)
  subst hleft
  have hreply := hmore.completed rfl
  rw [show t.core.config.power = s.core.config.power from hpower, h.core,
    (request.stages_reached h.stages).2.1] at hreply
  refine ⟨⟨done ++ more, ?_⟩, hreply⟩
  dsimp only
  rw [List.map_append, List.flatten_append, List.map_singleton, List.flatten_singleton]
  exact h.attempt hmore

/-- Where nothing fails a single attempt stores all stages. -/
theorem exists_progresses_smooth (request : Request) (wait : Bool) (hs : s.bench.InFirstBank)
    (wakeUps : Nat) :
    let single := (Call.operation (.grant request wait) : Call σ).perform wakeUps s.smooth
    (∃ done once, Progresses request s.smooth single.2 done [] once) ∧
      single.1 = some (if wait then .ok else .settling
        (Settling.between s.core.config.power (request.goal s.core.config).power).settle) := by
  have hsmooth : s.smooth.bench.InFirstBank := hs
  obtain ⟨done, rest, waits, h⟩ := exists_grants (σ := σ) request wait hsmooth wakeUps
  have hrest : rest = [] := by
    cases rest with
    | nil => rfl
    | cons x rest =>
      exact absurd (h.failed x rfl).1 (by simp [System.smooth, Bench.smooth, Plan.smooth])
  subst hrest
  exact ⟨⟨_, _, (Progresses.refl request hsmooth).attempt h⟩, h.completed rfl⟩

end Call

/-- A request is attempted again and again wherever the device can be found and whatever fails,
until it is granted.

The record and the registers are then those that a single attempt leaves where nothing fails. All
attempts together have written what the single one writes, in the same order and each register at
most once, and the last of them answers what the single one does. -/
theorem System.IsReachable.grant_retried {σ : Type} [Sink σ] {s : System} (hs : s.IsReachable)
    (plan : Plan) (request : Request) (wait : Bool) (wakeUps n : Nat)
    {failures : List (Option Reply × List Event)} {last : Option Reply × List Event}
    (hattempts : (Call.performAll wakeUps
      (List.replicate (n + 1) (.operation (.grant request wait) : Call σ)) (s.withPlan plan)).1 =
        failures ++ [last])
    (hfailures : ∀ r ∈ failures, ∃ e, r.1 = some (.failed e))
    (hlast : ∀ e, last.1 ≠ some (.failed e)) :
    let attempts := Call.performAll wakeUps
      (List.replicate (n + 1) (.operation (.grant request wait) : Call σ)) (s.withPlan plan)
    let single :=
      (Call.operation (.grant request wait) : Call σ).perform wakeUps (s.withPlan plan).smooth
    let events := (attempts.1.map Prod.snd).flatten
    attempts.2.core = single.2.core ∧
      attempts.2.bench.chip.memory = single.2.bench.chip.memory ∧ last.1 = single.1 ∧
      ∃ once, attempts.2.bench.trace = s.bench.trace ++ events ∧
        single.2.bench.trace = s.bench.trace ++ once ∧
        writes events s.bench.chip = writes once s.bench.chip ∧
        ((writes events s.bench.chip).map Prod.fst).Nodup := by
  intro attempts single events
  have hstart : (s.withPlan plan).bench.InFirstBank := hs.inFirstBank
  obtain ⟨⟨done, h⟩, hreply⟩ := Call.exists_progresses_granted request wait hstart wakeUps n
    hattempts hfailures hlast
  obtain ⟨⟨done', once, h'⟩, hreply'⟩ :=
    Call.exists_progresses_smooth (σ := σ) request wait hstart wakeUps
  obtain ⟨hcore, hmemory, hwrites, hnodup⟩ := h.complete
  obtain ⟨hcore', hmemory', hwrites', _⟩ := h'.complete
  exact ⟨hcore.trans hcore'.symm, hmemory.trans hmemory'.symm, hreply.trans hreply'.symm, once,
    h.logged.trace, h'.logged.trace, hwrites.trans hwrites'.symm, hnodup⟩

/-- The accelerometer's range, filter and mode are to be changed. The filter cannot be written at
first, then the mode cannot, and the third attempt succeeds and answers how long the start takes. -/
theorem System.IsReachable.grant_retried_twice :
    let bench : Bench := {
      chip := {
        memory := Memory.zero.writeAll [(Register.whoAmI, 0x42), (Register.intStatus, 0x10)] } }
    let s := ((Driver.powerUp .icm42605 {}).exec { bench, core := .fresh .icm42605 }).2.withInbox {}
    let request : Request :=
      .accel { mode := some .lowPower, range := some .g4, filter := some .odrDiv8 }
    let plan : Plan :=
      { failsAccess := fun k _ => k == s.bench.accesses + 1 || k == s.bench.accesses + 3 }
    let attempts := Call.performAll 0
      (List.replicate (2 + 1) (.operation (.grant request false) : Call ScriptedSink))
      (s.withPlan plan)
    let single := (Call.operation (.grant request false) : Call ScriptedSink).perform 0
      (s.withPlan plan).smooth
    s.IsReachable ∧
      attempts.1.map Prod.fst = [some (.failed (.bus (.write Register.gyroAccelConfig0))),
        some (.failed (.bus (.write Register.pwrMgmt0))),
        some (.settling (.ofMillis Timing.accelStart))] ∧
      attempts.2.core = single.2.core ∧
      some (.settling (.ofMillis Timing.accelStart)) = single.1 ∧
      single.2.core.config.accel = ⟨.lowPower, .g4, .hz50, .odrDiv8⟩ := by
  intro bench s request plan attempts single
  have hs : s.IsReachable := .powerUp trivial (Except.eq_ok_of_toOption (by decide +kernel))
  have hreplies : attempts.1.map Prod.fst =
      [some (.failed (.bus (.write Register.gyroAccelConfig0))),
        some (.failed (.bus (.write Register.pwrMgmt0))),
        some (.settling (.ofMillis Timing.accelStart))] := by decide +kernel
  have hconfig : single.2.core.config.accel = ⟨.lowPower, .g4, .hz50, .odrDiv8⟩ := by
    decide +kernel
  clear_value s
  obtain ⟨first, others, hattempts, hfirst, hothers⟩ := List.map_eq_cons_iff.mp hreplies
  obtain ⟨second, others, rfl, hsecond, hothers⟩ := List.map_eq_cons_iff.mp hothers
  obtain ⟨third, others, rfl, hthird, hothers⟩ := List.map_eq_cons_iff.mp hothers
  cases List.map_eq_nil_iff.mp hothers
  obtain ⟨hcore, _, hreply, _⟩ := hs.grant_retried (σ := ScriptedSink) plan request false 0 2
    (show attempts.1 = [first, second] ++ [third] from hattempts) (by simp [hfirst, hsecond])
    (by simp [hthird])
  refine ⟨hs, hreplies, ?_, hthird.symm.trans hreply, hconfig⟩
  simp only [attempts, single, hcore]

end Inertial
