import Inertial.Proofs.Driver.Granting
import Inertial.Proofs.Shared.Reachable
import Inertial.Proofs.Shared.Sequence

/-!
# The last wish counts

Calls that change settings are made one after the other and no access fails. Then each setting is
the last one that any of them gave, and a setting that none of them gave is as it was. Since the
registers hold the configuration on record, that settles them as well.

Two calls next to each other that are for different parts of the device may be swapped. How long a
change takes to settle depends on the part that it is for and on nothing else
(`Operation.answer_after`), so each of the two answers the same either way.
-/

set_option autoImplicit false

namespace Inertial

/-! ## Wishes -/

/-- Wishes for the whole device; a setting that is not given stays as it is. -/
structure Wishes where
  gyro : SensorRequest GyroRange := {}
  accel : SensorRequest AccelRange := {}
  temperature : Option Bool := none

/-- The configuration with the wishes granted. -/
def Wishes.grant (w : Wishes) (c : DeviceConfig) : DeviceConfig where
  gyro := w.gyro.resolve c.gyro
  accel := w.accel.resolve c.accel
  temperature := w.temperature.getD c.temperature

/-- What runs, as wishes for all of it. -/
def PowerState.wishes (p : PowerState) : Wishes where
  gyro := { mode := some p.gyro }
  accel := { mode := some p.accel }
  temperature := some p.temperature

/-- A part of the device that a call can be for. -/
inductive Target where
  | gyro
  | accel
  | thermometer
deriving DecidableEq

namespace Operation

/-- The call changes settings and does nothing else. -/
def changesSettings : Operation → Bool
  | .grant .. | .setTemperature .. | .setPower .. => true
  | _ => false

/-- What a call that changes settings asks for. -/
def wishes : Operation → Wishes
  | .grant (.gyro wishes) _ => { gyro := wishes }
  | .grant (.accel wishes) _ => { accel := wishes }
  | .setTemperature on _ => { temperature := some on }
  | .setPower p _ => p.wishes
  | _ => {}

/-- The part of the device that a change of settings is for if it is for one only. -/
def target? : Operation → Option Target
  | .grant (.gyro _) _ => some .gyro
  | .grant (.accel _) _ => some .accel
  | .setTemperature .. => some .thermometer
  | _ => none

/-- The call waits until the output has settled. -/
def waits : Operation → Bool
  | .grant _ wait | .setTemperature _ wait | .setPower _ wait => wait
  | _ => false

/-- What a call that changes settings answers if it succeeds under a configuration. -/
def answer (op : Operation) (c : DeviceConfig) : Reply :=
  if op.waits then .ok
  else .settling (Settling.between c.power (op.wishes.grant c).power).settle

/-- The last value that any of the calls gives for a setting. -/
def lastGiven {α : Type} (setting : Wishes → Option α) (ops : List Operation) : Option α :=
  (ops.filterMap fun op => setting op.wishes).getLast?

/-- For each setting the last value that any of the calls gives for it. -/
def lastWishes (ops : List Operation) : Wishes where
  gyro := {
    mode := lastGiven (·.gyro.mode) ops
    range := lastGiven (·.gyro.range) ops
    rate := lastGiven (·.gyro.rate) ops
    filter := lastGiven (·.gyro.filter) ops }
  accel := {
    mode := lastGiven (·.accel.mode) ops
    range := lastGiven (·.accel.range) ops
    rate := lastGiven (·.accel.rate) ops
    filter := lastGiven (·.accel.filter) ops }
  temperature := lastGiven (·.temperature) ops

/-- The last of the calls gives a setting, or the last value before it stands. -/
theorem getD_lastGiven_concat {α : Type} (setting : Wishes → Option α) (ops : List Operation)
    (op : Operation) (a : α) :
    (lastGiven setting (ops ++ [op])).getD a =
      (setting op.wishes).getD ((lastGiven setting ops).getD a) := by
  unfold lastGiven
  rw [List.filterMap_append]
  cases h : setting op.wishes <;> simp [h]

/-- Granting the last wishes grants those of the last call on top of those of all before it. -/
theorem grant_lastWishes_concat (ops : List Operation) (op : Operation) (c : DeviceConfig) :
    (lastWishes (ops ++ [op])).grant c = op.wishes.grant ((lastWishes ops).grant c) := by
  unfold Wishes.grant SensorRequest.resolve lastWishes
  simp only [getD_lastGiven_concat]

/-! ## One call -/

/-- A call that changes settings is a driver that has its wishes granted if it succeeds, and that
fails only if an access failed. -/
theorem exists_driver {op : Operation} (hop : op.changesSettings = true) :
    ∃ x : Driver Duration, op.body = settling op.waits x ∧ x.Honest ∧
      ∀ c, Driver.Success c (Driver.Changes c (op.wishes.grant c.config)) x := by
  cases op with
  | grant request wait =>
    refine ⟨Driver.grant request, rfl,
      (Driver.composed_grant request).tuning_of_settings.honest, ?_⟩
    intro c
    cases request <;> exact Driver.success_grant _ c
  | setTemperature on wait =>
    exact ⟨_, rfl, (Driver.composed_setTemperature on).tuning_of_settings.honest,
      Driver.success_setTemperature on⟩
  | setPower p wait =>
    refine ⟨_, rfl, (Driver.composed_setPower p).tuning.honest, ?_⟩
    intro c
    exact (Driver.outcome_setPower p).success fun t d h => h
  | _ => cases hop

/-- Unless an access fails, a call that changes settings has its wishes granted. -/
theorem run_body {op : Operation} (hop : op.changesSettings = true) {s : System}
    (hs : s.bench.InStep) {events : List Event}
    (htrace : (op.body.run s).2.bench.trace = s.bench.trace ++ events)
    (hfree : ∀ e ∈ events, e.succeeded = true) :
    (op.body.run s).1 = op.answer s.core.config ∧ (op.body.run s).2.bench.InStep ∧
      (op.body.run s).2.core.config = op.wishes.grant s.core.config := by
  obtain ⟨x, hbody, hhonest, hsuccess⟩ := exists_driver hop
  unfold answer
  cases hwait : op.waits with
  | true =>
    rw [hbody, hwait, settling, if_pos rfl, run_reply_snd] at htrace
    have hgranted : Driver.Success s.core
        (fun _ d => d.config = op.wishes.grant s.core.config) (x >>= Driver.settle) := by
      refine (hsuccess s.core).bind ?_
      rintro t d ⟨rfl, _⟩
      exact (Driver.outcome_settle (Q := fun _ d => d.config = op.wishes.grant s.core.config) t
        rfl).success fun _ _ h => h
    have hsettled : Driver.Honest (x >>= Driver.settle) :=
      hhonest.bind fun t => (Driver.composed_settle t).tuning.honest
    obtain ⟨_, t, hexec, hin, hconfig⟩ := hsettled.exec_eq_ok hgranted hs htrace hfree
    rw [hbody, hwait, settling, if_pos rfl, run_reply, hexec]
    exact ⟨rfl, hin, hconfig⟩
  | false =>
    rw [hbody, hwait, settling, if_neg Bool.false_ne_true, run_reply_snd] at htrace
    obtain ⟨settle, t, hexec, hin, hcore, hsettle⟩ :=
      hhonest.exec_eq_ok (hsuccess s.core) hs htrace hfree
    rw [hbody, hwait, settling, if_neg Bool.false_ne_true, run_reply, hexec]
    refine ⟨?_, hin, ?_⟩
    · rw [hsettle]
      rfl
    · change t.core.config = _
      rw [hcore]

/-! ## Calls one after the other -/

/-- The configuration after calls that have their wishes granted. -/
def configAfter (ops : List Operation) (c : DeviceConfig) : DeviceConfig :=
  ops.foldl (fun c op => op.wishes.grant c) c

/-- What calls answer that have their wishes granted one after the other. -/
def answers : List Operation → DeviceConfig → List Reply
  | [], _ => []
  | op :: ops, c => op.answer c :: answers ops (op.wishes.grant c)

/-- More calls after some grant the last wishes of all of them. -/
theorem configAfter_grant_lastWishes (ops later : List Operation) (c : DeviceConfig) :
    configAfter later ((lastWishes ops).grant c) = (lastWishes (ops ++ later)).grant c := by
  induction later generalizing ops with
  | nil => rw [List.append_nil, configAfter, List.foldl_nil]
  | cons op later ih =>
    rw [configAfter, List.foldl_cons, ← grant_lastWishes_concat]
    have hrest := ih (ops ++ [op])
    rwa [List.append_assoc, List.singleton_append] at hrest

/-- Calls one after the other grant the last wishes of all of them. -/
theorem configAfter_eq (ops : List Operation) (c : DeviceConfig) :
    configAfter ops c = (lastWishes ops).grant c :=
  configAfter_grant_lastWishes [] ops c

/-- Later calls are answered by what earlier ones have left. -/
theorem answers_append (ops later : List Operation) (c : DeviceConfig) :
    answers (ops ++ later) c = answers ops c ++ answers later (configAfter ops c) := by
  induction ops generalizing c with
  | nil => rfl
  | cons op ops ih => exact congrArg (op.answer c :: ·) (ih _)

/-- Every call is answered once. -/
theorem length_answers (ops : List Operation) (c : DeviceConfig) :
    (answers ops c).length = ops.length := by
  induction ops generalizing c with
  | nil => rfl
  | cons op ops ih => exact congrArg (· + 1) (ih _)

/-- No call fails that has its wishes granted. -/
theorem not_failed_of_mem_answers {ops : List Operation} {c : DeviceConfig} {r : Reply}
    (h : r ∈ answers ops c) : ∀ e, r ≠ .failed e := by
  induction ops generalizing c with
  | nil => cases h
  | cons op ops ih =>
    rcases List.mem_cons.mp h with rfl | h
    · unfold answer
      split <;> simp
    · exact ih h

/-- No access failed in what the calls added to the trace. -/
def FailureFree (done : List (Option Reply × List Event)) : Prop :=
  ∀ r ∈ done, ∀ e ∈ r.2, e.succeeded = true

variable {σ : Type} [Sink σ]

/-- Unless an access fails, calls that change settings have their wishes granted in turn. -/
theorem performAll_eq {ops : List Operation} (hops : ∀ op ∈ ops, op.changesSettings = true)
    (wakeUps : Nat) {s : System} (hs : s.bench.InStep)
    (hfree : FailureFree (Call.performAll wakeUps (ops.map (Call.operation (σ := σ))) s).1) :
    let done := Call.performAll wakeUps (ops.map (Call.operation (σ := σ))) s
    done.1.map Prod.fst = (answers ops s.core.config).map some ∧
      done.2.core.config = configAfter ops s.core.config := by
  induction ops generalizing s with
  | nil => exact ⟨rfl, rfl⟩
  | cons op ops ih =>
    obtain ⟨events, hevents⟩ := op.body.exists_trace_run s
    have hadded : (op.body.run s).2.bench.trace.drop s.bench.trace.length = events := by
      rw [hevents, List.drop_left]
    have hfirst : ∀ e ∈ events, e.succeeded = true :=
      hadded ▸ hfree _ List.mem_cons_self
    obtain ⟨hanswer, hin, hconfig⟩ := run_body (hops op List.mem_cons_self) hs hevents hfirst
    obtain ⟨hreplies, hlast⟩ := ih (fun o ho => hops o (List.mem_cons_of_mem op ho)) hin
      fun r hr => hfree r (List.mem_cons_of_mem _ hr)
    rw [hconfig] at hreplies hlast
    refine ⟨?_, hlast⟩
    change some (op.body.run s).1 ::
      (Call.performAll wakeUps (ops.map Call.operation) (op.body.run s).2).1.map Prod.fst = _
    rw [hanswer, hreplies]
    rfl

/-! ## Registers -/

/-- The registers hold the configuration on record, and all others are as in `m₀`. -/
def MirroredOver (m₀ : Memory) (core : Core) (m : Memory) : Prop :=
  core.Mirrored m ∧ ∀ a, (∀ r : ConfigRegister, r.address ≠ a) → m a = m₀ a

/-- Storing a configuration touches only the registers of the configuration. -/
theorem storeStable_mirroredOver (m₀ : Memory) : Driver.StoreStable (MirroredOver m₀) := by
  intro core m r config h hother
  refine ⟨Core.storeStable_mirrored core m r config h.1 hother, ?_⟩
  intro a ha
  rw [Memory.write_of_ne m _ (ha r).symm]
  exact h.2 a ha

/-- So does every call that changes settings. -/
theorem keeps_mirroredOver {op : Operation} (hop : op.changesSettings = true) (m₀ : Memory) :
    op.body.Keeps (MirroredOver m₀) := by
  have hstore := storeStable_mirroredOver m₀
  cases op with
  | grant request wait =>
    exact keeps_settling ((Driver.composed_grant request).keeps_of_settings hstore) wait
  | setTemperature on wait =>
    exact keeps_settling ((Driver.composed_setTemperature on).keeps_of_settings hstore) wait
  | setPower p wait => exact keeps_settling (Driver.keeps_setPower hstore.modes p) wait
  | _ => cases hop

/-- The configuration on record tells all registers, given those from before. -/
theorem memory_eq_of_mirroredOver {m₀ m n : Memory} {c d : Core} (hm : MirroredOver m₀ c m)
    (hn : MirroredOver m₀ d n) (hconfig : c.config = d.config) : m = n := by
  funext a
  by_cases ha : ∃ r : ConfigRegister, r.address = a
  · obtain ⟨r, rfl⟩ := ha
    rw [hm.1 r, hn.1 r, hconfig]
  · have hother : ∀ r : ConfigRegister, r.address ≠ a := fun r hr => ha ⟨r, hr⟩
    rw [hm.2 a hother, hn.2 a hother]

/-! ## Swapping two calls -/

/-- Calls for different parts of the device have the same effect in either order, and neither
answers differently for the other having been made before. -/
theorem answer_after {a b : Operation} {t u : Target} (ha : a.target? = some t)
    (hb : b.target? = some u) (hne : t ≠ u) (c : DeviceConfig) :
    a.wishes.grant (b.wishes.grant c) = b.wishes.grant (a.wishes.grant c) ∧
      a.answer (b.wishes.grant c) = a.answer c := by
  -- What a call answers is told from the part of the configuration that it is for.
  have hgyro : ∀ (w : SensorRequest GyroRange) (wait : Bool) (c : DeviceConfig),
      (Operation.grant (.gyro w) wait).answer c = if wait then .ok else
        .settling (Settling.gyro c.gyro.mode (w.mode.getD c.gyro.mode)) :=
    fun w wait c => congrArg (fun d => if wait then Reply.ok else .settling d)
      (Settling.settle_between_gyro c.power _)
  have haccel : ∀ (w : SensorRequest AccelRange) (wait : Bool) (c : DeviceConfig),
      (Operation.grant (.accel w) wait).answer c = if wait then .ok else
        .settling (Settling.accel c.accel.mode (w.mode.getD c.accel.mode)) :=
    fun w wait c => congrArg (fun d => if wait then Reply.ok else .settling d)
      (Settling.settle_between_accel c.power _)
  have htemperature : ∀ (on wait : Bool) (c : DeviceConfig),
      (Operation.setTemperature on wait).answer c = if wait then .ok else
        .settling (Settling.temperature c.temperature on) :=
    fun on wait c => congrArg (fun d => if wait then Reply.ok else .settling d)
      (Settling.settle_between_temperature c.power _)
  cases a with
  | grant request wait =>
    cases request with
    | gyro w =>
      rw [hgyro, hgyro]
      cases b with
      | grant request' _ =>
        cases request' with
        | gyro _ => exact absurd (Option.some.inj (ha.symm.trans hb)) hne
        | accel _ => exact ⟨rfl, rfl⟩
      | setTemperature _ _ => exact ⟨rfl, rfl⟩
      | _ => cases hb
    | accel w =>
      rw [haccel, haccel]
      cases b with
      | grant request' _ =>
        cases request' with
        | gyro _ => exact ⟨rfl, rfl⟩
        | accel _ => exact absurd (Option.some.inj (ha.symm.trans hb)) hne
      | setTemperature _ _ => exact ⟨rfl, rfl⟩
      | _ => cases hb
  | setTemperature on wait =>
    rw [htemperature, htemperature]
    cases b with
    | grant request' _ => cases request' <;> exact ⟨rfl, rfl⟩
    | setTemperature _ _ => exact absurd (Option.some.inj (ha.symm.trans hb)) hne
    | _ => cases hb
  | _ => cases ha

/-- Calls that change settings are made one after the other and no access fails. Then none of them
fails, each setting is the last one given for it, or as it was if none was given, and the registers
hold that configuration. Two calls next to each other that are for different parts of the device may
be swapped: the configuration and the registers are the same in the end, each of the two answers the
same, and so do all the others. -/
theorem config_of_last_wishes {s : System} (hs : s.IsReachable) (wakeUps : Nat)
    {ops : List Operation} (hops : ∀ op ∈ ops, op.changesSettings = true)
    (hfree : FailureFree (Call.performAll wakeUps (ops.map (Call.operation (σ := σ))) s).1) :
    let done := Call.performAll wakeUps (ops.map (Call.operation (σ := σ))) s
    (∀ r ∈ done.1, ∃ reply, r.1 = some reply ∧ ∀ e, reply ≠ .failed e) ∧
      done.2.core.config = (lastWishes ops).grant s.core.config ∧
      (∀ r : ConfigRegister, done.2.bench.chip.memory r.address =
        ((lastWishes ops).grant s.core.config).encode r) ∧
      ∀ before a b after t u, ops = before ++ a :: b :: after →
        a.target? = some t → b.target? = some u → t ≠ u →
        let swapped := Call.performAll wakeUps
          ((before ++ b :: a :: after).map (Call.operation (σ := σ))) s
        FailureFree swapped.1 →
        swapped.2.core.config = done.2.core.config ∧
          swapped.2.bench.chip.memory = done.2.bench.chip.memory ∧
          ∃ first answerA answerB last, first.length = before.length ∧
            done.1.map Prod.fst = first ++ answerA :: answerB :: last ∧
            swapped.1.map Prod.fst = first ++ answerB :: answerA :: last := by
  intro done
  have hin := hs.agrees.1
  have hkeeps : ∀ {ops : List Operation}, (∀ op ∈ ops, op.changesSettings = true) →
      (Call.performAll wakeUps (ops.map (Call.operation (σ := σ))) s).2.Agrees
        (MirroredOver s.bench.chip.memory) := by
    intro ops hops
    refine Call.agrees_performAll ?_ wakeUps ⟨hin, hs.agrees.2, fun _ _ => rfl⟩
    intro op hop
    obtain ⟨op', hop', he⟩ := List.mem_map.mp hop
    cases he
    exact keeps_mirroredOver (hops op hop') _
  -- What is answered and recorded is a matter of the wishes alone; the registers follow the record.
  obtain ⟨hreplies, hconfig⟩ := performAll_eq hops wakeUps hin hfree
  refine ⟨?_, ?_, ?_, ?_⟩
  · intro r hr
    have hmem : r.1 ∈ (answers ops s.core.config).map some :=
      hreplies ▸ List.mem_map_of_mem hr
    obtain ⟨reply, hreply, heq⟩ := List.mem_map.mp hmem
    exact ⟨reply, heq.symm, not_failed_of_mem_answers hreply⟩
  · exact hconfig.trans (configAfter_eq ops _)
  · intro r
    rw [← configAfter_eq, ← hconfig]
    exact (hkeeps hops).2.1 r
  · rintro before a b after t u rfl ha hb hne swapped hfree'
    have hops' : ∀ op ∈ before ++ b :: a :: after, op.changesSettings = true :=
      fun op hop => hops op (((List.Perm.swap a b after).append_left before).mem_iff.mp hop)
    obtain ⟨hreplies', hconfig'⟩ := performAll_eq hops' wakeUps hin hfree'
    let c := configAfter before s.core.config
    -- Up to the two calls nothing differs, and after both of them nothing does.
    obtain ⟨hgrant, hanswerA⟩ := answer_after ha hb hne c
    obtain ⟨_, hanswerB⟩ := answer_after hb ha hne.symm c
    have hsame : swapped.2.core.config = done.2.core.config := by
      rw [hconfig, hconfig', configAfter, configAfter, List.foldl_append, List.foldl_append]
      exact congrArg (configAfter after) hgrant
    refine ⟨hsame, memory_eq_of_mirroredOver (hkeeps hops').2 (hkeeps hops).2 hsame,
      (answers before s.core.config).map some, some (a.answer c), some (b.answer c),
      (answers after (b.wishes.grant (a.wishes.grant c))).map some, ?_, ?_, ?_⟩
    · rw [List.length_map, length_answers]
    · rw [hreplies, answers_append, List.map_append, ← hanswerB]
      rfl
    · rw [hreplies', answers_append, List.map_append, ← hanswerA, ← hgrant]
      rfl

/-- Both sensors share the power register and the filter register. Here the gyroscope is asked for
twice and the thermometer is turned off in the end, and swapping the second and third call changes
neither the outcome nor the answers. -/
theorem config_of_last_wishes_shared_registers :
    let bench : Bench := {
      chip := {
        memory := Memory.zero.writeAll [(Register.whoAmI, 0x42), (Register.intStatus, 0x10)] }
      bus := .serial Register.bank0 }
    let s := ((Driver.powerUp .icm42605 {}).exec { bench, core := .fresh .icm42605 }).2.withInbox {}
    let first := Operation.setPower ⟨.lowNoise, .off, true⟩ true
    let gyro := Operation.grant (.gyro {
      mode := some .off, range := some .dps250, filter := some .odrDiv4 }) false
    let accel := Operation.grant (.accel { mode := some .lowPower, filter := some .odrDiv8 }) false
    let last :=
      [Operation.grant (.gyro { range := some .dps500 }) true, .setTemperature false false]
    let done := Call.performAll 0 ((first :: gyro :: accel :: last).map
      (Call.operation (σ := ScriptedSink))) s
    let swapped := Call.performAll 0 ((first :: accel :: gyro :: last).map
      (Call.operation (σ := ScriptedSink))) s
    s.IsReachable ∧ FailureFree done.1 ∧
      done.2.core.config = ⟨⟨.off, .dps500, .hz50, .odrDiv4⟩, ⟨.lowPower, .g16, .hz50, .odrDiv8⟩,
        false⟩ ∧
      swapped.2.core.config = done.2.core.config ∧
      swapped.2.bench.chip.memory = done.2.bench.chip.memory ∧
      done.1.map Prod.fst = [some .ok, some (.settling (.ofMillis 150)),
        some (.settling (.ofMillis 20)), some .ok, some (.settling .zero)] ∧
      swapped.1.map Prod.fst = [some .ok, some (.settling (.ofMillis 20)),
        some (.settling (.ofMillis 150)), some .ok, some (.settling .zero)] := by
  intro bench s first gyro accel last done swapped
  have hs : s.IsReachable := .powerUp rfl (Except.eq_ok_of_toOption (by decide +kernel))
  have hops : ∀ op ∈ first :: gyro :: accel :: last, op.changesSettings = true := by
    decide +kernel
  have hfree : FailureFree done.1 := by
    unfold FailureFree
    decide +kernel
  have hfree' : FailureFree swapped.1 := by
    unfold FailureFree
    decide +kernel
  obtain ⟨_, hconfig, _, hswap⟩ := config_of_last_wishes (σ := ScriptedSink) hs 0 hops hfree
  obtain ⟨hsame, hmemory, _⟩ :=
    hswap [first] gyro accel last .gyro .accel rfl rfl rfl (by decide) hfree'
  have hlast : (lastWishes (first :: gyro :: accel :: last)).grant s.core.config =
      ⟨⟨.off, .dps500, .hz50, .odrDiv4⟩, ⟨.lowPower, .g16, .hz50, .odrDiv8⟩, false⟩ := by
    decide +kernel
  rw [hlast] at hconfig
  rw [List.singleton_append] at hsame hmemory
  refine ⟨hs, hfree, ?_, ?_, ?_, ?_, ?_⟩
  · simp only [done]
    exact hconfig
  · simp only [done, swapped]
    exact hsame
  · simp only [done, swapped]
    exact hmemory
  · decide +kernel
  · decide +kernel

end Operation

end Inertial
