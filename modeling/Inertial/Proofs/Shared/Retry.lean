import Inertial.Proofs.Driver.Outcome
import Inertial.Proofs.Shared.Reachable
import Inertial.Proofs.Shared.Sequence

/-!
# Suspending again after a failure

Every attempt to suspend the device notes what runs when it begins. An attempt that fails on the bus
leaves everything running, so the note of the next one is the same. An attempt that gets as far as
the supply leaves nothing running, whether the supply could be switched off or not, and the note of
the next one is that nothing ran. So what a resume brings back is what ran before the last attempt,
and that is what ran at first only if every earlier attempt failed on the bus.
-/

set_option autoImplicit false

namespace Inertial

/-- Whether a call failed on the bus. -/
def Reply.isBusFailure : Reply → Bool
  | .failed e => e.isBus
  | _ => false

namespace Call

variable {σ : Type} [Sink σ] {s : System}

/-- One attempt to suspend an active device. -/
theorem perform_suspend (hactive : s.core.power.active = true) (wakeUps : Nat) :
    ∃ r t, (Call.operation .suspend : Call σ).perform wakeUps s = (some r, t) ∧
      t.core.saved = s.core.config.power ∧ t.core.power = s.core.power ∧
      t.core.config = if r.isBusFailure then s.core.config else s.core.config.withPower .off := by
  obtain ⟨hsaved, hpower, hconfig⟩ := Driver.outcome_suspend hactive s rfl
  have hperform : ∀ r t, (Operation.reply Driver.suspend fun _ => .ok).run s = (r, t) →
      (Call.operation .suspend : Call σ).perform wakeUps s = (some r, t) :=
    fun r t h => congrArg (fun x => (some x.1, x.2)) h
  have hrun := Operation.run_reply Driver.suspend (fun _ => .ok) s
  rcases hx : Driver.suspend.exec s with ⟨e | _, t⟩
  · rw [hx] at hsaved hpower hconfig hrun
    refine ⟨.failed e, t, hperform _ _ hrun, hsaved, hpower, ?_⟩
    cases e <;> exact hconfig
  · rw [hx] at hsaved hpower hconfig hrun
    exact ⟨.ok, t, hperform _ _ hrun, hsaved, hpower, hconfig⟩

/-- Whether all of a list of attempts failed on the bus. -/
def allMissed (replies : List (Option Reply × List Event)) : Bool :=
  replies.all fun r => r.1.any Reply.isBusFailure

/-- After any number of attempts everything runs that ran at first, or nothing does. -/
theorem performAll_suspend (hactive : s.core.power.active = true) (wakeUps n : Nat) :
    let attempts := performAll wakeUps (List.replicate n (.operation .suspend : Call σ)) s
    attempts.2.core.power = s.core.power ∧
      attempts.2.core.config =
        if allMissed attempts.1 then s.core.config else s.core.config.withPower .off := by
  induction n with
  | zero => exact ⟨rfl, rfl⟩
  | succ n ih =>
    rw [List.replicate_succ', performAll_concat]
    generalize performAll wakeUps (List.replicate n (.operation .suspend : Call σ)) s = before at *
    obtain ⟨rest, t⟩ := before
    obtain ⟨hpower, hconfig⟩ := ih
    dsimp only at hpower hconfig ⊢
    obtain ⟨r, u, hu, _, hpower', hconfig'⟩ :=
      perform_suspend (σ := σ) (by rw [hpower, hactive] : t.core.power.active = true) wakeUps
    rw [hu]
    refine ⟨hpower'.trans hpower, ?_⟩
    have hall : allMissed (rest ++ [(some r, u.bench.trace.drop t.bench.trace.length)]) =
        (allMissed rest && r.isBusFailure) := by
      simp [allMissed]
    dsimp only
    rw [hall, hconfig', hconfig]
    cases allMissed rest <;> cases r.isBusFailure <;> rfl

/-- An active device is suspended several times, each attempt successful or not, and a resume then
succeeds. What runs after that is what ran before the last attempt. If every earlier attempt failed
on the bus, the configuration is the one from before all of them; if one of them got as far as the
supply, nothing runs. -/
theorem power_of_repeated_suspend {v : System} (hactive : s.core.power.active = true)
    (wakeUps n : Nat)
    (hresume : (Call.operation .resume : Call σ).perform wakeUps
      (performAll wakeUps (List.replicate (n + 1) (.operation .suspend : Call σ)) s).2 =
        (some .ok, v)) :
    let earlier := performAll wakeUps (List.replicate n (.operation .suspend : Call σ)) s
    v.core.config.power = earlier.2.core.config.power ∧
      ((∀ r ∈ earlier.1, ∃ fault, r.1 = some (.failed (.bus fault))) →
        v.core.config = s.core.config) ∧
      ((∃ r ∈ earlier.1, ¬ ∃ fault, r.1 = some (.failed (.bus fault))) →
        v.core.config.power = .off) := by
  intro earlier
  obtain ⟨hpower, hconfig⟩ := performAll_suspend (σ := σ) hactive wakeUps n
  change earlier.2.core.config = if allMissed earlier.1 then _ else _ at hconfig
  obtain ⟨r, u, hu, hsaved, _, hconfig'⟩ :=
    perform_suspend (σ := σ) (by rw [hpower, hactive] : earlier.2.core.power.active = true) wakeUps
  -- The last attempt noted what ran, so that is what the resume brings back.
  have hlast : (performAll wakeUps (List.replicate (n + 1) (.operation .suspend : Call σ)) s).2 =
      u := by
    rw [List.replicate_succ', performAll_concat]
    exact congrArg Prod.snd hu
  rw [hlast] at hresume
  have hexec : Driver.resume.exec u = (.ok (), v) := by
    apply Operation.exec_of_run_reply
    obtain ⟨hok, hv⟩ := Prod.mk.inj hresume
    exact Prod.ext (Option.some.inj hok) hv
  have hv : v.core.config = u.core.config.withPower u.core.saved :=
    Driver.success_resume.of_exec hexec () rfl
  have hback : v.core.config = earlier.2.core.config := by
    rw [hv, hsaved, hconfig']
    cases r.isBusFailure <;> rfl
  have hmissed : allMissed earlier.1 = true ↔
      ∀ r ∈ earlier.1, ∃ fault, r.1 = some (.failed (.bus fault)) := by
    refine List.all_eq_true.trans (forall₂_congr ?_)
    rintro ⟨_ | ⟨_⟩ | _ | ⟨_ | _⟩ | _⟩ _ <;> simp [Reply.isBusFailure, DriverError.isBus]
  refine ⟨congrArg DeviceConfig.power hback, ?_, ?_⟩
  · intro hall
    rw [hback, hconfig, if_pos (hmissed.mpr hall)]
  · rintro ⟨r, hr, hno⟩
    have hsome : ¬ allMissed earlier.1 = true := fun h => hno (hmissed.mp h r hr)
    rw [hback, hconfig, if_neg hsome]
    rfl

/-- The FIFO of a streaming device cannot be turned off at first; the second attempt succeeds, and
the resume after it brings everything back. -/
theorem power_of_suspend_after_missed_write :
    let bench : Bench := {
      chip := {
        memory := Memory.zero.writeAll [(Register.whoAmI, 0x42), (Register.intStatus, 0x10)] }
      supply := .switched
      plan := { failsAccess := fun k _ => k == 16 } }
    let start :=
      ((Driver.powerUp .icm42605 {}).exec { bench, core := .fresh .icm42605 }).2.withInbox {}
    let calls : List (Call ScriptedSink) :=
      [.operation (.setPower ⟨.lowNoise, .lowPower, true⟩ false), .operation (.setStreaming true)]
    let s := ((Pool.ofCalls calls start).follow 0 [0, 0, 1]).system
    let suspends : List (Call ScriptedSink) := List.replicate 2 (.operation .suspend)
    let u := (performAll 0 suspends s).2
    let v := ((Call.operation .resume : Call ScriptedSink).perform 0 u).2
    s.IsReachable ∧ s.core.power.active = true ∧
      (performAll 0 suspends s).1.map Prod.fst =
        [some (.failed (.bus (.write Register.fifoConfig))), some .ok] ∧
      u.core.config.power = .off ∧ v.core.config.power = ⟨.lowNoise, .lowPower, true⟩ := by
  intro bench start calls s suspends u v
  have hstart : start.IsReachable :=
    .powerUp trivial (Except.eq_ok_of_toOption (by decide +kernel))
  have hs : s.IsReachable := hstart.follow (by decide +kernel) calls 0 [0, 0, 1]
  have hactive : s.core.power.active = true := by decide +kernel
  have hok : ((Call.operation .resume : Call ScriptedSink).perform 0 u).1 = some .ok := by
    decide +kernel
  have hresume : (Call.operation .resume : Call ScriptedSink).perform 0 u = (some .ok, v) := by
    rw [← hok]
  obtain ⟨hpower, _, _⟩ := power_of_repeated_suspend hactive 0 1 hresume
  refine ⟨hs, hactive, by decide +kernel, by decide +kernel, hpower.trans ?_⟩
  decide +kernel

/-- The supply cannot be switched off at first; the second attempt to suspend succeeds, and so does
the resume after it, but nothing runs any more. -/
theorem power_lost_after_refused_supply :
    let bench : Bench := {
      chip := {
        memory := Memory.zero.writeAll [(Register.whoAmI, 0x42), (Register.intStatus, 0x10)] }
      supply := .switched
      plan := { failsSwitch := fun k _ _ => k == 2 } }
    let start :=
      ((Driver.powerUp .icm42605 {}).exec { bench, core := .fresh .icm42605 }).2.withInbox {}
    let calls : List (Call ScriptedSink) :=
      [.operation (.setPower ⟨.lowNoise, .lowPower, true⟩ false)]
    let s := ((Pool.ofCalls calls start).follow 0 [0, 0]).system
    let suspends : List (Call ScriptedSink) := List.replicate 2 (.operation .suspend)
    let u := (performAll 0 suspends s).2
    let resumed := (Call.operation .resume : Call ScriptedSink).perform 0 u
    s.IsReachable ∧ s.core.power.active = true ∧ s.core.rails.vddio = true ∧
      s.core.config.power = ⟨.lowNoise, .lowPower, true⟩ ∧
      (performAll 0 suspends s).1.map Prod.fst = [some (.failed (.rail .vddio)), some .ok] ∧
      resumed.1 = some .ok ∧ resumed.2.core.config.power = .off := by
  intro bench start calls s suspends u resumed
  have hstart : start.IsReachable :=
    .powerUp trivial (Except.eq_ok_of_toOption (by decide +kernel))
  have hs : s.IsReachable := hstart.follow (by decide +kernel) calls 0 [0, 0]
  refine ⟨hs, ?_, ?_, ?_, ?_, ?_, ?_⟩ <;> decide +kernel

end Call

end Inertial
