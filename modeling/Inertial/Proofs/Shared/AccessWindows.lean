import Inertial.Proofs.Driver.Waiting
import Inertial.Proofs.Shared.Reachable
import Inertial.Proofs.Shared.Turns

/-!
# Windows of silence on a shared device

Whatever calls are made on a device, in whatever order tasks come to have the lock and whatever
fails on the way, the windows of the chip are kept: the pause after a sensor was started and the
time that the interface supply takes are as quiet as they have to be, because the task that waits
has the lock; and who has stopped the gyroscope waits for it before it switches off a rail. The same
goes for shutting down, which nobody else can disturb.
-/

set_option autoImplicit false

namespace Inertial

/-- Between two turns nobody owes a pause and nobody waits, and no task has stopped the gyroscope
when its turn begins. -/
def Regime.windows (σ : Type) (start : SerialChip) : Regime σ where
  start := start
  agree := Core.Mirrored
  rest h := ((Watch.on start).follow h).phase = .open
  seen h := ∀ i d, ((Watch.on start).follow h).phase ≠ .owing i d
  fresh i h := ((Watch.on start).follow h).stopping i = false
  answers _ _ := True
  seen_of_rest := by
    intro h hrest i d howing
    rw [hrest] at howing
    cases howing
  seen_woke := by
    intro h i j d howing
    rw [Watch.follow_append] at howing
    change Watch.nextPhase _ i .woke = _ at howing
    unfold Watch.nextPhase at howing
    split at howing <;> (try split at howing) <;> simp_all
  fresh_append := by
    intro i j h events hji hfresh
    rw [Watch.follow_append, Watch.stopping_follow_of_ne _ _ hji.symm]
    exact hfresh

namespace Regime

variable {σ : Type} {start : SerialChip} {i : Nat}

/-- When a turn begins, the watch is still. -/
theorem seen_windows {h : History} {s : System} (hs : s.Agrees Core.Mirrored)
    (hchip : s.bench.chip = replay (h.map Prod.snd) start) (hrest : (windows σ start).rest h)
    (hfresh : (windows σ start).fresh i h) :
    Watch.Seen i s.bench.trace ((Watch.on start).follow h) (Watch.Still i .zero) s := by
  refine ⟨[], (List.append_nil _).symm, hs.1, hs.2 .power, ?_, hrest, ?_⟩
  · rw [hchip]
    exact Watch.chip_follow (Watch.on start) h
  · intro hi
    have hboth : false = true := hfresh.symm.trans hi
    cases hboth

/-- Where no pause is owed, a turn may be interrupted. -/
theorem pauses_windows {h : History} {past : List Event} {t : System}
    (ht : Watch.Seen i past ((Watch.on start).follow h) (fun w _ => w.phase.isSettled = true) t) :
    (windows σ start).Pauses i past h t := by
  obtain ⟨events, hevents, hsettled⟩ := ht
  refine ⟨events, hevents, ?_⟩
  intro j d howing
  rw [Watch.follow_append] at howing
  rw [howing] at hsettled
  cases hsettled

/-- Where anything may happen next, a turn may end. -/
theorem concludes_windows {h : History} {past : List Event} {a : After σ} {t : System}
    (ht : Watch.Seen i past ((Watch.on start).follow h)
      (fun w _ => w.phase = .open ∧ ∀ sink, a = .serve sink → w.stopping i = false) t) :
    (windows σ start).Concludes i past h a t := by
  obtain ⟨events, hevents, hopen, hfree⟩ := ht
  rw [← Watch.follow_append] at hopen hfree
  exact ⟨events, hevents, hopen, trivial, hfree⟩

/-- Every operation keeps all windows. -/
theorem abides_windows_body (op : Operation) :
    (windows σ start).Abides i (After.reply <$> op.body) := by
  intro h s hs hchip hrest hfresh
  rw [← bind_pure_comp, Routine.upholds_bind]
  refine (Driver.upholds_watched_body op (seen_windows hs hchip hrest hfresh)).imp
    (fun _ => pauses_windows) ?_
  intro r t ht
  exact concludes_windows (ht.mono fun _ hopen => ⟨hopen, fun _ h => nomatch h⟩)

/-- A turn that is spent with a sample goes well whatever comes of the sample. -/
theorem abides_windows_takeSample [Sink σ] (time : Int64) (sink : σ)
    (after : Option Sample × σ → After σ) :
    (windows σ start).Abides i (Driver.takeSample time sink >>= fun r => pure (after r)) := by
  intro h s hs hchip hrest hfresh
  rw [Routine.upholds_bind]
  refine (Driver.upholds_watched_takeSample time sink
    (seen_windows hs hchip hrest hfresh)).mono ?_
  intro r t ht
  exact concludes_windows (ht.mono fun _ hw => ⟨hw.1, fun _ _ => hw.2⟩)

/-- So does every sample call. -/
theorem abides_windows_processBody [Sink σ] (time : Int64) (sink : σ) :
    (windows σ start).Abides i (Task.processBody time sink) :=
  abides_windows_takeSample time sink fun r => .reply (.sample r.1)

/-- So does every worker. -/
theorem abides_windows_serveBody [Sink σ] (time : Int64) (sink : σ) :
    (windows σ start).Abides i (Task.serveBody time sink) :=
  abides_windows_takeSample time sink fun r => .serve r.2

/-- At the beginning nothing is owed, and all calls are going to make their pauses. -/
theorem governs_windows [Sink σ] {s : System} (hs : s.IsReachable) (calls : List (Call σ)) :
    (windows σ s.bench.chip).Governs [] s (calls.map Task.ready) := by
  refine ⟨Guarded.ofCalls hs.agrees fun op _ => op.keeps_mirrored, rfl, fun _ => rfl, ?_, ⟨[], rfl⟩,
    ?_⟩
  · intro i d howing
    cases howing
  · intro i t hi
    rw [List.getElem?_map] at hi
    obtain ⟨call, _, rfl⟩ := Option.map_eq_some_iff.mp hi
    cases call with
    | operation op => exact ⟨rfl, abides_windows_body op⟩
    | process sink => exact ⟨rfl, fun time => abides_windows_processBody time sink⟩
    | serve sink => exact ⟨rfl, fun time => abides_windows_serveBody time sink⟩
    | _ => exact fun _ => trivial

/-- Where tasks abide by the windows, the windows of the chip have been kept so far. -/
theorem Governs.keepsWindows [Sink σ] {h : History} {s : System} {tasks : List (Task σ)}
    (hD : (windows σ start).Governs h s tasks) : h.KeepsWindows start := by
  refine Watch.keepsWindows ?_
  obtain ⟨later, hlater⟩ := hD.2.exists_rest
  have hopen : (((Watch.on start).follow h).follow later).phase = .open := by
    rw [← Watch.follow_append]
    exact hlater
  -- A turn that is under way is going to end, and it could not if a window were broken already.
  have hunbroken : ((Watch.on start).follow h).phase ≠ .broken :=
    Watch.unbroken_of_follow (by rw [hopen]; decide)
  have hseen := hD.2.seen
  change ∀ i d, ((Watch.on start).follow h).phase ≠ .owing i d at hseen
  cases hphase : ((Watch.on start).follow h).phase with
  | «open» => rfl
  | owing i d => exact absurd hphase (hseen i d)
  | waiting i d => rfl
  | broken => exact absurd hphase hunbroken

end Regime

namespace System.IsReachable

/-- After every schedule of whatever calls, the windows of the chip have been kept, and so they are
when the device is shut down. -/
theorem calls_keep_windows {σ : Type} [Sink σ] {s : System} (hs : s.IsReachable)
    (calls : List (Call σ)) (wakeUps : Nat) (schedule : List Nat) :
    let p := Pool.ofCalls calls s
    s.Logged (p.follow wakeUps schedule).system ((p.history wakeUps schedule).map Prod.snd) ∧
      (p.history wakeUps schedule).KeepsWindows s.bench.chip ∧
      ∃ events, s.Logged (Driver.shutdown.exec s).2 events ∧
        (History.of 0 events).KeepsWindows s.bench.chip := by
  intro p
  refine ⟨Pool.logged_follow p wakeUps schedule, ?_, ?_⟩
  · have hbegin : (Regime.windows σ s.bench.chip).Governs [] p.system p.tasks :=
      Regime.governs_windows hs calls
    exact (Pool.governs_follow (fun _ sink _ time => Regime.abides_windows_serveBody time sink)
      hbegin wakeUps schedule).keepsWindows
  · have hstill := Regime.seen_windows (σ := σ) (i := 0) (h := []) hs.agrees rfl rfl rfl
    have hdone := Driver.upholds_exec (Driver.watched_shutdown _ _ s hstill)
    have hseen : Watch.Seen 0 s.bench.trace (Watch.on s.bench.chip) (Watch.Still 0 .zero)
        (Driver.shutdown.exec s).2 := by
      split at hdone
      · exact hdone
      · exact hdone
    obtain ⟨events, hevents, hw⟩ := hseen
    refine ⟨events, ⟨hevents, ?_⟩, Watch.keepsWindows ?_⟩
    · rw [← hw.chip, Watch.chip_follow, History.map_snd_of]
      rfl
    · rw [hw.phase]
      rfl

/-- The gyroscope is started, then a suspend that was waiting for the lock stops it, and a sample
call comes last. What the three do is in order, and so is shutting down. -/
theorem calls_keep_windows_past_suspend :
    let bench : Bench := {
      chip := {
        memory := Memory.zero.writeAll [(Register.whoAmI, 0x42), (Register.intStatus, 0x18)] } }
    let s := ((Driver.powerUp .icm42605 {}).exec { bench, core := .fresh .icm42605 }).2.withInbox {}
    let calls : List (Call ScriptedSink) :=
      [.operation (.setPower ⟨.lowNoise, .off, false⟩ true), .operation .suspend, .process {}]
    let schedule := [0, 1, 2, 0, 1, 0, 1, 2, 1, 2]
    let done : History := [
      (0, .access (.write Register.pwrMgmt0 0x2c) true),
      (0, .delay (.micros Timing.accessPause)), (0, .woke),
      (0, .delay (.millis Timing.gyroStart)), (0, .woke),
      (1, .access (.write Register.pwrMgmt0 0x20) true),
      (1, .delay (.millis Timing.gyroStop)), (1, .woke),
      (1, .switch .vddio false true),
      (2, .access (.read Register.intStatus) true)]
    s.IsReachable ∧ ((Pool.ofCalls calls s).history 0 schedule).take 10 = done ∧
      ((Pool.ofCalls calls s).history 0 schedule).KeepsWindows s.bench.chip ∧
      ∃ events, (Driver.shutdown.exec s).2.bench.trace = s.bench.trace ++ events ∧
        (History.of 0 events).KeepsWindows s.bench.chip := by
  intro bench s calls schedule done
  have hs : s.IsReachable := .powerUp trivial (Except.eq_ok_of_toOption (by decide +kernel))
  obtain ⟨_, hwindows, events, hlogged, hshutdown⟩ := hs.calls_keep_windows calls 0 schedule
  exact ⟨hs, by decide +kernel, hwindows, events, hlogged.trace, hshutdown⟩

end System.IsReachable

end Inertial
