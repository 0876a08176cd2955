import Inertial.Proofs.Session.SerialTwin
import Inertial.Proofs.Shared.Interrupts

/-!
# Sessions that are interrupted

Two sessions that do the same, with whatever interrupts before accesses, between resumptions and
between errands, cannot be told apart but by the times of samples: all reports agree, and so do the
device and the chip at the end (`Session.interrupts_invisible`). What is done next may depend on
the reports so far, as long as it does not depend on the times of samples in them.

Errands and reports are compared up to these times (`Errand.Alike`, `Report.untimed`). What has to
agree for an errand to go the same way is `Session.Alike`; what is left of that between errands,
when counters and traces are of no account, is `Session.Matches`.
-/

set_option autoImplicit false

namespace Inertial

/-! ## Errands and plays -/

/-- Something that is done in a session. -/
inductive Errand : Type 1 where
  /-- Takes a step. -/
  | take (step : Step)
  /-- Makes calls on the device, which are resumed by position, with interrupts in between. -/
  | interleave {σ : Type} [Sink σ] (plan : Plan) (calls : List (Call σ)) (wakeUps : Nat)
      (moves : List Move)

/-- An errand and the interrupts before it. -/
structure Occasion : Type 1 where
  times : List Int64 := []
  errand : Errand

namespace Session

/-- Does an errand and reports on it. -/
def serve (s : Session) : Errand → Report × Session
  | .take step => s.step step
  | @Errand.interleave _ _ plan calls wakeUps moves =>
    report <| (s.under plan).withDevice fun system =>
      let pool := (Pool.ofCalls calls system).pursue wakeUps moves
      (.replies pool.replies pool.order, pool.system)

/-- The interrupt line fires at some times, oldest first. -/
def disturb (s : Session) (times : List Int64) : Session :=
  times.foldl (fun s now => (s.step { directive := .call (.interrupt now) }).2) s

/-- Does a number of errands, each chosen by what was reported so far, and gives their reports. -/
def play (s : Session) (choose : List Report → Occasion) : Nat → List Report × Session
  | 0 => ([], s)
  | n + 1 =>
    let (reports, s) := s.play choose n
    let occasion := choose reports
    let (report, s) := (s.disturb occasion.times).serve occasion.errand
    (reports ++ [report], s)

/-- Without a device nothing is used and nothing changes. -/
theorem withDevice_none {s : Session} (h : s.device = none)
    (use : System → Outcome × System) : s.withDevice use = (.noDevice, s) := by
  rw [withDevice, h]

/-- A device is used from where it stands on the bench, and stands there afterwards. -/
theorem withDevice_some {s : Session} {core : Core} (h : s.device = some core)
    (use : System → Outcome × System) :
    s.withDevice use =
      let used := use { bench := s.bench, core }
      (used.1, { s with bench := used.2.bench, device := some used.2.core }) := by
  rw [withDevice, h]

/-- The last of several deeds is done where the others have led. -/
theorem pass_concat (s : Session) (deeds : List Deed) (d : Deed) :
    s.pass (deeds ++ [d]) =
      ((s.pass deeds).1 ++ [((s.pass deeds).2.act d).1], ((s.pass deeds).2.act d).2) := by
  induction deeds generalizing s with
  | nil => rfl
  | cons first rest ih =>
    rw [List.cons_append, pass]
    dsimp only
    rw [ih]
    rfl

/-- The next errand is chosen by the reports so far and done after its interrupts. -/
theorem play_succ (s : Session) (choose : List Report → Occasion) (n : Nat) :
    s.play choose (n + 1) =
      let occasion := choose (s.play choose n).1
      let served := ((s.play choose n).2.disturb occasion.times).serve occasion.errand
      ((s.play choose n).1 ++ [served.1], served.2) :=
  rfl

/-- Every errand is reported on once. -/
theorem length_play (s : Session) (choose : List Report → Occasion) (n : Nat) :
    (s.play choose n).1.length = n := by
  induction n with
  | zero => rfl
  | succ n ih => rw [play_succ, List.length_append, ih, List.length_singleton]

/-- Steps that are fixed beforehand are played as they are taken. -/
theorem play_take (s : Session) {choose : List Report → Occasion} {steps : List Step}
    (hchoose : ∀ reports step, steps[reports.length]? = some step →
      choose reports = { errand := .take step }) :
    (s.play choose steps.length).1 = s.run steps := by
  have hplay : ∀ n, n ≤ steps.length →
      s.play choose n = s.pass ((steps.take n).map .take) := by
    intro n hn
    induction n with
    | zero => rfl
    | succ n ih =>
      have hstep : steps[n]? = some steps[n] := List.getElem?_eq_getElem hn
      have hoccasion : choose (s.play choose n).1 = { errand := .take steps[n] } := by
        apply hchoose
        rw [length_play]
        exact hstep
      rw [play_succ, hoccasion, List.take_succ_eq_append_getElem hn, List.map_append,
        List.map_singleton, pass_concat, ← ih (Nat.le_of_succ_le hn)]
      rfl
  rw [hplay _ (Nat.le_refl _), List.take_length, pass_take]

end Session

/-! ## What may differ -/

/-- The directive makes calls on the device. -/
def Directive.makesCalls : Directive → Bool
  | .call _ | .concurrent _ => true
  | _ => false

/-- The same directive, up to what its calls may differ in. -/
inductive Directive.Alike : Directive → Directive → Prop where
  | call {c d : Call ScriptedSink} (h : c.Alike d) : Alike (.call c) (.call d)
  | concurrent {calls calls' : List (Call ScriptedSink)} (h : OneByOne Call.Alike calls calls') :
      Alike (.concurrent calls) (.concurrent calls')
  | other {d : Directive} (h : d.makesCalls = false) : Alike d d

/-- The same errand, with the same failures. Calls may differ in the times of interrupts and in
what sinks do with samples, and other interrupts may come. -/
inductive Errand.Alike : Errand → Errand → Prop where
  | take {step step' : Step} (hdirective : step.directive.Alike step'.directive)
      (hfail : step.failAt = step'.failAt) : Alike (.take step) (.take step')
  | interleave {σ τ : Type} [Sink σ] [Sink τ] {plan plan' : Plan} {calls : List (Call σ)}
      {calls' : List (Call τ)} {wakeUps wakeUps' : Nat} {moves moves' : List Move}
      (haccess : plan.failsAccess = plan'.failsAccess)
      (hswitch : plan.failsSwitch = plan'.failsSwitch)
      (hcalls : OneByOne Call.Alike calls calls')
      (hmoves : moves.filterMap Move.resumed? = moves'.filterMap Move.resumed?) :
      Alike (.interleave plan calls wakeUps moves) (.interleave plan' calls' wakeUps' moves')

/-- How a directive went, without the times of samples. -/
def Outcome.untimed : Outcome → Outcome
  | .reply r => .reply (r.map Reply.untimed)
  | .replies rs order => .replies (rs.map (Option.map Reply.untimed)) order
  | outcome => outcome

/-- The report without the times of samples. -/
def Report.untimed (r : Report) : Report where
  outcome := r.outcome.untimed
  events := r.events.map Event.untimed
  standing := r.standing

/-- The sessions are the same but for the inbox, the edges still to come and the times of
samples. -/
structure Session.Alike (u v : Session) : Prop where
  bench : u.bench.Alike v.bench
  device : u.device = v.device
  hasBus : u.hasBus = v.hasBus
  faults : u.faults = v.faults

/-- The sessions are the same but for the inbox and for what belongs to one directive: the plan,
the counters and the trace. -/
structure Session.Matches (u v : Session) : Prop where
  chip : u.bench.chip = v.bench.chip
  bus : u.bench.bus = v.bench.bus
  supply : u.bench.supply = v.bench.supply
  pins : u.bench.pins = v.bench.pins
  device : u.device = v.device
  hasBus : u.hasBus = v.hasBus
  faults : u.faults = v.faults

namespace Session

/-! ## Directives -/

/-- Both uses go the same way and leave sessions alike. -/
def UseAlike (p q : Outcome × Session) : Prop :=
  p.1.untimed = q.1.untimed ∧ p.2.Alike q.2

namespace Alike

variable {u v : Session}

/-- Sessions stay alike if both get a bus. -/
theorem withBus (h : u.Alike v) : u.withBus.Alike v.withBus := by
  unfold Session.withBus
  rw [h.hasBus, h.bench.bus]
  split
  · exact h
  · exact { h with bench := Bench.isLikeness_alike.setBus h.bench _, hasBus := rfl }

/-- Alike sessions stand the same. -/
theorem standing (h : u.Alike v) : u.standing = v.standing := by
  unfold Session.standing
  rw [h.device, h.bench.bus, h.hasBus]

/-- Both have a device that is used in the same way, or neither has one. -/
theorem withDevice (h : u.Alike v) {use use' : System → Outcome × System}
    (huse : ∀ s t : System, s.Alike t →
      (use s).1.untimed = (use' t).1.untimed ∧ (use s).2.Like Bench.Alike (use' t).2) :
    UseAlike (u.withDevice use) (v.withDevice use') := by
  unfold Session.withDevice
  rw [h.device]
  cases v.device with
  | none => exact ⟨rfl, { h with }⟩
  | some core =>
    have hsystem : System.Alike { bench := u.bench, core } { bench := v.bench, core } :=
      ⟨⟨h.bench, rfl⟩, rfl⟩
    obtain ⟨houtcome, hafter⟩ := huse _ _ hsystem
    exact ⟨houtcome, { h with
      bench := hafter.bench
      device := congrArg some hafter.core }⟩

/-- Without a device, both buses are used in the same way. -/
theorem withBench (h : u.Alike v) {use : Bench → Outcome × Bench}
    (huse : ∀ b c : Bench, b.Alike c →
      (use b).1.untimed = (use c).1.untimed ∧ (use b).2.Alike (use c).2) :
    UseAlike (u.withBench use) (v.withBench use) := by
  unfold Session.withBench
  rw [h.device]
  cases v.device with
  | some core => exact ⟨rfl, { h with }⟩
  | none =>
    have hbus := h.withBus
    obtain ⟨houtcome, hafter⟩ := huse _ _ hbus.bench
    exact ⟨houtcome, { hbus with bench := hafter }⟩

/-- Powering up goes the same way. -/
theorem powerUp (h : u.Alike v) (number : Nat) (interrupt : PinSetup) :
    UseAlike (u.powerUp number interrupt) (v.powerUp number interrupt) := by
  unfold Session.powerUp
  cases Chip.ofNumber? number with
  | none => exact ⟨rfl, h⟩
  | some chip =>
    have hbus := h.withBus
    have hsystem : System.Like Bench.Alike { bench := u.withBus.bench, core := .fresh chip }
        { bench := v.withBus.bench, core := .fresh chip } := ⟨hbus.bench, rfl⟩
    obtain ⟨hresult, hafter⟩ :=
      (Driver.powerUp chip interrupt).run.run_like Bench.isLikeness_alike hsystem
    dsimp only [Driver.exec]
    rcases hx : (Driver.powerUp chip interrupt).run.run
        { bench := u.withBus.bench, core := .fresh chip } with ⟨r, s⟩
    rcases hy : (Driver.powerUp chip interrupt).run.run
        { bench := v.withBus.bench, core := .fresh chip } with ⟨r', t⟩
    rw [hx, hy] at hresult hafter
    dsimp only at hresult
    subst hresult
    cases r with
    | ok a =>
      exact ⟨rfl, { hbus with
        bench := { hafter.bench with }
        device := congrArg some hafter.core }⟩
    | error e => exact ⟨rfl, { hbus with bench := hafter.bench, hasBus := rfl }⟩

/-- A directive goes the same way. -/
theorem obey (h : u.Alike v) {d d' : Directive} (hd : d.Alike d') (wakeUps wakeUps' : Nat) :
    UseAlike (u.obey wakeUps d) (v.obey wakeUps' d') := by
  cases hd with
  | call hcall =>
    refine h.withDevice fun s t hst => ?_
    obtain ⟨hreply, hafter⟩ := hcall.perform hst.like wakeUps wakeUps'
    exact ⟨congrArg Outcome.reply hreply, hafter⟩
  | concurrent hcalls =>
    refine h.withDevice fun s t hst => ?_
    have hpool := Pool.settle_alike hst hcalls wakeUps wakeUps'
    refine ⟨?_, hpool.system.like⟩
    dsimp only [Outcome.untimed]
    rw [hpool.replies, hpool.order]
  -- The directive is the same in both sessions; only where they stand may differ.
  | other hd =>
    cases d with
    | setRegisters contents =>
      have hchip : { u.bench.chip with memory := u.bench.chip.memory.writeAll contents } =
          { v.bench.chip with memory := v.bench.chip.memory.writeAll contents } := by
        rw [h.bench.chip]
      exact ⟨rfl, { h with bench := { h.bench with chip := hchip } }⟩
    | addFaults f => exact ⟨rfl, { h with faults := congrArg (Faults.merge · f) h.faults }⟩
    | clearFaults => exact ⟨rfl, { h with faults := rfl }⟩
    | powerUp number interrupt =>
      rw [Session.obey, Session.obey, h.device]
      split
      · exact ⟨rfl, h⟩
      · exact h.powerUp number interrupt
    | shutdown =>
      let use : System → Outcome × System := fun system => (.ok, (Driver.shutdown.exec system).2)
      have hdown : UseAlike (u.withDevice use) (v.withDevice use) :=
        h.withDevice fun s t hst =>
          ⟨rfl, (Driver.shutdown.run.run_like Bench.isLikeness_alike hst.like).2⟩
      exact ⟨hdown.1, { hdown.2 with device := rfl }⟩
    | call c => cases hd
    | concurrent calls => cases hd
    | register op =>
      refine h.withBench fun b c hbc => ?_
      obtain ⟨hanswer, hafter⟩ := op.respects_perform Bench.isLikeness_alike b c hbc
      rcases hx : op.perform.exec b with ⟨r, b'⟩
      rcases hy : op.perform.exec c with ⟨r', c'⟩
      rw [hx, hy] at hanswer hafter
      dsimp only at hanswer
      subst hanswer
      cases r <;> exact ⟨rfl, hafter⟩
    | switch r on =>
      refine h.withBench fun b c hbc => ?_
      obtain ⟨hok, hafter⟩ := Bench.isLikeness_alike.switch hbc r on
      dsimp only
      rw [hok]
      exact ⟨rfl, hafter⟩
    | renewBus =>
      refine h.withBench fun b c hbc => ⟨rfl, ?_⟩
      rw [hbc.bus]
      exact Bench.isLikeness_alike.setBus hbc _

/-- What goes the same way is reported in the same way, but for the times of samples. -/
theorem report {p q : Outcome × Session} (h : UseAlike p q) :
    (Session.report p).1.untimed = (Session.report q).1.untimed ∧
      (Session.report p).2.Alike (Session.report q).2 := by
  obtain ⟨houtcome, hafter⟩ := h
  refine ⟨?_, hafter⟩
  have hvisible : Event.isVisible q.2.bench.supply ∘ Event.untimed =
      Event.isVisible q.2.bench.supply := by
    funext e
    cases e <;> rfl
  have hevents : (p.2.bench.trace.filter (Event.isVisible p.2.bench.supply)).map Event.untimed =
      (q.2.bench.trace.filter (Event.isVisible q.2.bench.supply)).map Event.untimed := by
    rw [hafter.bench.supply, ← hvisible, ← List.filter_map, ← List.filter_map, hafter.bench.trace]
  unfold Report.untimed Session.report
  dsimp only
  rw [houtcome, hevents, hafter.standing]

end Alike

/-! ## Errands -/

namespace Matches

variable {u v : Session}

/-- Sessions that are alike match. -/
theorem of_alike (h : u.Alike v) : u.Matches v :=
  ⟨h.bench.chip, h.bench.bus, h.bench.supply, h.bench.pins, h.device, h.hasBus, h.faults⟩

/-- With the same failures from now on, the sessions are alike. -/
theorem under (h : u.Matches v) {plan plan' : Plan}
    (haccess : plan.failsAccess = plan'.failsAccess)
    (hswitch : plan.failsSwitch = plan'.failsSwitch) :
    (u.under plan).Alike (v.under plan') where
  bench := ⟨h.chip, h.bus, h.supply, h.pins, haccess, hswitch, rfl, rfl, rfl⟩
  device := h.device
  hasBus := h.hasBus
  faults := h.faults

/-- An errand goes the same way and is reported in the same way. -/
theorem serve (h : u.Matches v) {e e' : Errand} (he : e.Alike e') :
    (u.serve e).1.untimed = (v.serve e').1.untimed ∧ (u.serve e).2.Matches (v.serve e').2 := by
  cases he with
  | @take step step' hdirective hfail =>
    have haccess : (step.plan u.faults).failsAccess = (step'.plan v.faults).failsAccess := by
      unfold Step.plan
      rw [hfail, h.faults]
    have hswitch : (step.plan u.faults).failsSwitch = (step'.plan v.faults).failsSwitch := by
      unfold Step.plan
      rw [h.faults]
    obtain ⟨hreport, hafter⟩ := Alike.report
      ((h.under haccess hswitch).obey hdirective step.wakeUps step'.wakeUps)
    exact ⟨hreport, .of_alike hafter⟩
  | @interleave _ _ _ _ plan plan' calls calls' wakeUps wakeUps' moves moves' haccess hswitch hcalls
      hmoves =>
    let use : System → Outcome × System := fun system =>
      let pool := (Pool.ofCalls calls system).pursue wakeUps moves
      (.replies pool.replies pool.order, pool.system)
    let use' : System → Outcome × System := fun system =>
      let pool := (Pool.ofCalls calls' system).pursue wakeUps' moves'
      (.replies pool.replies pool.order, pool.system)
    have huse : UseAlike ((u.under plan).withDevice use) ((v.under plan').withDevice use') := by
      refine (h.under haccess hswitch).withDevice fun s t hst => ?_
      have hpool := (Pool.Alike.ofCalls hst hcalls).pursue wakeUps wakeUps' hmoves
      refine ⟨?_, hpool.system.like⟩
      dsimp only [use, use', Outcome.untimed]
      rw [hpool.replies, hpool.order]
    obtain ⟨hreport, hafter⟩ := Alike.report huse
    exact ⟨hreport, .of_alike hafter⟩

/-- Whether sessions match does not depend on their order. -/
theorem symm (h : u.Matches v) : v.Matches u :=
  ⟨h.chip.symm, h.bus.symm, h.supply.symm, h.pins.symm, h.device.symm, h.hasBus.symm, h.faults.symm⟩

/-- An interrupt only changes the inbox. -/
theorem interrupt (h : u.Matches v) (now : Int64) :
    (u.step { directive := .call (.interrupt now) }).2.Matches v := by
  rw [step_eq_report]
  change (withDevice _ _).2.Matches v
  cases hdevice : u.device with
  | none =>
    rw [withDevice_none (s := u.under _) hdevice]
    exact { h with }
  | some core =>
    rw [withDevice_some (s := u.under _) hdevice]
    exact { h with device := hdevice.symm.trans h.device }

/-- Interrupts leave a session matching. -/
theorem disturb (h : u.Matches v) (times : List Int64) : (u.disturb times).Matches v := by
  induction times generalizing u with
  | nil => exact h
  | cons now times ih => exact ih (h.interrupt now)

/-- Errands chosen alike are reported alike, and what is chosen next goes on to be alike. -/
theorem play (h : u.Matches v) {choose choose' : List Report → Occasion}
    (hchoose : ∀ reports reports' : List Report,
      reports.map Report.untimed = reports'.map Report.untimed →
        (choose reports).errand.Alike (choose' reports').errand) (n : Nat) :
    (u.play choose n).1.map Report.untimed = (v.play choose' n).1.map Report.untimed ∧
      (u.play choose n).2.Matches (v.play choose' n).2 := by
  induction n with
  | zero => exact ⟨rfl, h⟩
  | succ n ih =>
    obtain ⟨hreports, hnow⟩ := ih
    have hdisturbed := ((hnow.disturb (choose (u.play choose n).1).times).symm.disturb
      (choose' (v.play choose' n).1).times).symm
    obtain ⟨hreport, hafter⟩ := hdisturbed.serve (hchoose _ _ hreports)
    rw [play_succ, play_succ]
    refine ⟨?_, hafter⟩
    dsimp only
    rw [List.map_append, List.map_append, hreports, List.map_singleton, List.map_singleton,
      hreport]

end Matches

/-- Interrupts do not interfere. A session does errands, chosen by what was reported before but for
the times of samples, and it does the same ones again with other interrupts before them, before
accesses and between resumptions. Both times the reports are the same but for the times of samples,
and the device, the chip and the bus are the same afterwards. -/
theorem interrupts_invisible (s : Session) {choose choose' : List Report → Occasion}
    (hchoose : ∀ reports reports' : List Report,
      reports.map Report.untimed = reports'.map Report.untimed →
        (choose reports).errand.Alike (choose' reports').errand) (n : Nat) :
    let first := s.play choose n
    let second := s.play choose' n
    first.1.map Report.untimed = second.1.map Report.untimed ∧
      first.2.device = second.2.device ∧
      first.2.bench.chip = second.2.bench.chip ∧
      first.2.bench.bus = second.2.bench.bus := by
  intro first second
  have hsame : s.Matches s := ⟨rfl, rfl, rfl, rfl, rfl, rfl, rfl⟩
  obtain ⟨hreports, hend⟩ := hsame.play hchoose n
  exact ⟨hreports, hend.device, hend.chip, hend.bus⟩

/-- A sample taken while the sensors start, one that cannot be read after a suspend, and a resume:
once with an edge before each errand, and once with edges before accesses and between resumptions.
The time of the first sample tells them apart. -/
theorem interrupts_invisible_while_suspending :
    let starting : List (Call ScriptedSink) :=
      [.operation (.setPower ⟨.lowNoise, .off, false⟩ true), .process ⟨true, []⟩]
    let suspending : List (Call ScriptedSink) := [.operation .suspend, .process ⟨true, []⟩]
    let plan : Plan := { failsAccess := fun k _ => k == 1 }
    let errand (edges : List (Nat × Int64)) (moves : List Move) : Nat → Errand := fun
      | 0 => .take { directive := .powerUp 1 {}, edgesAt := edges }
      | 1 => .take { directive := .concurrent starting, edgesAt := edges }
      | 2 => .interleave plan suspending 0 moves
      | _ => .take { directive := .call (.operation .resume) }
    let moves : List Move := [.resume 0, .resume 1, .resume 0, .resume 1]
    let moves' : List Move :=
      [.interrupt 11, .resume 0, .resume 1, .interrupt 13, .resume 0, .resume 1]
    let choose (reports : List Report) : Occasion :=
      { times := [5], errand := errand [] moves reports.length }
    let choose' (reports : List Report) : Occasion :=
      { errand := errand [(0, 7), (1, 9)] moves' reports.length }
    let s := start .flat .switched [(Register.whoAmI, 0x40), (Register.intStatus, 0x18)]
    let sample (time : Int64) : Sample :=
      { channels := .replicate 6 0, padding := .replicate 4 0, timestamp := time }
    (∀ reports reports' : List Report,
      reports.map Report.untimed = reports'.map Report.untimed →
        (choose reports).errand.Alike (choose' reports').errand) ∧
      (s.play choose 4).1.map Report.untimed = (s.play choose' 4).1.map Report.untimed ∧
      (s.play choose 4).2.device = (s.play choose' 4).2.device ∧
      .push (sample 5) ∈ ((s.play choose 4).1.map Report.events).flatten ∧
      .push (sample 7) ∈ ((s.play choose' 4).1.map Report.events).flatten := by
  intro starting suspending plan errand moves moves' choose choose' s sample
  have herrand : ∀ n, (errand [] moves n).Alike (errand [(0, 7), (1, 9)] moves' n) := by
    intro n
    match n with
    | 0 => exact .take (.other rfl) rfl
    | 1 => exact .take (.concurrent (.cons (.operation _) (.cons (.process rfl) .nil))) rfl
    | 2 => exact .interleave rfl rfl (.cons (.operation _) (.cons (.process rfl) .nil)) rfl
    | n + 3 => exact .take (.call (.operation _)) rfl
  have hchoose : ∀ reports reports' : List Report,
      reports.map Report.untimed = reports'.map Report.untimed →
        (choose reports).errand.Alike (choose' reports').errand := by
    intro reports reports' h
    have hlength := congrArg List.length h
    rw [List.length_map, List.length_map] at hlength
    dsimp only [choose, choose']
    rw [hlength]
    exact herrand _
  have hfirst : .push (sample 5) ∈ ((s.play choose 4).1.map Report.events).flatten := by
    decide +kernel
  have hsecond : .push (sample 7) ∈ ((s.play choose' 4).1.map Report.events).flatten := by
    decide +kernel
  obtain ⟨hreports, hdevice, _⟩ := interrupts_invisible s hchoose 4
  exact ⟨hchoose, hreports, hdevice, hfirst, hsecond⟩

end Session

end Inertial
