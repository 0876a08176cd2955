import Inertial.Proofs.Shared.Proceedings

/-!
# Accesses and the supply of the interface

What is written while the interface has no supply is lost. The calls that configure the device, tell
the FIFO or take a sample are for their callers to hold back; the power lifecycle has to look after
itself, for any of its calls may come while the interface is off.

It does (`System.IsReachableThrough.accesses_supplied`), but for one case. After a suspend the
record still says that the device is active, and if the FIFO streams, the next suspend tells it once
more to stop (`Core.IsMuted`).
-/

set_option autoImplicit false

namespace Inertial

/-- If the interface was on or off at first, every access was made while it was on record as on. -/
def IsSupplied (on : Bool) (events : List Event) : Prop :=
  ∀ before x ok after, events = before ++ .access x ok :: after →
    (lastSwitch .vddio before).getD on = true

/-- Where nothing is accessed, no supply is needed. -/
theorem isSupplied_of_no_access {events : List Event} (on : Bool)
    (h : ∀ x ok, Event.access x ok ∉ events) : IsSupplied on events := by
  rintro before x ok after rfl
  exact absurd (List.mem_append_right _ List.mem_cons_self) (h x ok)

/-- Where nothing is accessed nothing lacks supply. -/
theorem isSupplied_nil (on : Bool) : IsSupplied on [] :=
  isSupplied_of_no_access on fun _ _ => List.not_mem_nil

/-- An access that comes first lacks supply if the interface is off. -/
theorem not_isSupplied_off (x : Access) (ok : Bool) (after : List Event) :
    ¬ IsSupplied false (.access x ok :: after) := by
  intro h
  cases h [] x ok after rfl

/-- A supply that is not switched stays. -/
theorem IsQuiet.isSupplied {events : List Event} (h : IsQuiet events) :
    IsSupplied true events := by
  rintro before x ok after rfl
  have hbefore : IsQuiet before := fun e he => h e (List.mem_append_left _ he)
  rw [hbefore.lastSwitch_eq_none]
  rfl

/-- What comes later has the supply that was left. -/
theorem IsSupplied.append {on : Bool} {events later : List Event} (h : IsSupplied on events)
    (h' : IsSupplied ((lastSwitch .vddio events).getD on) later) :
    IsSupplied on (events ++ later) := by
  intro before x ok after heq
  rcases List.append_eq_append_iff.mp heq with ⟨mid, hbefore, hlater⟩ | ⟨mid, hevents, hafter⟩
  · have hon := h' mid x ok after hlater
    rw [hbefore, lastSwitch_append]
    cases hmid : lastSwitch .vddio mid with
    | none =>
      rw [hmid] at hon
      exact hon
    | some b =>
      rw [hmid] at hon
      exact hon
  · cases mid with
    | nil =>
      have hon := h' [] x ok after hafter.symm
      rw [hevents, List.append_nil] at hon
      exact hon
    | cons e mid =>
      cases hafter
      exact h before x ok mid hevents

/-- Nothing is accessed by a switch. -/
theorem IsSupplied.concat_switch {on : Bool} {events : List Event} (h : IsSupplied on events)
    (r : Rail) (off ok : Bool) : IsSupplied on (events ++ [.switch r off ok]) :=
  h.append (isSupplied_of_no_access _ (by simp))

/-- Once the interface was switched on, nothing that switches no rail lacks supply. -/
theorem IsQuiet.isSupplied_on {quiet : List Event} (h : IsQuiet quiet) (on : Bool) :
    IsSupplied on (.switch .vddio true true :: quiet) := by
  have hswitch : IsSupplied on [.switch .vddio true true] :=
    isSupplied_of_no_access on (by simp)
  exact hswitch.append h.isSupplied

/-- Releasing rails accesses nothing. -/
theorem isSupplied_releasing (on : Bool) (rails : Rails) (r : Rail) (ok : Bool) :
    IsSupplied on (releasing rails r ok) := by
  unfold releasing
  split
  · exact isSupplied_of_no_access on (by simp)
  · exact isSupplied_nil on

/-- The interface is off on record, and yet the device is active and the FIFO streams. -/
def Core.IsMuted (c : Core) : Prop :=
  c.rails.vddio = false ∧ c.power.suspended = false ∧ c.streaming = true

/-- The operation is for an interface that is on. -/
def Operation.needsInterface : Operation → Bool
  | .setStreaming _ => true
  | op => op.tunes

/-- Whatever tunes the device is for an interface that is on. -/
theorem Operation.needsInterface_of_tunes (op : Operation) (hop : op.tunes = true) :
    op.needsInterface = true := by
  cases op <;> first | rfl | exact hop

namespace Turn

/-- The turn was one to take only while the interface is on: it was that of a sample, or the FIFO or
the configuration was to change. -/
def needsInterface (t : Turn) : Bool :=
  match t.answered with
  | some (op, _) => op.needsInterface
  | none => true

/-- The turn was that of a suspend that found the interface off with the FIFO streaming. -/
def SuspendsMuted (t : Turn) : Prop :=
  (∃ r, t.answered = some (.suspend, r)) ∧ t.found.IsMuted

/-- What ran and what was accessed in the turn go with the supply of the interface. -/
structure HeedsSupply (t : Turn) : Prop where
  /-- The interface is on record as the switches that were logged have left it. -/
  tracked : t.left.rails.vddio = (lastSwitch .vddio t.events).getD t.found.rails.vddio
  /-- Nothing is on record as running while the interface is off. -/
  idle : t.found.rails.vddio = false → t.found.config.power = .off
  supplied : IsSupplied t.found.rails.vddio t.events ↔ ¬ t.SuspendsMuted
  /-- The exception: the FIFO is told to stop, and if that succeeds, the interface is switched off
  again. -/
  muted : t.SuspendsMuted → ∃ (bus : Bus) (ok off : Bool),
    t.events = Driver.bypassing bus ok :: if ok then [.switch .vddio false off] else []

end Turn

namespace Driver

variable {c d : Core} {r : Except DriverError Unit} {events : List Event}

/-- Turning off goes on with a supply to its end. -/
theorem TurnsOff.isSupplied (h : TurnsOff c r d events) : IsSupplied true events := by
  cases h with
  | fails hquiet _ => exact hquiet.isSupplied
  | refused hquiet _ => exact hquiet.isSupplied.concat_switch _ _ _
  | off hquiet _ => exact hquiet.isSupplied.concat_switch _ _ _

/-- The interface was switched off just if turning off succeeded. -/
theorem TurnsOff.lastSwitch_eq (h : TurnsOff c r d events) :
    lastSwitch .vddio events = if r.isOk then some false else none := by
  cases h with
  | fails hquiet _ => exact hquiet.lastSwitch_eq_none _
  | refused hquiet _ =>
    rw [lastSwitch_append, hquiet.lastSwitch_eq_none]
    rfl
  | off hquiet _ =>
    rw [lastSwitch_append, hquiet.lastSwitch_eq_none]
    rfl

/-- The record of the interface follows the switches. -/
theorem TurnsOff.tracked (h : TurnsOff c r d events) :
    d.rails.vddio = (lastSwitch .vddio events).getD c.rails.vddio := by
  rw [h.lastSwitch_eq]
  cases h <;> rfl

/-- If nothing runs, turning off is no more than to switch the interface off. -/
theorem TurnsOff.events_of_idle (h : TurnsOff c r d events) (hidle : c.config.power = .off) :
    ∃ ok, events = [.switch .vddio false ok] := by
  cases h with
  | fails _ hruns => exact absurd hidle hruns
  | refused _ hnone =>
    rw [hnone hidle]
    exact ⟨false, rfl⟩
  | off _ hnone =>
    rw [hnone hidle]
    exact ⟨true, rfl⟩

/-- So nothing is accessed without supply if nothing runs without it. -/
theorem TurnsOff.isSupplied_of_idle (h : TurnsOff c r d events)
    (hidle : c.rails.vddio = false → c.config.power = .off) :
    IsSupplied c.rails.vddio events := by
  cases hon : c.rails.vddio with
  | true => exact h.isSupplied
  | false =>
    obtain ⟨ok, rfl⟩ := h.events_of_idle (hidle hon)
    exact isSupplied_of_no_access false (by simp)

/-- If nothing runs where the interface is off, it is so after it was turned off. -/
theorem TurnsOff.idle (h : TurnsOff c r d events)
    (hidle : c.rails.vddio = false → c.config.power = .off) :
    d.rails.vddio = false → d.config.power = .off := by
  cases h with
  | fails _ _ => exact hidle
  | refused _ _ => exact fun _ => DeviceConfig.power_withPower _ _
  | off _ _ => exact fun _ => DeviceConfig.power_withPower _ _

/-- If nothing runs where the interface is off, it is so after a suspend, however that ended. -/
theorem Suspends.idle (h : Suspends c r d events)
    (hidle : c.rails.vddio = false → c.config.power = .off) :
    d.rails.vddio = false → d.config.power = .off := by
  cases h with
  | asleep _ => exact hidle
  | bypassFails _ _ _ => exact hidle
  | turnsOff _ _ hoff => exact hoff.idle hidle

/-- Telling the FIFO to stop switches no rail. -/
theorem isQuiet_bypassing (bus : Bus) (ok : Bool) : IsQuiet [bypassing bus ok] := by
  simp [IsQuiet, bypassing, Event.isSwitch]

/-- Whether the FIFO is told to stop has no part in what was switched. -/
theorem Suspends.tracked (h : Suspends c r d events) :
    d.rails.vddio = (lastSwitch .vddio events).getD c.rails.vddio := by
  cases h with
  | asleep _ => rfl
  | bypassFails bus _ _ =>
    rw [(isQuiet_bypassing bus false).lastSwitch_eq_none]
    rfl
  | turnsOff bus _ hoff =>
    have hbypass : lastSwitch .vddio (if c.streaming then [bypassing bus true] else []) = none := by
      split
      · exact (isQuiet_bypassing bus true).lastSwitch_eq_none _
      · rfl
    rw [lastSwitch_append, hbypass, Option.or_none]
    exact hoff.tracked

/-- A suspend goes on with a supply to its end. -/
theorem Suspends.isSupplied_true (h : Suspends c r d events) : IsSupplied true events := by
  cases h with
  | asleep _ => exact isSupplied_nil true
  | bypassFails bus _ _ => exact (isQuiet_bypassing bus false).isSupplied
  | turnsOff bus _ hoff =>
    split
    · exact (isQuiet_bypassing bus true).isSupplied.append hoff.isSupplied
    · exact hoff.isSupplied

/-- Without a supply, a suspend accesses nothing unless the FIFO is to stop. -/
theorem Suspends.isSupplied_false (h : Suspends c r d events) (hidle : c.config.power = .off)
    (hmuted : c.power.suspended = false → c.streaming = false) : IsSupplied false events := by
  cases h with
  | asleep _ => exact isSupplied_nil false
  | bypassFails _ hawake hstream =>
    rw [hmuted hawake] at hstream
    cases hstream
  | turnsOff _ hawake hoff =>
    obtain ⟨ok, rfl⟩ := hoff.events_of_idle hidle
    rw [hmuted hawake]
    exact isSupplied_of_no_access false (by simp)

/-- And if it is, then the FIFO is told so first. -/
theorem Suspends.events_of_muted (h : Suspends c r d events) (hidle : c.config.power = .off)
    (hmuted : c.IsMuted) : ∃ (bus : Bus) (ok off : Bool),
      events = bypassing bus ok :: if ok then [.switch .vddio false off] else [] := by
  obtain ⟨_, hactive, hstream⟩ := hmuted
  cases h with
  | asleep hasleep =>
    rw [hactive] at hasleep
    cases hasleep
  | bypassFails bus _ _ => exact ⟨bus, false, false, rfl⟩
  | turnsOff bus _ hoff =>
    obtain ⟨off, rfl⟩ := hoff.events_of_idle hidle
    rw [if_pos hstream]
    exact ⟨bus, true, off, rfl⟩

end Driver

namespace Turn

/-- Only a suspend is the exception. -/
theorem not_suspendsMuted_of_ne {op : Operation} {r : Reply} {c d : Core} {events : List Event}
    (hop : op ≠ .suspend) : ¬ SuspendsMuted ⟨some (op, r), c, events, d⟩ := by
  rintro ⟨⟨_, h⟩, _⟩
  cases h
  exact hop rfl

/-- A turn that is no suspend and has its supply. -/
theorem heedsSupply_of_ne {op : Operation} {r : Reply} {c d : Core} {events : List Event}
    (hop : op ≠ .suspend) (hidle : c.rails.vddio = false → c.config.power = .off)
    (htracked : d.rails.vddio = (lastSwitch .vddio events).getD c.rails.vddio)
    (h : IsSupplied c.rails.vddio events) : HeedsSupply ⟨some (op, r), c, events, d⟩ where
  tracked := htracked
  idle := hidle
  supplied := iff_of_true h (not_suspendsMuted_of_ne hop)
  muted := fun hmuted => absurd hmuted (not_suspendsMuted_of_ne hop)

/-- A turn that is no suspend and switched nothing. -/
theorem heedsSupply_of_quiet {op : Operation} {r : Reply} {c d : Core} {events : List Event}
    (hop : op ≠ .suspend) (hidle : c.rails.vddio = false → c.config.power = .off)
    (hrails : d.rails = c.rails) (hquiet : IsQuiet events) (hon : c.rails.vddio = true) :
    HeedsSupply ⟨some (op, r), c, events, d⟩ := by
  refine heedsSupply_of_ne hop hidle ?_ (hon ▸ hquiet.isSupplied)
  rw [hrails, hquiet.lastSwitch_eq_none]
  rfl

/-- A turn that is no suspend and began with the interface coming on. -/
theorem heedsSupply_of_on {op : Operation} {r : Reply} {c d : Core} {quiet : List Event}
    (hop : op ≠ .suspend) (hidle : c.rails.vddio = false → c.config.power = .off)
    (hquiet : IsQuiet quiet) (hleft : d.rails.vddio = true) :
    HeedsSupply ⟨some (op, r), c, .switch .vddio true true :: quiet, d⟩ := by
  refine heedsSupply_of_ne hop hidle ?_ (hquiet.isSupplied_on _)
  rw [hleft, ← List.singleton_append, lastSwitch_append, hquiet.lastSwitch_eq_none]
  rfl

/-- A suspend has its supply unless the FIFO is to stop without. -/
theorem heedsSupply_suspend {r : Except DriverError Unit} {c d : Core} {events : List Event}
    (h : Driver.Suspends c r d events) (hidle : c.rails.vddio = false → c.config.power = .off) :
    HeedsSupply ⟨some (.suspend, Operation.asReply (fun _ => .ok) r), c, events, d⟩ where
  tracked := h.tracked
  idle := hidle
  supplied := by
    dsimp only
    cases hon : c.rails.vddio with
    | true =>
      refine iff_of_true h.isSupplied_true ?_
      rintro ⟨_, hoff, _⟩
      rw [hon] at hoff
      cases hoff
    | false =>
      constructor
      · rintro hsupplied ⟨_, hmuted⟩
        obtain ⟨bus, ok, off, rfl⟩ := h.events_of_muted (hidle hon) hmuted
        exact not_isSupplied_off _ _ _ hsupplied
      · intro hmuted
        refine h.isSupplied_false (hidle hon) fun hawake => ?_
        cases hstream : c.streaming with
        | false => rfl
        | true => exact absurd ⟨⟨_, rfl⟩, hon, hawake, hstream⟩ hmuted
  muted := fun hmuted => h.events_of_muted (hidle hmuted.2.1) hmuted.2

/-- Every turn goes with the supply of the interface if one that needs it found it on. -/
theorem Proceeds.heedsSupply {t : Turn} (h : t.Proceeds)
    (hneeds : t.needsInterface = true → t.found.rails.vddio = true)
    (hidle : t.found.rails.vddio = false → t.found.config.power = .off) : t.HeedsSupply := by
  cases h with
  | @sample c events hquiet =>
    have hnot : ¬ SuspendsMuted ⟨none, c, events, c⟩ := by
      rintro ⟨⟨_, h⟩, _⟩
      cases h
    have hon : c.rails.vddio = true := hneeds rfl
    exact {
      tracked := by
        rw [hquiet.lastSwitch_eq_none]
        rfl
      idle := hidle
      supplied := iff_of_true (hon ▸ hquiet.isSupplied) hnot
      muted := fun hmuted => absurd hmuted hnot }
  | look hop =>
    refine heedsSupply_of_ne ?_ hidle rfl (isSupplied_nil _)
    rintro rfl
    cases hop
  | @tune op _ _ _ _ hop hquiet =>
    refine heedsSupply_of_quiet ?_ hidle rfl hquiet (hneeds (op.needsInterface_of_tunes hop))
    rintro rfl
    cases hop
  | stream hquiet => exact heedsSupply_of_quiet (by simp) hidle rfl hquiet (hneeds rfl)
  | streamFails hquiet => exact heedsSupply_of_quiet (by simp) hidle rfl hquiet (hneeds rfl)
  -- Only a suspend may access without supply, and the record says when.
  | suspend h => exact heedsSupply_suspend h hidle
  | runtimeSuspendFails h =>
    exact heedsSupply_of_ne (by simp) hidle h.tracked (h.isSupplied_of_idle hidle)
  | runtimeSuspend h =>
    exact heedsSupply_of_ne (by simp) hidle h.tracked (h.isSupplied_of_idle hidle)
  | refused hop =>
    refine heedsSupply_of_ne ?_ hidle rfl (isSupplied_of_no_access _ (by simp))
    rintro rfl
    cases hop
  | resume hquiet => exact heedsSupply_of_on (by simp) hidle hquiet rfl
  | runtimeResume hquiet => exact heedsSupply_of_on (by simp) hidle hquiet rfl

/-- And nothing is left on record as running while the interface is off. -/
theorem Proceeds.idle_left {t : Turn} (h : t.Proceeds)
    (hneeds : t.needsInterface = true → t.found.rails.vddio = true)
    (hidle : t.found.rails.vddio = false → t.found.config.power = .off) :
    t.left.rails.vddio = false → t.left.config.power = .off := by
  cases h with
  | sample _ => exact hidle
  | look _ => exact hidle
  | @tune op _ _ _ _ hop _ =>
    intro hoff
    exact nomatch (hneeds (op.needsInterface_of_tunes hop)).symm.trans hoff
  | stream _ => exact hidle
  | streamFails _ => exact hidle
  | suspend h => exact h.idle hidle
  | runtimeSuspendFails h => exact h.idle hidle
  | runtimeSuspend h => exact h.idle hidle
  | refused _ => exact hidle
  | resume _ => exact fun hoff => nomatch hoff
  | runtimeResume _ => exact fun hoff => nomatch hoff

end Turn

/-- Where nothing runs while the interface is off, a shutdown accesses nothing without supply. -/
theorem Driver.isSupplied_shutdown {s : System} (hs : s.bench.AtFirstBank)
    (hidle : s.core.rails.vddio = false → s.core.config.power = .off) :
    ∃ events t, shutdown.exec s = (.ok (), t) ∧ t.bench.trace = s.bench.trace ++ events ∧
      IsSupplied s.core.rails.vddio events := by
  obtain ⟨ok, waits, interface, core, t, hwaits, hexec, htrace⟩ := exec_shutdown hs
  refine ⟨_, t, hexec, htrace, IsSupplied.append ?_ ?_⟩
  · split
    · rename_i hruns
      have hon : s.core.rails.vddio = true := by
        cases hoff : s.core.rails.vddio with
        | true => rfl
        | false => exact absurd (hidle hoff) hruns.2
      have hquiet : IsQuiet waits := by
        intro e he
        have hwait := hwaits e he
        cases e with
        | switch r on ok => cases hwait
        | _ => rfl
      have hfirst : ∀ x, IsQuiet [.access x ok] := by
        simp [IsQuiet, Event.isSwitch]
      rw [hon]
      exact ((hfirst _).append hquiet).isSupplied
    · exact isSupplied_nil _
  · exact (isSupplied_releasing _ _ _ _).append (isSupplied_releasing _ _ _ _)

/-- Let tasks make any calls on a device, in whatever order they are resumed, with any accesses and
switches failing, but let it be that calls which configure it, tell the FIFO or take samples had
their turns only while the interface was on. All that was logged since the power-up was logged in
the turns that were taken, and the record of the interface followed the switches. In no turn was
anything accessed while the interface was off, but for that of a suspend that found it off with the
FIFO streaming. Nothing is ever left on record as running while the interface is off.

A shutdown whenever nobody has the lock accesses nothing without supply either. -/
theorem System.IsReachableThrough.accesses_supplied {past : List Event} {turns : List Turn}
    {s : System} (hs : s.IsReachableThrough past turns) (hfree : s.locked = false)
    (hneeds : ∀ turn ∈ turns, turn.needsInterface = true → turn.found.rails.vddio = true) :
    s.bench.trace = past ++ turns.flatMap Turn.events ∧
      (∀ turn ∈ turns, turn.HeedsSupply) ∧
      (s.core.rails.vddio = false → s.core.config.power = .off) ∧
      ∃ events t, Driver.shutdown.exec s = (.ok (), t) ∧
        t.bench.trace = s.bench.trace ++ events ∧ IsSupplied s.core.rails.vddio events := by
  have hheeds : (∀ turn ∈ turns, turn.HeedsSupply) ∧
      (s.core.rails.vddio = false → s.core.config.power = .off) := by
    refine hs.core_induction
      (K := fun turns c =>
        (∀ turn ∈ turns, turn.needsInterface = true → turn.found.rails.vddio = true) →
          (∀ turn ∈ turns, turn.HeedsSupply) ∧ (c.rails.vddio = false → c.config.power = .off))
      ?_ ?_ hfree hneeds
    · exact fun _ _ _ => ⟨by simp, fun hoff => nomatch hoff⟩
    · intro turns turn hturn h hneeds
      obtain ⟨hbefore, hidle⟩ := h fun t ht => hneeds t (List.mem_append_left _ ht)
      have hthis := hneeds turn (List.mem_append_right _ List.mem_cons_self)
      refine ⟨?_, hturn.idle_left hthis hidle⟩
      intro t ht
      rcases List.mem_append.mp ht with ht | ht
      · exact hbefore t ht
      · rw [List.mem_singleton.mp ht]
        exact hturn.heedsSupply hthis hidle
  obtain ⟨_, _, hs'⟩ := hs.isReachable.exists_isReachableBy
  exact ⟨hs.trace hfree, hheeds.1, hheeds.2, Driver.isSupplied_shutdown hs'.atFirstBank hheeds.2⟩

/-- The device is suspended and refused the interface, and then it is told to suspend at run time.
That tells the chip nothing, and the interface is off at the end, too. -/
theorem System.IsReachableThrough.accesses_supplied_past_refused_resume :
    let bench : Bench := {
      chip := {
        memory := Memory.zero.writeAll [(Register.whoAmI, 0x42), (Register.intStatus, 0x10)] }
      bus := .serial Register.bank0
      supply := .pins
      plan := { failsSwitch := fun k _ _ => k == 3 } }
    let ready := ((Driver.powerUp .icm42605 {}).exec { bench, core := .fresh .icm42605 }).2
    let start := ready.withInbox {}
    let calls : List (Call ScriptedSink) := [
      .operation (.setPower ⟨.off, .lowNoise, false⟩ false), .operation .suspend,
      .operation .resume, .operation .runtimeSuspend, .operation .runtimeResume,
      .operation (.setStreaming true), .process ⟨true, []⟩, .operation .suspend]
    let schedule := [0, 0, 1, 1, 2, 3, 4, 4, 5, 6, 7, 7]
    let s := ((Pool.ofCalls calls start).follow 0 schedule).system
    let turns := Pool.turns calls 0 schedule start
    s.locked = false ∧
      (∀ turn ∈ turns, turn.needsInterface = true → turn.found.rails.vddio = true) ∧
      turns.map (fun turn => turn.found.rails.vddio) =
        [true, true, false, false, false, true, true, true] ∧
      (∀ turn ∈ turns, IsSupplied turn.found.rails.vddio turn.events) ∧
      s.core.rails.vddio = false ∧ s.core.config.power = .off ∧
      ∃ events t, Driver.shutdown.exec s = (.ok (), t) ∧
        t.bench.trace = s.bench.trace ++ events ∧ IsSupplied false events := by
  intro bench ready start calls schedule s turns
  have hstart : start.IsReachableThrough ready.bench.trace [] :=
    .powerUp rfl (Except.eq_ok_of_toOption (by decide +kernel)) (by with_reducible rfl)
  have hs : s.IsReachableThrough ready.bench.trace turns :=
    hstart.first (by decide +kernel) calls 0 schedule
  have hfree : s.locked = false := by decide +kernel
  have hneeds : ∀ turn ∈ turns, turn.needsInterface = true → turn.found.rails.vddio = true := by
    decide +kernel
  have hfound : turns.map (fun turn => turn.found.rails.vddio) =
      [true, true, false, false, false, true, true, true] := by
    decide +kernel
  have hquiet : ∀ turn ∈ turns, turn.found.rails.vddio = true ∨ turn.found.streaming = false := by
    decide +kernel
  have hoff : s.core.rails.vddio = false := by decide +kernel
  clear_value s turns
  obtain ⟨_, hheeds, hidle, hshutdown⟩ := hs.accesses_supplied hfree hneeds
  rw [hoff] at hshutdown
  refine ⟨hfree, hneeds, hfound, ?_, hoff, hidle hoff, hshutdown⟩
  intro turn hturn
  refine (hheeds turn hturn).supplied.mpr ?_
  rintro ⟨_, hvddio, _, hstream⟩
  rcases hquiet turn hturn with h | h
  · rw [h] at hvddio
    cases hvddio
  · rw [h] at hstream
    cases hstream

/-- With the FIFO streaming, the second of two suspends tells it to stop without a supply. -/
theorem System.IsReachableThrough.fifo_told_without_supply :
    let bench : Bench := {
      chip := {
        memory := Memory.zero.writeAll [(Register.whoAmI, 0x40), (Register.intStatus, 0x10)] } }
    let ready := ((Driver.powerUp .icm42600 {}).exec { bench, core := .fresh .icm42600 }).2
    let start := ready.withInbox {}
    let calls : List (Call ScriptedSink) :=
      [.operation (.setStreaming true), .operation .suspend, .operation .suspend]
    let schedule := [0, 1, 2]
    let s := ((Pool.ofCalls calls start).follow 0 schedule).system
    let turns := Pool.turns calls 0 schedule start
    s.IsReachableThrough ready.bench.trace turns ∧ s.locked = false ∧
      (∀ turn ∈ turns, turn.needsInterface = true → turn.found.rails.vddio = true) ∧
      ∃ turn ∈ turns, turn.answered = some (.suspend, .ok) ∧ turn.found.rails.vddio = false ∧
        turn.events = [Driver.bypassing .flat true, .switch .vddio false true] ∧
        ¬ IsSupplied turn.found.rails.vddio turn.events := by
  intro bench ready start calls schedule s turns
  have hstart : start.IsReachableThrough ready.bench.trace [] :=
    .powerUp trivial (Except.eq_ok_of_toOption (by decide +kernel)) (by with_reducible rfl)
  have hs : s.IsReachableThrough ready.bench.trace turns :=
    hstart.first (by decide +kernel) calls 0 schedule
  have hneeds : ∀ turn ∈ turns, turn.needsInterface = true → turn.found.rails.vddio = true := by
    decide +kernel
  have hsecond : ∃ turn ∈ turns, turn.answered = some (.suspend, .ok) ∧
      turn.found.rails.vddio = false ∧
      turn.events = [Driver.bypassing .flat true, .switch .vddio false true] := by
    decide +kernel
  obtain ⟨turn, hturn, hanswered, hoff, hevents⟩ := hsecond
  refine ⟨hs, by decide +kernel, hneeds, turn, hturn, hanswered, hoff, hevents, ?_⟩
  rw [hoff, hevents]
  exact not_isSupplied_off _ _ _

end Inertial
