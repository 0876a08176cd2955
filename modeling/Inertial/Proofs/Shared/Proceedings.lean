import Inertial.Proofs.Driver.PowerTransitions
import Inertial.Proofs.Shared.Ledger
import Inertial.Proofs.Shared.Sequence

/-!
# Everything a turn can be

A turn that is over can be told from the operation with its answer, from the record that the task
found and left, and from what was logged. `Turn.Proceeds` lists what there can be, whatever fails,
and every turn on the way to a system that can be reached is of one of these kinds.

So a property of the turns and of the record holds whenever nobody has the lock if each of these
kinds keeps it (`System.IsReachableThrough.core_induction`).
-/

set_option autoImplicit false

namespace Inertial

namespace Operation

/-- The operation only looks at the record. -/
def looks : Operation → Bool
  | .getConfig | .getPower | .isSuspended => true
  | _ => false

/-- The operation changes the configuration. -/
def tunes : Operation → Bool
  | .grant .. | .setTemperature .. | .setPower .. => true
  | _ => false

/-- The operation begins by turning the interface on. -/
def resumes : Operation → Bool
  | .resume | .runtimeResume => true
  | _ => false

/-- What a result is answered as. -/
def asReply {α : Type} (f : α → Reply) : Except DriverError α → Reply
  | .ok a => f a
  | .error e => .failed e

end Operation

open Driver in
/-- Everything a turn can be. -/
inductive Turn.Proceeds : Turn → Prop where
  | sample {c : Core} {events : List Event} (hquiet : IsQuiet events) :
      Proceeds ⟨none, c, events, c⟩
  | look {op : Operation} {r : Reply} {c : Core} (hop : op.looks = true) :
      Proceeds ⟨some (op, r), c, [], c⟩
  | tune {op : Operation} {r : Reply} {c : Core} {events : List Event} {config : DeviceConfig}
      (hop : op.tunes = true) (hquiet : IsQuiet events) :
      Proceeds ⟨some (op, r), c, events, { c with config }⟩
  | stream {on : Bool} {c : Core} {events : List Event} (hquiet : IsQuiet events) :
      Proceeds ⟨some (.setStreaming on, .ok), c, events, { c with streaming := on }⟩
  | streamFails {on : Bool} {e : DriverError} {c : Core} {events : List Event}
      (hquiet : IsQuiet events) : Proceeds ⟨some (.setStreaming on, .failed e), c, events, c⟩
  | suspend {r : Except DriverError Unit} {c d : Core} {events : List Event}
      (h : Suspends c r d events) :
      Proceeds ⟨some (.suspend, Operation.asReply (fun _ => .ok) r), c, events, d⟩
  | runtimeSuspendFails {e : DriverError} {c d : Core} {events : List Event}
      (h : TurnsOff c (.error e) d events) :
      Proceeds ⟨some (.runtimeSuspend, .failed e), c, events, d⟩
  | runtimeSuspend {c d : Core} {events : List Event} (h : TurnsOff c (.ok ()) d events) :
      Proceeds ⟨some (.runtimeSuspend, .ok), c, events,
        { d with power := { c.power with active := false } }⟩
  | refused {op : Operation} {c : Core} (hop : op.resumes = true) :
      Proceeds ⟨some (op, .failed (.rail .vddio)), c, [.switch .vddio true false], c⟩
  | resume {r : Reply} {c : Core} {quiet : List Event} {config : DeviceConfig}
      (hquiet : IsQuiet quiet) :
      Proceeds ⟨some (.resume, r), c, .switch .vddio true true :: quiet, { c with
        config
        rails := c.rails.set true .vddio
        power := { enabled := true, active := true } }⟩
  | runtimeResume {c : Core} {quiet : List Event} (hquiet : IsQuiet quiet) :
      Proceeds ⟨some (.runtimeResume, .ok), c, .switch .vddio true true :: quiet, { c with
        rails := c.rails.set true .vddio
        power := { c.power with active := true } }⟩

namespace Operation

variable {s : System}

/-- The turn of an operation is what its driver comes to. -/
theorem proceeds_of_effect {α : Type} {op : Operation} {x : Driver α} {f : α → Reply}
    {Q : Except DriverError α → Core → List Event → Prop} (hbody : op.body = reply x f)
    (hs : s.bench.AtFirstBank) (hx : x.Effect s.core Q)
    (h : ∀ r d events, Q r d events → Turn.Proceeds ⟨some (op, asReply f r), s.core, events, d⟩) :
    (Turn.between (some (op, (op.body.run s).1)) s (op.body.run s).2).Proceeds := by
  obtain ⟨_, events, htrace, hQ⟩ := hx s rfl hs
  have hrun : op.body.run s = (asReply f (x.exec s).1, (x.exec s).2) := by
    rw [hbody, run_reply]
    rcases x.exec s with ⟨_ | _, t⟩ <;> rfl
  have hturn : Turn.between (some (op, (op.body.run s).1)) s (op.body.run s).2 =
      ⟨some (op, asReply f (x.exec s).1), s.core, events, (x.exec s).2.core⟩ := by
    rw [hrun, Turn.between, htrace, List.drop_left]
  rw [hturn]
  exact h _ _ _ hQ

/-- A call that tunes proceeds as its driver does. -/
theorem proceeds_tune {α : Type} {op : Operation} (hop : op.tunes = true) {x : Driver α}
    {f : α → Reply} (hbody : op.body = reply x f) (hs : s.bench.AtFirstBank) (hx : x.Tunes) :
    (Turn.between (some (op, (op.body.run s).1)) s (op.body.run s).2).Proceeds := by
  refine proceeds_of_effect hbody hs (hx s.core) ?_
  rintro r _ events ⟨hquiet, config, rfl⟩
  exact .tune hop hquiet

/-- So does one that may wait for the output. -/
theorem proceeds_settle {op : Operation} (hop : op.tunes = true) {wait : Bool}
    {x : Driver Duration} (hbody : op.body = settling wait x) (hs : s.bench.AtFirstBank)
    (hx : x.Tunes) :
    (Turn.between (some (op, (op.body.run s).1)) s (op.body.run s).2).Proceeds := by
  cases wait with
  | true =>
    exact proceeds_tune hop hbody hs
      (hx.bind fun d => (Driver.composed_settle d).tuning.tunes)
  | false => exact proceeds_tune hop hbody hs hx

/-- A call that only looks leaves everything as it is. -/
theorem proceeds_look {op : Operation} (hop : op.looks = true) {f : Core → Reply}
    (hbody : op.body = reply Driver.getCore f) :
    (Turn.between (some (op, (op.body.run s).1)) s (op.body.run s).2).Proceeds := by
  have hturn : Turn.between (some (op, (op.body.run s).1)) s (op.body.run s).2 =
      ⟨some (op, f s.core), s.core, [], s.core⟩ := by
    rw [hbody, run_reply, Driver.exec_getCore, Turn.between, List.drop_length]
  rw [hturn]
  exact .look hop

/-- The turn of an operation is one of these. -/
theorem proceeds (op : Operation) (hs : s.bench.AtFirstBank) :
    (Turn.between (some (op, (op.body.run s).1)) s (op.body.run s).2).Proceeds := by
  cases op with
  | grant request wait =>
    exact proceeds_settle rfl rfl hs (Driver.composed_grant request).tuning_of_settings.tunes
  | setTemperature on wait =>
    exact proceeds_settle rfl rfl hs (Driver.composed_setTemperature on).tuning_of_settings.tunes
  | setPower p wait =>
    exact proceeds_settle rfl rfl hs (Driver.composed_setPower p).tuning.tunes
  | suspend =>
    refine proceeds_of_effect (f := fun _ => .ok) rfl hs Driver.effect_suspend ?_
    intro r d events h
    exact .suspend h
  | resume =>
    refine proceeds_of_effect (f := fun _ => .ok) rfl hs Driver.effect_resume ?_
    rintro r _ _ (⟨rfl, rfl, rfl⟩ | ⟨quiet, config, hquiet, rfl, rfl⟩)
    · exact .refused rfl
    · exact .resume hquiet
  | runtimeSuspend =>
    refine proceeds_of_effect (f := fun _ => .ok) rfl hs Driver.effect_runtimeSuspend ?_
    rintro r d events (⟨e, rfl, h⟩ | ⟨d', rfl, h, rfl⟩)
    · exact .runtimeSuspendFails h
    · exact .runtimeSuspend h
  | runtimeResume =>
    refine proceeds_of_effect (f := fun _ => .ok) rfl hs Driver.effect_runtimeResume ?_
    rintro r _ _ (⟨rfl, rfl, rfl⟩ | ⟨quiet, hquiet, rfl, rfl, rfl⟩)
    · exact .refused rfl
    · exact .runtimeResume hquiet
  | setStreaming on =>
    refine proceeds_of_effect (f := fun _ => .ok) rfl hs (Driver.effect_setStreaming on) ?_
    rintro (e | _) _ events ⟨hquiet, rfl⟩
    · exact .streamFails hquiet
    · exact .stream hquiet
  | getConfig => exact proceeds_look rfl rfl
  | getPower => exact proceeds_look rfl rfl
  | isSuspended => exact proceeds_look rfl rfl

end Operation

namespace Driver

/-- Reading the data registers leaves the record alone. -/
theorem effect_readData {c : Core} :
    Effect c (fun _ d events => IsQuiet events ∧ d = c) readData := by
  refine (effect_register (.read Register.intStatus) rfl).bind ?_ fun e d events h => h
  rintro status _ events ⟨hquiet, rfl⟩
  split
  · refine effect_pure ⟨?_, rfl⟩
    rw [List.append_nil]
    exact hquiet
  · refine (effect_register (.readBlock Register.accelData _) rfl).bind ?_ ?_
    · rintro raw _ later ⟨hlater, rfl⟩
      refine effect_pure ⟨?_, rfl⟩
      rw [List.append_nil]
      exact hquiet.append hlater
    · rintro e _ later ⟨hlater, rfl⟩
      exact ⟨hquiet.append hlater, rfl⟩

/-- So does the turn of a sample, which may push. -/
theorem proceeds_sample {σ : Type} [Sink σ] (time : Int64) (sink : σ) {s : System}
    (hs : s.bench.AtFirstBank) :
    (Turn.between none s ((takeSample time sink).run s).2).Proceeds := by
  obtain ⟨_, events, htrace, hquiet, hcore⟩ := effect_readData s rfl hs
  have hturn : ∀ t : System, t.core = s.core → ∀ later, IsQuiet later →
      t.bench.trace = s.bench.trace ++ (events ++ later) →
      (Turn.between none s t).Proceeds := by
    intro t ht later hlater htrace'
    rw [Turn.between, htrace', List.drop_left, ht]
    exact .sample (hquiet.append hlater)
  have hrun := run_takeSample time sink s
  rcases hx : readData.exec s with ⟨r, t⟩
  rw [hx] at htrace hcore hrun
  have hstay : (Turn.between none s t).Proceeds :=
    hturn t hcore [] isQuiet_nil (by rw [List.append_nil]; exact htrace)
  rcases r with e | _ | raw
  · rw [hrun]
    exact hstay
  · rw [hrun]
    exact hstay
  · obtain ⟨i, sink', hrun⟩ := hrun
    rw [hrun]
    split
    · refine hturn _ hcore [.push (.ofRaw raw time)] (by simp [IsQuiet, Event.isSwitch]) ?_
      rw [← List.append_assoc, ← htrace]
      rfl
    · exact hstay

end Driver

/-- A property of the turns and the record that every kind of turn keeps holds whenever nobody has
the lock. -/
theorem System.IsReachableThrough.core_induction {K : List Turn → Core → Prop}
    (hstart : ∀ (chip : Chip) (config : DeviceConfig), K [] { Core.fresh chip with
      config
      rails := { vdd := true, vddio := true }
      power := { enabled := true, active := true } })
    (hstep : ∀ turns (turn : Turn), turn.Proceeds → K turns turn.found →
      K (turns ++ [turn]) turn.left)
    {past : List Event} {turns : List Turn} {s : System} (hs : s.IsReachableThrough past turns)
    (hfree : s.locked = false) : K turns s.core := by
  have hK : IsKeptByTurns fun turns s => s.bench.AtFirstBank ∧ K turns s.core := {
    around := fun _ _ h => h
    operation := by
      intro turns s op ⟨hbank, h⟩
      have hafter := Routine.upholds_run
        (op.stays_body System.isSteady_atFirstBank s hbank)
      exact ⟨hafter, hstep turns _ (op.proceeds hbank) h⟩
    sample := by
      intro σ _ turns s time sink ⟨hbank, h⟩
      have hafter := Routine.upholds_run
        (Driver.stays_takeSample System.isSteady_atFirstBank time sink s hbank)
      exact ⟨hafter, hstep turns _ (Driver.proceeds_sample time sink hbank) h⟩ }
  refine (hs.holds hK ?_ hfree).2
  intro bench chip interrupt t _ hexec _
  obtain ⟨config, hcore⟩ := Driver.core_of_exec_powerUp hexec
  refine ⟨Driver.atFirstBank_of_exec_powerUp hexec, ?_⟩
  rw [hcore]
  exact hstart chip config

end Inertial
