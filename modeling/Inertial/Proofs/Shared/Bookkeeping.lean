import Inertial.Proofs.Shared.Proceedings

/-!
# The books of the power lifecycle

Whenever nobody has the lock, what the record says of rails, runtime power, the note of the last
suspend and the FIFO can be told from the turns that were taken (`Books`). Each kind of turn changes
the record by what it is entered for (`Turn.IsBooked`), and from this the books are right after all
turns (`System.IsReachableThrough.books`).
-/

set_option autoImplicit false

namespace Inertial

/-- The interface supply was switched on. -/
def Event.isInterfaceOn : Event → Bool
  | .switch .vddio true true => true
  | _ => false

/-- The operation is entered in the books. -/
def Operation.isEntered : Operation → Bool
  | .suspend | .runtimeSuspend | .setStreaming _ => true
  | _ => false

/-- A call that only looks turns nothing on or off. -/
theorem Operation.not_isEntered_of_looks {op : Operation} (hop : op.looks = true) :
    op.isEntered = false ∧ op.resumes = false := by
  cases op <;> first | exact ⟨rfl, rfl⟩ | cases hop

/-- Nor does a call that tunes. -/
theorem Operation.not_isEntered_of_tunes {op : Operation} (hop : op.tunes = true) :
    op.isEntered = false ∧ op.resumes = false := by
  cases op <;> first | exact ⟨rfl, rfl⟩ | cases hop

/-- A call that resumes is not one that is entered. -/
theorem Operation.not_isEntered_of_resumes {op : Operation} (hop : op.resumes = true) :
    op.isEntered = false := by
  cases op <;> first | rfl | cases hop

namespace Turn

/-- What the turn says about runtime suspension: each time the interface was switched on says that
the device is not suspended, and a runtime suspend that succeeded says that it is. -/
def suspensions (t : Turn) : List Bool :=
  (t.events.filter Event.isInterfaceOn).map (fun _ => false) ++
    if t.answered = some (.runtimeSuspend, .ok) then [true] else []

/-- What ran when the turn began, if it was that of a suspend. -/
def noted? (t : Turn) : Option PowerState :=
  match t.answered with
  | some (.suspend, _) => some t.found.config.power
  | _ => none

/-- What the FIFO was told, if the turn told it something with success. -/
def streamed? (t : Turn) : Option Bool :=
  match t.answered with
  | some (.setStreaming on, .ok) => some on
  | _ => none

/-- If the turn was to turn the interface on and could not, then nothing else was done in it. -/
def RefusesQuietly (t : Turn) : Prop :=
  ∀ op r, t.answered = some (op, r) → op.resumes = true → .switch .vddio true false ∈ t.events →
    t.left = t.found ∧ t.events = [.switch .vddio true false]

/-- The turn changed the record by what it is entered for. -/
structure IsBooked (t : Turn) : Prop where
  vdd : t.left.rails.vdd = t.found.rails.vdd
  enabled : t.found.power.enabled = true → t.left.power.enabled = true
  suspended : t.left.power.suspended = t.suspensions.getLast?.getD t.found.power.suspended
  interface : (t.found.power.suspended = true → t.found.rails.vddio = false) →
    t.left.power.suspended = true → t.left.rails.vddio = false
  saved : t.left.saved = t.noted?.getD t.found.saved
  streaming : t.left.streaming = t.streamed?.getD t.found.streaming
  refuses : t.RefusesQuietly

end Turn

/-- Where no rail is switched the interface is not turned on. -/
theorem IsQuiet.filter_isInterfaceOn {events : List Event} (h : IsQuiet events) :
    events.filter Event.isInterfaceOn = [] := by
  rw [List.filter_eq_nil_iff]
  intro e he
  have hquiet := h e he
  cases e with
  | switch r on ok => cases hquiet
  | _ => exact Bool.false_ne_true

/-- Where no rail is switched no switch is logged. -/
theorem IsQuiet.not_mem_switch {events : List Event} (h : IsQuiet events) (r : Rail)
    (on ok : Bool) : .switch r on ok ∉ events :=
  fun he => nomatch h _ he

namespace Turn

/-- A turn in which nothing came on that should not have leaves the device as suspended as it was,
unless that was what it was for. -/
theorem suspensions_of_quiet {t : Turn} (hquiet : t.events.filter Event.isInterfaceOn = [])
    (hanswer : t.answered ≠ some (.runtimeSuspend, .ok)) : t.suspensions = [] := by
  rw [suspensions, hquiet, if_neg hanswer]
  rfl

/-- Nothing but a configuration, the note of a suspend and the FIFO flag was changed. -/
theorem isBooked_of_same {t : Turn} (hrails : t.left.rails = t.found.rails)
    (hpower : t.left.power = t.found.power)
    (hon : t.events.filter Event.isInterfaceOn = [])
    (hanswer : t.answered ≠ some (.runtimeSuspend, .ok))
    (hsaved : t.left.saved = t.noted?.getD t.found.saved)
    (hstreaming : t.left.streaming = t.streamed?.getD t.found.streaming)
    (hrefuses : t.RefusesQuietly) : t.IsBooked where
  vdd := congrArg Rails.vdd hrails
  enabled := fun h => hpower ▸ h
  suspended := by
    rw [suspensions_of_quiet hon hanswer, hpower]
    rfl
  interface := by
    rw [hrails, hpower]
    exact id
  saved := hsaved
  streaming := hstreaming
  refuses := hrefuses

/-- The turn of any other operation is not entered. -/
theorem entries_of_not_isEntered {op : Operation} (hop : op.isEntered = false) (r : Reply)
    (c d : Core) (events : List Event) :
    let t : Turn := ⟨some (op, r), c, events, d⟩
    t.noted? = none ∧ t.streamed? = none ∧ t.answered ≠ some (.runtimeSuspend, .ok) := by
  cases op with
  | suspend => cases hop
  | runtimeSuspend => cases hop
  | setStreaming on => cases hop
  | _ => exact ⟨rfl, rfl, by simp⟩

/-- So it may change the configuration only. -/
theorem isBooked_of_not_isEntered {op : Operation} (hop : op.isEntered = false) {r : Reply}
    {c : Core} {events : List Event} {config : DeviceConfig}
    (hon : events.filter Event.isInterfaceOn = [])
    (hrefuses : RefusesQuietly ⟨some (op, r), c, events, { c with config }⟩) :
    IsBooked ⟨some (op, r), c, events, { c with config }⟩ := by
  obtain ⟨hnoted, hstreamed, hanswer⟩ :=
    entries_of_not_isEntered hop r c { c with config } events
  refine isBooked_of_same rfl rfl hon hanswer ?_ ?_ hrefuses
  · rw [hnoted]
    rfl
  · rw [hstreamed]
    rfl

/-- A turn that was not to turn the interface on could not fail to. -/
theorem refusesQuietly_of_not_resumes {op : Operation} {r : Reply} {c d : Core}
    {events : List Event} (hop : op.resumes = false) :
    RefusesQuietly ⟨some (op, r), c, events, d⟩ := by
  intro op' r' h hresumes
  cases h
  rw [hop] at hresumes
  cases hresumes

/-- Nor could one that did. -/
theorem refusesQuietly_of_on {answered : Option (Operation × Reply)} {c d : Core}
    {quiet : List Event} (hquiet : IsQuiet quiet) :
    RefusesQuietly ⟨answered, c, .switch .vddio true true :: quiet, d⟩ := by
  intro op r _ _ hmem
  rcases List.mem_cons.mp hmem with h | h
  · cases h
  · exact absurd h (hquiet.not_mem_switch _ _ _)

end Turn

namespace Driver

variable {c d : Core} {r : Except DriverError Unit} {events : List Event}

/-- Turning off does not turn on. -/
theorem TurnsOff.filter_isInterfaceOn (h : TurnsOff c r d events) :
    events.filter Event.isInterfaceOn = [] := by
  cases h with
  | fails hquiet _ => exact hquiet.filter_isInterfaceOn
  | refused hquiet _ =>
    rw [List.filter_append, hquiet.filter_isInterfaceOn]
    rfl
  | off hquiet _ =>
    rw [List.filter_append, hquiet.filter_isInterfaceOn]
    rfl

/-- A suspend changes the record by the note of what ran, and an active device may lose its
interface. -/
theorem Suspends.record (h : Suspends c r d events) :
    d.power = c.power ∧ d.saved = c.config.power ∧ d.streaming = c.streaming ∧
      d.rails.vdd = c.rails.vdd ∧ (c.power.suspended = true → d.rails = c.rails) ∧
      events.filter Event.isInterfaceOn = [] := by
  cases h with
  | asleep _ => exact ⟨rfl, rfl, rfl, rfl, fun _ => rfl, rfl⟩
  | bypassFails bus _ _ => exact ⟨rfl, rfl, rfl, rfl, fun _ => rfl, rfl⟩
  | turnsOff bus hawake hoff =>
    have hbypass : (if c.streaming then [bypassing bus true] else []).filter
        Event.isInterfaceOn = [] := by
      split <;> rfl
    have hevents : ∀ later : List Event, later.filter Event.isInterfaceOn = [] →
        ((if c.streaming then [bypassing bus true] else []) ++ later).filter
          Event.isInterfaceOn = [] := by
      intro later hlater
      rw [List.filter_append, hbypass, hlater]
      rfl
    have hasleep : c.power.suspended = true → d.rails = c.rails := by
      intro h
      rw [hawake] at h
      cases h
    have hon := hevents _ hoff.filter_isInterfaceOn
    cases hoff <;> exact ⟨rfl, rfl, rfl, rfl, hasleep, hon⟩

end Driver

namespace Turn

/-- A suspend leaves the device as suspended as it was. -/
theorem isBooked_suspend {r : Except DriverError Unit} {c d : Core} {events : List Event}
    (h : Driver.Suspends c r d events) :
    IsBooked ⟨some (.suspend, Operation.asReply (fun _ => .ok) r), c, events, d⟩ := by
  obtain ⟨hpower, hsaved, hstreaming, hvdd, hrails, hon⟩ := h.record
  exact {
    vdd := hvdd
    enabled := fun h => hpower ▸ h
    suspended := by
      rw [suspensions_of_quiet hon (by simp)]
      exact congrArg RuntimePower.suspended hpower
    interface := by
      intro hfound hleft
      dsimp only at hleft
      rw [hpower] at hleft
      dsimp only
      rw [hrails hleft]
      exact hfound hleft
    saved := hsaved
    streaming := hstreaming
    refuses := refusesQuietly_of_not_resumes rfl }

/-- A runtime suspend that succeeds leaves the device suspended and the interface off. -/
theorem isBooked_runtimeSuspend {c d : Core} {events : List Event}
    (h : Driver.TurnsOff c (.ok ()) d events) :
    IsBooked ⟨some (.runtimeSuspend, .ok), c, events,
      { d with power := { c.power with active := false } }⟩ := by
  have hon := h.filter_isInterfaceOn
  cases h
  exact {
    vdd := rfl
    enabled := id
    suspended := by
      rw [suspensions, hon]
      rfl
    interface := fun _ _ => rfl
    saved := rfl
    streaming := rfl
    refuses := refusesQuietly_of_not_resumes rfl }

/-- A turn that begins with the interface coming on leaves the device active. -/
theorem isBooked_of_on {op : Operation} (hop : op.isEntered = false) {r : Reply} {c : Core}
    {quiet : List Event} {config : DeviceConfig} {enabled : Bool} (hquiet : IsQuiet quiet)
    (henabled : c.power.enabled = true → enabled = true) :
    IsBooked ⟨some (op, r), c, .switch .vddio true true :: quiet, { c with
      config
      rails := c.rails.set true .vddio
      power := { enabled, active := true } }⟩ := by
  obtain ⟨hnoted, hstreamed, hanswer⟩ := entries_of_not_isEntered hop r c { c with
    config
    rails := c.rails.set true .vddio
    power := { enabled, active := true } } (.switch .vddio true true :: quiet)
  exact {
    vdd := rfl
    enabled := henabled
    suspended := by
      rw [suspensions, if_neg hanswer, List.filter_cons_of_pos rfl, hquiet.filter_isInterfaceOn]
      rfl
    interface := by simp [RuntimePower.suspended]
    saved := by
      rw [hnoted]
      rfl
    streaming := by
      rw [hstreamed]
      rfl
    refuses := refusesQuietly_of_on hquiet }

/-- Every turn changes the record by what it is entered for. -/
theorem Proceeds.isBooked {t : Turn} (h : t.Proceeds) : t.IsBooked := by
  cases h with
  | sample hquiet =>
    refine isBooked_of_same rfl rfl hquiet.filter_isInterfaceOn (by simp) rfl rfl ?_
    intro op r h
    cases h
  | look hop =>
    obtain ⟨hentered, hresumes⟩ := Operation.not_isEntered_of_looks hop
    exact isBooked_of_not_isEntered hentered rfl (refusesQuietly_of_not_resumes hresumes)
  | tune hop hquiet =>
    obtain ⟨hentered, hresumes⟩ := Operation.not_isEntered_of_tunes hop
    exact isBooked_of_not_isEntered hentered hquiet.filter_isInterfaceOn
      (refusesQuietly_of_not_resumes hresumes)
  | stream hquiet =>
    exact isBooked_of_same rfl rfl hquiet.filter_isInterfaceOn (by simp) rfl rfl
      (refusesQuietly_of_not_resumes rfl)
  | streamFails hquiet =>
    exact isBooked_of_same rfl rfl hquiet.filter_isInterfaceOn (by simp) rfl rfl
      (refusesQuietly_of_not_resumes rfl)
  | suspend h => exact isBooked_suspend h
  | runtimeSuspendFails h =>
    have hon := h.filter_isInterfaceOn
    cases h <;>
      exact isBooked_of_same rfl rfl hon (by simp) rfl rfl (refusesQuietly_of_not_resumes rfl)
  | runtimeSuspend h => exact isBooked_runtimeSuspend h
  | refused hop =>
    exact isBooked_of_not_isEntered (Operation.not_isEntered_of_resumes hop) rfl
      fun _ _ _ _ _ => ⟨rfl, rfl⟩
  | resume hquiet => exact isBooked_of_on rfl hquiet fun _ => rfl
  | runtimeResume hquiet => exact isBooked_of_on rfl hquiet id

end Turn

/-- What the turns that were taken say about the record. -/
structure Books (turns : List Turn) (c : Core) : Prop where
  vdd : c.rails.vdd = true
  enabled : c.power.enabled = true
  /-- The device is suspended just if a runtime suspend came after the interface was last switched
  on. -/
  suspended : c.power.suspended = true ↔ (turns.flatMap Turn.suspensions).getLast? = some true
  interface : c.power.suspended = true → c.rails.vddio = false
  /-- What the last suspend noted is what ran when it took the lock. -/
  saved : c.saved = (turns.filterMap Turn.noted?).getLast?.getD .off
  streaming : c.streaming = (turns.filterMap Turn.streamed?).getLast?.getD false
  refuses : ∀ turn ∈ turns, turn.RefusesQuietly

namespace Books

variable {turns : List Turn}

/-- A device that was just powered up has nothing in its books. -/
theorem ofFresh (chip : Chip) (config : DeviceConfig) : Books [] { Core.fresh chip with
    config
    rails := { vdd := true, vddio := true }
    power := { enabled := true, active := true } } where
  vdd := rfl
  enabled := rfl
  suspended := by simp [RuntimePower.suspended]
  interface := by simp [RuntimePower.suspended]
  saved := rfl
  streaming := rfl
  refuses := by simp

/-- A turn is entered after those that were taken before. -/
theorem enter {turn : Turn} (h : Books turns turn.found) (hturn : turn.IsBooked) :
    Books (turns ++ [turn]) turn.left where
  vdd := hturn.vdd.trans h.vdd
  enabled := hturn.enabled h.enabled
  suspended := by
    rw [hturn.suspended, List.flatMap_append, List.flatMap_singleton, List.getLast?_append]
    cases turn.suspensions.getLast? with
    | none => exact h.suspended
    | some b => simp
  interface := hturn.interface h.interface
  saved := by
    rw [hturn.saved, List.filterMap_append, List.getLast?_append]
    cases hnoted : turn.noted? with
    | none =>
      rw [List.filterMap_cons_none hnoted]
      exact h.saved
    | some p =>
      rw [List.filterMap_cons_some hnoted]
      rfl
  streaming := by
    rw [hturn.streaming, List.filterMap_append, List.getLast?_append]
    cases hstreamed : turn.streamed? with
    | none =>
      rw [List.filterMap_cons_none hstreamed]
      exact h.streaming
    | some on =>
      rw [List.filterMap_cons_some hstreamed]
      rfl
  refuses := by
    intro t ht
    rcases List.mem_append.mp ht with ht | ht
    · exact h.refuses t ht
    · rw [List.mem_singleton.mp ht]
      exact hturn.refuses

end Books

/-- Let tasks make any calls on a device, in whatever order they are resumed, with any accesses and
switches failing. All that was logged since the power-up was logged in the turns they took, and
whenever nobody has the lock the books of these turns are right.

The core is supplied, and runtime power management is enabled. The device is suspended just if the
last thing of interest was a runtime suspend that succeeded and not the interface coming on, and
then the interface is off. What is saved is what ran when the last suspend took the lock, whatever
became of it, and the FIFO flag is what the FIFO was last told with success. A resume of either kind
that could not switch the interface on left the record as it was and did nothing else. -/
theorem System.IsReachableThrough.books {past : List Event} {turns : List Turn} {s : System}
    (hs : s.IsReachableThrough past turns) (hfree : s.locked = false) :
    s.bench.trace = past ++ turns.flatMap Turn.events ∧ Books turns s.core := by
  refine ⟨hs.trace hfree, ?_⟩
  refine hs.core_induction (K := Books) Books.ofFresh ?_ hfree
  intro turns turn hturn h
  exact h.enter hturn.isBooked

/-- A resume is refused the interface and a runtime suspend comes after it. What the suspend before
noted is still saved, the FIFO flag is what a call that waited for that suspend made it, and the
device is suspended. -/
theorem System.IsReachableThrough.books_past_refused_resume :
    let bench : Bench := {
      chip := {
        memory := Memory.zero.writeAll [(Register.whoAmI, 0x42), (Register.intStatus, 0x10)] }
      bus := .serial Register.bank0
      supply := .pins
      plan := { failsSwitch := fun k _ _ => k == 3 } }
    let ready := ((Driver.powerUp .icm42605 {}).exec { bench, core := .fresh .icm42605 }).2
    let start := ready.withInbox {}
    let power : PowerState := ⟨.lowNoise, .off, true⟩
    let calls : List (Call ScriptedSink) := [.operation (.setPower power true),
      .operation .suspend, .operation (.setStreaming true), .operation .resume,
      .operation .runtimeSuspend]
    let schedule := [0, 1, 2, 0, 1, 0, 2, 1, 1, 2, 3, 4, 3, 4, 4]
    let s := ((Pool.ofCalls calls start).follow 0 schedule).system
    let turns := Pool.turns calls 0 schedule start
    s.locked = false ∧
      turns.map Turn.answered = [some (.setPower power true, .ok),
        some (.setStreaming true, .ok), some (.suspend, .ok),
        some (.resume, .failed (.rail .vddio)), some (.runtimeSuspend, .ok)] ∧
      s.bench.trace = ready.bench.trace ++ turns.flatMap Turn.events ∧
      s.core.power.suspended = true ∧ s.core.saved = power ∧ s.core.streaming = true ∧
      Books turns s.core := by
  intro bench ready start power calls schedule s turns
  have hstart : start.IsReachableThrough ready.bench.trace [] :=
    .powerUp rfl (Except.eq_ok_of_toOption (by decide +kernel)) (by with_reducible rfl)
  have hs : s.IsReachableThrough ready.bench.trace turns :=
    hstart.first (by decide +kernel) calls 0 schedule
  have hfree : s.locked = false := by decide +kernel
  have hanswered : turns.map Turn.answered = [some (.setPower power true, .ok),
      some (.setStreaming true, .ok), some (.suspend, .ok),
      some (.resume, .failed (.rail .vddio)), some (.runtimeSuspend, .ok)] := by
    decide +kernel
  have hcore : s.core.power.suspended = true ∧ s.core.saved = power ∧ s.core.streaming = true := by
    decide +kernel
  clear_value s turns
  obtain ⟨htrace, hbooks⟩ := hs.books hfree
  exact ⟨hfree, hanswered, htrace, hcore.1, hcore.2.1, hcore.2.2, hbooks⟩

end Inertial
