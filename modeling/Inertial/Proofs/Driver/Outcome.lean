import Inertial.Driver.PowerUp

/-!
# What becomes of the record

The bench decides which accesses and switches fail, and nothing else of it reaches the record of the
device as long as a driver only writes registers. So the record after a driver can be told from the
record before it and from the result. `Driver.Outcome c Q x` says that `Q` holds of the result of
`x` and the record after it wherever `x` is begun with the record `c`. The rules take it apart along
the text of a driver, and the statements about changes of power say what they come to on every exit.
-/

set_option autoImplicit false

namespace Inertial

/-- Whether a failure was one of the bus. -/
def DriverError.isBus : DriverError → Bool
  | .bus _ => true
  | _ => false

namespace Driver

variable {α β : Type}

/-- Begun with the record `c`, the driver has a result and a record after it of which `Q` holds. -/
def Outcome (c : Core) (Q : Except DriverError α → Core → Prop) (x : Driver α) : Prop :=
  ∀ s : System, s.core = c → Q (exec x s).1 (exec x s).2.core

variable {c : Core} {Q R : Except DriverError α → Core → Prop}

/-- What is known of the outcome holds of a given execution. -/
theorem Outcome.of_exec {x : Driver α} {s t : System} {r : Except DriverError α}
    (hx : Outcome s.core Q x) (hexec : exec x s = (r, t)) : Q r t.core := by
  have h := hx s rfl
  rw [hexec] at h
  exact h

/-- Less may be claimed of an outcome. -/
theorem Outcome.mono {x : Driver α} (hx : Outcome c Q x) (h : ∀ r d, Q r d → R r d) :
    Outcome c R x := by
  intro s hs
  exact h _ _ (hx s hs)

/-- The second of two steps goes on from the record that the first left, unless that failed. -/
theorem Outcome.bind {P : Except DriverError β → Core → Prop} {x : Driver α} {f : α → Driver β}
    (hx : Outcome c Q x) (hok : ∀ a d, Q (.ok a) d → Outcome d P (f a))
    (herror : ∀ e d, Q (.error e) d → P (.error e) d) : Outcome c P (x >>= f) := by
  intro s hs
  have hfirst := hx s hs
  rw [exec_bind]
  rcases hexec : exec x s with ⟨e | a, t⟩
  · rw [hexec] at hfirst
    exact herror e t.core hfirst
  · rw [hexec] at hfirst
    exact hok a t.core hfirst t rfl

/-- A driver that only answers leaves the record as it is. -/
theorem outcome_pure {a : α} (h : Q (.ok a) c) : Outcome c Q (pure a) := by
  intro s hs
  subst hs
  exact h

/-- What follows a look at the record knows it. -/
theorem outcome_getCore_bind {f : Core → Driver α} (hf : Outcome c Q (f c)) :
    Outcome c Q (getCore >>= f) := by
  intro s hs
  rw [exec_bind, exec_getCore]
  dsimp only
  rw [hs]
  exact hf s hs

/-- A change of the record succeeds and leaves the changed record. -/
theorem outcome_modifyCore {Q : Except DriverError Unit → Core → Prop} {f : Core → Core}
    (h : Q (.ok ()) (f c)) : Outcome c Q (modifyCore f) := by
  intro s hs
  subst hs
  exact h

/-- A wait succeeds and leaves the record as it is. -/
theorem outcome_sleep {Q : Except DriverError Unit → Core → Prop} (d : Delay) (h : Q (.ok ()) c) :
    Outcome c Q (sleep d) := by
  intro s hs
  subst hs
  exact h

/-- An operation on registers leaves the record alone, and if it fails it is the bus. -/
theorem outcome_register (op : RegisterOp) :
    Outcome c (fun r d => d = c ∧ ∀ e, r = .error e → e.isBus) (register op) := by
  intro s hs
  subst hs
  rw [exec_register]
  rcases op.perform.exec s.bench with ⟨fault | answer, bench⟩
  · refine ⟨rfl, ?_⟩
    intro e he
    cases he
    rfl
  · refine ⟨rfl, ?_⟩
    intro e he
    cases he

/-- A switch is noted if it succeeds, and if it fails it is the rail. -/
theorem outcome_switch (rail : Rail) (on : Bool) :
    Outcome c (fun r d =>
      match r with
      | .ok _ => d = { c with rails := c.rails.set on rail }
      | .error e => d = c ∧ e = .rail rail) (switch rail on) := by
  intro s hs
  subst hs
  rw [exec_switch]
  rcases s.bench.switch rail on with ⟨_ | _, bench⟩
  · exact ⟨rfl, rfl⟩
  · rfl

/-! ## Success -/

/-- Begun with the record `c`, the driver has an answer and a record after it of which `P` holds if
it succeeds. -/
def Success (c : Core) (P : α → Core → Prop) (x : Driver α) : Prop :=
  Outcome c (fun r d => ∀ a, r = .ok a → P a d) x

/-- An outcome says what holds in case of success. -/
theorem Outcome.success {P : α → Core → Prop} {x : Driver α} (hx : Outcome c Q x)
    (h : ∀ a d, Q (.ok a) d → P a d) : Success c P x := by
  refine hx.mono ?_
  intro r d hQ a ha
  rw [ha] at hQ
  exact h a d hQ

/-- A success of two steps is one of the first and then one of the second. -/
theorem Success.bind {P : α → Core → Prop} {S : β → Core → Prop} {x : Driver α}
    {f : α → Driver β} (hx : Success c P x) (hf : ∀ a d, P a d → Success d S (f a)) :
    Success c S (x >>= f) :=
  Outcome.bind hx (fun a d h => hf a d (h a rfl)) (by
    intro e d _ b hb
    cases hb)

variable {P : α → Core → Prop}

/-- A driver that only answers succeeds with the record as it is. -/
theorem success_pure {a : α} (h : P a c) : Success c P (pure a) := by
  refine outcome_pure ?_
  intro b hb
  cases hb
  exact h

/-- For success too, what follows a look at the record knows it. -/
theorem success_getCore_bind {f : Core → Driver α} (hf : Success c P (f c)) :
    Success c P (getCore >>= f) :=
  outcome_getCore_bind hf

/-- A change of the record succeeds with the changed record. -/
theorem success_modifyCore {P : Unit → Core → Prop} {f : Core → Core} (h : P () (f c)) :
    Success c P (modifyCore f) :=
  outcome_modifyCore fun _ _ => h

/-- A wait succeeds with the record as it is. -/
theorem success_sleep {P : Unit → Core → Prop} (d : Delay) (h : P () c) : Success c P (sleep d) :=
  outcome_sleep d fun _ _ => h

/-! ## Changes of power -/

/-- What is recorded is what was written, and nothing if nothing was. -/
theorem outcome_store (r : ConfigRegister) (config : DeviceConfig) :
    Outcome c (fun r d =>
      match r with
      | .ok _ => d = { c with config }
      | .error e => d = c ∧ e.isBus) (store r config) := by
  refine (outcome_register (.write r.address (config.encode r))).bind ?_ ?_
  · rintro _ d ⟨rfl, _⟩
    exact outcome_modifyCore rfl
  · rintro e d ⟨rfl, hbus⟩
    exact ⟨rfl, hbus e rfl⟩

/-- Settling leaves the record as it is, whether it has to wait or not. -/
theorem outcome_settle {Q : Except DriverError Unit → Core → Prop} (d : Duration)
    (h : Q (.ok ()) c) : Outcome c Q (settle d) := by
  unfold settle
  split
  · exact outcome_sleep _ h
  · exact outcome_pure h

/-- A change of what runs is recorded and answers how long the output takes to settle. If it fails,
it is the bus, and what runs is as before. -/
theorem outcome_setPower (p : PowerState) :
    Outcome c (fun r d =>
      match r with
      | .ok t => d = { c with config := c.config.withPower p } ∧
          t = (Settling.between c.config.power p).settle
      | .error e => d = c ∧ e.isBus) (setPower p) := by
  unfold setPower
  apply outcome_getCore_bind
  dsimp only
  split
  · rename_i hp
    refine outcome_pure ⟨?_, ?_⟩
    · rw [hp, DeviceConfig.withPower_power]
    · rw [hp, Settling.between_self]
  · refine (outcome_store _ _).bind ?_ fun e d h => h
    rintro _ d rfl
    split
    · exact (outcome_sleep (Q := fun r d => r = .ok () ∧
        d = { c with config := c.config.withPower p }) _ ⟨rfl, rfl⟩).bind
          (fun _ d h => outcome_pure ⟨h.2, rfl⟩) fun e d h => nomatch h.1
    · exact outcome_pure ⟨rfl, rfl⟩

/-- A change of power that is waited for leaves what one without a wait leaves. -/
theorem outcome_setPowerAndWait (p : PowerState) :
    Outcome c (fun r d =>
      match r with
      | .ok _ => d = { c with config := c.config.withPower p }
      | .error e => d = c ∧ e.isBus) (setPowerAndWait p) := by
  refine (outcome_setPower p).bind ?_ fun e d h => h
  rintro t d ⟨rfl, _⟩
  exact outcome_settle t rfl

/-! ## Suspending and resuming -/

/-- The FIFO is not part of what the record says of the registers. -/
theorem outcome_setFifo (stream : Bool) :
    Outcome c (fun r d => d = c ∧ ∀ e, r = .error e → e.isBus) (setFifo stream) :=
  outcome_register _

/-- Turning the interface off fails only at its rail, and only the rail is noted. -/
theorem outcome_interfaceOff :
    Outcome c (fun r d => d.config = c.config ∧ d.saved = c.saved ∧ d.power = c.power ∧
      ∀ e, r = .error e → e = .rail .vddio) interfaceOff := by
  refine (outcome_switch .vddio false).mono ?_
  rintro (e | _) d h
  · obtain ⟨rfl, rfl⟩ := h
    refine ⟨rfl, rfl, rfl, ?_⟩
    intro e he
    cases he
    rfl
  · subst h
    exact ⟨rfl, rfl, rfl, fun e he => nomatch he⟩

/-- A suspend of an active device notes what ran when it began. If it fails on the bus, all of that
still runs; otherwise nothing does, also if the supply could not be switched off. -/
theorem outcome_suspend (hactive : c.power.active = true) :
    Outcome c (fun r d => d.saved = c.config.power ∧ d.power = c.power ∧
      match r with
      | .error (.bus _) => d.config = c.config
      | _ => d.config = c.config.withPower .off) suspend := by
  -- With or without the FIFO, a suspend ends by turning off from a record that only notes what ran.
  have hoff : ∀ d : Core, d.saved = c.config.power → d.power = c.power → d.config = c.config →
      Outcome d (fun r d => d.saved = c.config.power ∧ d.power = c.power ∧
        match r with
        | .error (.bus _) => d.config = c.config
        | _ => d.config = c.config.withPower .off) (do setPowerAndWait .off; interfaceOff) := by
    intro d hsaved hpower hconfig
    refine (outcome_setPowerAndWait .off).bind ?_ ?_
    · rintro _ d' rfl
      refine outcome_interfaceOff.mono ?_
      rintro r d' ⟨hconfig', hsaved', hpower', herror⟩
      refine ⟨hsaved'.trans hsaved, hpower'.trans hpower, ?_⟩
      have hoff : d'.config = c.config.withPower .off := by rw [hconfig', hconfig]
      rcases r with e | _
      · rw [herror e rfl]
        exact hoff
      · exact hoff
    · rintro e d' ⟨rfl, hbus⟩
      cases e with
      | bus fault => exact ⟨hsaved, hpower, hconfig⟩
      | _ => cases hbus
  unfold suspend
  refine (outcome_modifyCore (Q := fun r d => r = .ok () ∧
    d = { c with saved := c.config.power }) ⟨rfl, rfl⟩).bind ?_ fun e d h => nomatch h.1
  rintro _ d ⟨_, rfl⟩
  apply outcome_getCore_bind
  rw [if_neg (by simp [RuntimePower.suspended, hactive])]
  split
  · refine (outcome_setFifo false).bind ?_ ?_
    · rintro _ d ⟨rfl, _⟩
      exact hoff _ rfl rfl rfl
    · rintro e d ⟨rfl, hbus⟩
      cases e with
      | bus fault => exact ⟨rfl, rfl, rfl⟩
      | _ => cases hbus _ rfl
  · exact hoff _ rfl rfl rfl

/-- If the interface came on, its rail is noted and nothing else. -/
theorem success_interfaceOn :
    Success c (fun _ d => d = { c with rails := c.rails.set true .vddio }) interfaceOn := by
  refine ((outcome_switch .vddio true).success fun _ d h => h).bind ?_
  rintro _ d rfl
  exact success_sleep _ rfl

/-- A resume that succeeds has everything run that the last suspend noted. -/
theorem success_resume :
    Success c (fun _ d => d.config = c.config.withPower c.saved) resume := by
  refine success_interfaceOn.bind ?_
  rintro _ d rfl
  refine Success.bind (success_modifyCore (P := fun _ d => d.config = c.config ∧ d.saved = c.saved)
    ⟨rfl, rfl⟩) ?_
  rintro _ d ⟨hconfig, hsaved⟩
  apply success_getCore_bind
  refine ((outcome_setPowerAndWait d.saved).success fun _ d h => h).bind ?_
  rintro _ e rfl
  have hdone : d.config.withPower d.saved = c.config.withPower c.saved := by
    rw [hconfig, hsaved]
  apply success_getCore_bind
  split
  · refine (outcome_setFifo true).success ?_
    rintro _ _ ⟨rfl, _⟩
    exact hdone
  · exact success_pure hdone

end Driver

end Inertial
