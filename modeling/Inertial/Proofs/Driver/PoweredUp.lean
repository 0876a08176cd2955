import Inertial.Proofs.Driver.FailedPowerUp
import Inertial.Proofs.Driver.FirstFailure

/-!
# Devices that were powered up

In the first bank a driver that only checks, writes and updates registers, waits, switches rails on
and takes notes can be said in one piece: what it asks of the registers, what it writes, what it
logs over a bus, and what becomes of the record (`Driver.Deed`). It does its deed just if the
registers are as asked and nothing fails on the way (`Driver.Does`), and two such drivers one after
the other do their deeds one after the other (`Driver.Does.andThen`).

A power-up is made of such steps. So the main statement, `Driver.powerUp_sets_exactly`, gives the
condition under which it succeeds, and for that case every register, the record and the log.
-/

set_option autoImplicit false

namespace Inertial

/-- The event is a register access that failed, or a rail that could not be switched on. -/
def Event.IsFault : Event → Prop
  | .access _ ok => ok = false
  | .switch _ on ok => on = true ∧ ok = false
  | _ => False

/-- The bits of the pin register. -/
theorem PinSetup.toNat_encode (c : PinSetup) :
    c.encode.toNat =
      (if c.trigger = .risingEdge ∨ c.trigger = .levelHigh then 1 else 0) +
      (if c.openDrain then 0 else 2) +
      (if c.trigger = .levelHigh ∨ c.trigger = .levelLow then 4 else 0) := by
  rcases c with ⟨_ | _ | _ | _, _ | _⟩ <;> rfl

namespace Memory

/-- Registers that are not written keep what they hold. -/
theorem writeAll_of_notMem {contents : List (Address × Byte)} {a : Address}
    (h : a ∉ contents.map Prod.fst) (m : Memory) : m.writeAll contents a = m a := by
  induction contents generalizing m with
  | nil => rfl
  | cons c contents ih =>
    rw [List.map_cons, List.mem_cons, not_or] at h
    exact (ih h.2 _).trans (write_of_ne _ _ h.1)

/-- Registers that are written once hold what was written. -/
theorem writeAll_of_mem {contents : List (Address × Byte)} (h : (contents.map Prod.fst).Nodup)
    (m : Memory) : ∀ c ∈ contents, m.writeAll contents c.1 = c.2 := by
  induction contents generalizing m with
  | nil => simp
  | cons c contents ih =>
    obtain ⟨hc, hrest⟩ := List.nodup_cons.mp h
    intro d hd
    rcases List.mem_cons.mp hd with rfl | hd
    · exact (writeAll_of_notMem hc _).trans (write_same _ _ _)
    · exact ih hrest _ d hd

end Memory

namespace Driver

/-- What a driver of the first bank does unless it is stopped. -/
@[ext]
structure Deed where
  /-- What it asks of the registers. -/
  passes : Memory → Prop := fun _ => True
  /-- What becomes of the registers. -/
  after : Memory → Memory := id
  /-- The registers that it writes, in order. -/
  writes : Memory → List (Address × Byte) := fun _ => []
  /-- What it logs over a bus. -/
  log : Bus → Memory → List Event := fun _ _ => []
  /-- What becomes of the record of the device. -/
  core : Core → Core := id

namespace Deed

/-- Two deeds one after the other. -/
def andThen (p q : Deed) : Deed where
  passes m := p.passes m ∧ q.passes (p.after m)
  after m := q.after (p.after m)
  writes m := p.writes m ++ q.writes (p.after m)
  log bus m := p.log bus m ++ q.log bus (p.after m)
  core c := q.core (p.core c)

/-- Reading a register and going on as what it holds says, with the same record. -/
def reading (a : Address) (p : Byte → Deed) : Deed where
  passes m := (p (m a)).passes m
  after m := (p (m a)).after m
  writes m := (p (m a)).writes m
  log bus m := .access (bus.readAccess a) true :: (p (m a)).log bus m

/-- Failing whatever the registers hold. -/
def refusing : Deed where
  passes _ := False

/-- Reading a register that must not hold some things. -/
def checking (a : Address) (fails : Byte → Prop) : Deed where
  passes m := ¬ fails (m a)
  log bus _ := [.access (bus.readAccess a) true]

/-- Writing a register. -/
def writing (a : Address) (v : Byte) : Deed where
  after m := m.write a v
  writes _ := [(a, v)]
  log bus _ := [.access (bus.writeAccess a v) true]

/-- Reading a register and writing it if that changes it. -/
def updating (a : Address) (mask value : Byte) : Deed where
  after m := m.write a (Bus.merge (m a) mask value)
  writes m :=
    if Bus.merge (m a) mask value = m a then [] else [(a, Bus.merge (m a) mask value)]
  log bus m :=
    .access (bus.readAccess a) true ::
      if Bus.merge (m a) mask value = m a then []
      else [.access (bus.writeAccess a (Bus.merge (m a) mask value)) true]

/-- Switching a rail on. -/
def enabling (r : Rail) : Deed where
  log _ _ := [.switch r true true]
  core c := { c with rails := c.rails.set true r }

/-- Waiting, which logs only that it begins and ends. -/
def waiting (d : Delay) : Deed where
  log _ _ := [.delay d, .woke]

/-- Changing the record and nothing else. -/
def noting (f : Core → Core) : Deed where
  core := f

/-- The deed was done from `s` to `t`, and this is what was logged. -/
structure Done (p : Deed) (s t : System) (events : List Event) : Prop where
  logged : s.Logged t events
  events_eq : events = p.log s.bench.bus s.bench.chip.memory
  writes_eq : Inertial.writes events s.bench.chip = p.writes s.bench.chip.memory
  bus : t.bench.bus = s.bench.bus
  chip : t.bench.chip = (s.bench.withMemory (p.after s.bench.chip.memory)).chip
  core : t.core = p.core s.core

variable {p q : Deed} {s t u : System} {events later : List Event}

/-- What can be reached in the first bank before a deed can be reached after it. -/
theorem Done.inFirstBank (h : p.Done s t events) (hs : s.bench.InFirstBank) :
    t.bench.InFirstBank := by
  unfold Bench.InFirstBank
  rw [h.bus, h.chip]
  exact hs

/-- The registers after a deed are what it makes of those before it. -/
theorem Done.memory (h : p.Done s t events) :
    t.bench.chip.memory = p.after s.bench.chip.memory :=
  congrArg SerialChip.memory h.chip

/-- Deeds that are done one after the other make one deed. -/
theorem Done.andThen (h : p.Done s t events) (h' : q.Done t u later) :
    (p.andThen q).Done s u (events ++ later) where
  logged := h.logged.trans h'.logged
  events_eq := by
    rw [h'.events_eq, h.events_eq, h.bus, h.memory]
    rfl
  writes_eq := by
    rw [writes_append, ← h.logged.chip, h.writes_eq, h'.writes_eq, h.memory]
    rfl
  bus := h'.bus.trans h.bus
  chip := by
    rw [h'.chip, Bench.withMemory, h.chip]
    rfl
  core := by
    rw [h'.core, h.core]
    rfl

/-- A check is a reading that goes on or refuses. -/
theorem checking_eq_reading (a : Address) (fails : Byte → Prop) [DecidablePred fails] :
    checking a fails = reading a fun found => if fails found then refusing else {} := by
  apply Deed.ext
  case core => rfl
  all_goals
    funext
    simp only [checking, reading]
    split <;> simp [refusing, *]

/-- An update is a reading that goes on by writing if there is a change. -/
theorem updating_eq_reading (a : Address) (mask value : Byte) :
    updating a mask value = reading a fun old =>
      if Bus.merge old mask value ≠ old then writing a (Bus.merge old mask value) else {} := by
  apply Deed.ext
  case core => rfl
  all_goals
    funext
    simp only [updating, reading, ite_not]
    split <;> simp [writing, *]

end Deed

/-- In the first bank the driver does the deed just if nothing fails and the registers are as the
deed asks. -/
def Does (x : Driver Unit) (p : Deed) : Prop :=
  ∀ s : System, s.bench.InFirstBank → ∃ t events, t.bench.trace = s.bench.trace ++ events ∧
    ((exec x s = (.ok (), t) ∧ p.Done s t events ∧ (∀ e ∈ events, ¬ e.IsFault) ∧
        p.passes s.bench.chip.memory) ∨
      ∃ error, exec x s = (.error error, t) ∧
        ((∃ e ∈ events, e.IsFault) ∨ ¬ p.passes s.bench.chip.memory))

/-- Drivers one after the other do their deeds one after the other. -/
theorem Does.andThen {x y : Driver Unit} {p q : Deed} (hx : Does x p) (hy : Does y q) :
    Does (do x; y) (p.andThen q) := by
  intro s hs
  obtain ⟨t, events, htrace, ⟨hok, hdone, hsmooth, hpasses⟩ | ⟨error, herror, hwhy⟩⟩ := hx s hs
  · have hexec : exec (do x; y) s = exec y t := by rw [exec_bind, hok]
    obtain ⟨u, later, htrace', ⟨hok', hdone', hsmooth', hpasses'⟩ | ⟨error, herror, hwhy⟩⟩ :=
      hy t (hdone.inFirstBank hs)
    · refine ⟨u, events ++ later, ?_, Or.inl ⟨hexec.trans hok', hdone.andThen hdone', ?_, ?_⟩⟩
      · rw [htrace', htrace, List.append_assoc]
      · intro e he
        rcases List.mem_append.mp he with he | he
        · exact hsmooth e he
        · exact hsmooth' e he
      · rw [hdone.memory] at hpasses'
        exact ⟨hpasses, hpasses'⟩
    · refine ⟨u, events ++ later, ?_, Or.inr ⟨error, hexec.trans herror, ?_⟩⟩
      · rw [htrace', htrace, List.append_assoc]
      · rcases hwhy with ⟨e, he, hfault⟩ | hnot
        · exact Or.inl ⟨e, List.mem_append_right events he, hfault⟩
        · rw [hdone.memory] at hnot
          exact Or.inr fun h => hnot h.2
  · refine ⟨t, events, htrace, Or.inr ⟨error, ?_, ?_⟩⟩
    · rw [exec_bind, herror]
    · exact hwhy.imp_right fun hnot h => hnot h.1

/-! ## Single steps -/

/-- Doing nothing is the deed that asks for nothing and changes nothing. -/
theorem does_pure : Does (pure ()) {} :=
  fun s _ => ⟨s, [], (List.append_nil _).symm,
    Or.inl ⟨rfl, ⟨.refl s, rfl, rfl, rfl, rfl, rfl⟩, by simp, trivial⟩⟩

/-- Failing is the deed that no registers pass. -/
theorem does_throw (error : DriverError) : Does (throw error) .refusing :=
  fun s _ => ⟨s, [], (List.append_nil _).symm, Or.inr ⟨error, rfl, Or.inr id⟩⟩

/-- A wait is always got through, and logs that it begins and ends. -/
theorem does_sleep (d : Delay) : Does (sleep d) (.waiting d) := by
  intro s hs
  have hlogged : s.Logged (Routine.wait d s) [.delay d, .woke] :=
    (System.Logged.log s rfl).trans (.log _ rfl)
  refine ⟨_, _, hlogged.trace, Or.inl ⟨rfl, ?_, by simp [Event.IsFault], trivial⟩⟩
  exact ⟨hlogged, rfl, rfl, rfl, rfl, rfl⟩

/-- A change of the record is always made. -/
theorem does_modifyCore (f : Core → Core) : Does (modifyCore f) (.noting f) := by
  intro s hs
  have hlogged : s.Logged { s with core := f s.core } [] := .idle rfl rfl
  refine ⟨_, _, hlogged.trace, Or.inl ⟨rfl, ?_, by simp, trivial⟩⟩
  exact ⟨hlogged, rfl, rfl, rfl, rfl, rfl⟩

/-- Switching a rail on succeeds unless the rail fails. -/
theorem does_switch (r : Rail) : Does (switch r true) (.enabling r) := by
  intro s hs
  have htrace := s.bench.trace_switch r true
  have hchip : (s.bench.switch r true).2.chip = s.bench.chip := rfl
  have hbus : (s.bench.switch r true).2.bus = s.bench.bus := rfl
  have hexec := exec_switch r true s
  rcases hx : s.bench.switch r true with ⟨_ | _, c⟩ <;> rw [hx] at htrace hchip hbus hexec <;>
    dsimp only at htrace hchip hbus hexec
  · have hfault : (Event.switch r true false).IsFault := ⟨rfl, rfl⟩
    exact ⟨_, _, htrace, Or.inr ⟨_, hexec, Or.inl ⟨_, List.mem_singleton.mpr rfl, hfault⟩⟩⟩
  · refine ⟨_, _, htrace, Or.inl ⟨hexec, ?_, by simp [Event.IsFault], trivial⟩⟩
    exact ⟨⟨htrace, hchip⟩, rfl, rfl, hbus, hchip, rfl⟩

/-- In the first bank a read, a write or a block read logs its access. It succeeds if that does, and
then the log tells what became of the registers. -/
theorem register_cases (op : RegisterOp) (hop : op.IsPlain) (hsingle : op.isSingle = true)
    {s : System} (hs : s.bench.InFirstBank) :
    let x := s.bench.bus.access op
    (∃ t, exec (register op) s = (.ok (op.onMemory s.bench.chip.memory).1, t) ∧
        s.Logged t [.access x true] ∧ t.bench.bus = s.bench.bus ∧
        t.bench.chip = (s.bench.withMemory (op.onMemory s.bench.chip.memory).2).chip ∧
        t.core = s.core) ∨
      ∃ t error, exec (register op) s = (.error error, t) ∧
        t.bench.trace = s.bench.trace ++ [.access x false] := by
  intro x
  have hexec := exec_register_single hop hsingle hs
  have htrace := s.bench.trace_attempt x
  have hchip := s.bench.chip_attempt x
  have hbus := s.bench.bus_attempt x
  dsimp only at hexec
  rcases hx : s.bench.attempt x with ⟨_ | _, c⟩ <;> rw [hx] at htrace hchip hbus <;>
    rw [show s.bench.attempt (s.bench.bus.access op) = _ from hx] at hexec <;>
    dsimp only at htrace hchip hbus hexec
  · exact Or.inr ⟨_, _, hexec, htrace⟩
  · refine Or.inl ⟨_, hexec, ⟨htrace, chip_exec hexec htrace⟩, hbus, ?_, rfl⟩
    rw [Bench.withMemory, hchip]
    rfl

section Register

variable {a : Address} (ha : Register.IsReachable a) (hbank : Register.bankOf a = Register.bank0)
include ha hbank

/-- In the first bank a write that succeeds is the only access and writes the one byte. -/
theorem writes_writeAccess {b : Bench} (hb : b.InFirstBank)
    (hselect : Register.offsetOf a ≠ Register.bankSelect) (v : Byte) :
    writes [.access (b.bus.writeAccess a v) true] b.chip = [(a, v)] := by
  have hfirst : b.AtFirstBank := hb.imp_right And.left
  have h := Bus.writes_accessing hb.inStep ha hselect v
  rw [Bus.accessing, Bus.selecting_of_atFirstBank hfirst hbank] at h
  exact h

/-- Writing a register puts the byte in its place. The bank selector is not for writing. -/
theorem does_write (hselect : Register.offsetOf a ≠ Register.bankSelect) (v : Byte) :
    Does (write a v) (.writing a v) := by
  intro s hs
  obtain ⟨t, hexec, hlogged, hbus, hchip, hcore⟩ | ⟨t, error, hexec, htrace⟩ :=
    register_cases (.write a v) ⟨⟨ha, hselect⟩, hbank⟩ rfl hs
  · refine ⟨t, _, hlogged.trace, Or.inl ⟨hexec, ?_, by simp [Event.IsFault], trivial⟩⟩
    exact ⟨hlogged, rfl, writes_writeAccess ha hbank hs hselect v, hbus, hchip, hcore⟩
  · exact ⟨t, _, htrace, Or.inr ⟨error, hexec, Or.inl ⟨_, List.mem_singleton.mpr rfl, rfl⟩⟩⟩

/-- Reading a register in the first bank logs one access and changes nothing. -/
theorem read_cases {s : System} (hs : s.bench.InFirstBank) :
    let x := s.bench.bus.readAccess a
    (∃ t, exec (read a) s = (.ok (s.bench.chip.memory a), t) ∧
        (Deed.reading a fun _ => {}).Done s t [.access x true]) ∨
      ∃ t error, exec (read a) s = (.error error, t) ∧
        t.bench.trace = s.bench.trace ++ [.access x false] := by
  intro x
  obtain ⟨t, hexec, hlogged, hbus, hchip, hcore⟩ | hfailed :=
    register_cases (.read a) ⟨ha, hbank⟩ rfl hs
  · refine Or.inl ⟨t, hexec, hlogged, rfl, ?_, hbus, hchip, hcore⟩
    obtain ⟨events, hharmless, htrace⟩ := logs_read a s
    rw [show exec (read a) s = _ from hexec, hlogged.trace] at htrace
    rw [show [Event.access x true] = events from List.append_cancel_left htrace]
    exact writes_of_isHarmless hharmless _
  · exact Or.inr hfailed

/-- What follows a reading is what the register asks for, and starts from the same record. -/
theorem does_read_bind {f : Byte → Driver Unit} {p : Byte → Deed} (hf : ∀ v, Does (f v) (p v))
    (hcore : ∀ v, (p v).core = id) : Does (read a >>= f) (.reading a p) := by
  intro s hs
  obtain ⟨t, hread, hdone⟩ | ⟨t, error, hread, htrace⟩ := read_cases ha hbank hs
  · have hmemory : t.bench.chip.memory = s.bench.chip.memory := hdone.memory
    obtain ⟨u, later, htrace, ⟨hok, hrest, hsmooth, hpasses⟩ | ⟨error, herror, hwhy⟩⟩ :=
      hf (s.bench.chip.memory a) t (hdone.inFirstBank hs) <;> rw [hdone.logged.trace] at htrace
    · have hboth := hdone.andThen hrest
      refine ⟨u, _, hboth.logged.trace, Or.inl ⟨?_, ?_, ?_, ?_⟩⟩
      · rw [exec_bind, hread]
        exact hok
      · exact ⟨hboth.logged, hboth.events_eq, hboth.writes_eq, hboth.bus, hboth.chip,
          hboth.core.trans (congrFun (hcore _) _)⟩
      · intro e he
        rcases List.mem_cons.mp he with rfl | he
        · simp [Event.IsFault]
        · exact hsmooth e he
      · rw [hmemory] at hpasses
        exact hpasses
    · refine ⟨u, .access (s.bench.bus.readAccess a) true :: later, ?_, Or.inr ⟨error, ?_, ?_⟩⟩
      · rw [htrace, List.append_assoc]
        rfl
      · rw [exec_bind, hread]
        exact herror
      · rw [hmemory] at hwhy
        exact hwhy.imp_left fun ⟨e, he, hfault⟩ => ⟨e, List.mem_cons_of_mem _ he, hfault⟩
  · refine ⟨t, _, htrace, Or.inr ⟨error, ?_, Or.inl ⟨_, List.mem_singleton.mpr rfl, rfl⟩⟩⟩
    rw [exec_bind, hread]

/-- A check passes just if the register holds nothing that it is not to hold. -/
theorem does_check (fails : Byte → Prop) [DecidablePred fails] (error : Byte → DriverError) :
    Does (check a fails error) (.checking a fails) := by
  rw [Deed.checking_eq_reading]
  refine does_read_bind ha hbank (fun found => ?_) fun found => ?_
  · split
    · exact does_throw _
    · exact does_pure
  · split <;> rfl

/-- An update writes what it makes of the register, unless that is there already. -/
theorem does_update (hselect : Register.offsetOf a ≠ Register.bankSelect) (mask value : Byte) :
    Does (update a mask value) (.updating a mask value) := by
  rw [Deed.updating_eq_reading]
  intro s hs
  rw [exec_update]
  revert s
  refine does_read_bind ha hbank (fun old => ?_) fun old => ?_
  · split
    · exact does_write ha hbank hselect _
    · exact does_pure
  · split <;> rfl

end Register

/-! ## Powering up -/

namespace Deed

/-- Writing what some registers hold under a configuration. -/
def loading (config : DeviceConfig) : List ConfigRegister → Deed
  | [] => {}
  | r :: registers => (writing r.address (config.encode r)).andThen (loading config registers)

/-- Turning on both supplies and waiting until they are stable. -/
def supplying : Deed :=
  (enabling .vdd).andThen <|
  (waiting (.millis Timing.coreSupply)).andThen <|
  (enabling .vddio).andThen <|
  waiting (.micros Timing.interfaceSupply)

/-- Identifying a chip and resetting it. -/
def resetting (chip : Chip) : Deed :=
  (checking Register.whoAmI fun found => found ≠ chip.whoAmI).andThen <|
  (writing Register.deviceConfig Register.softReset).andThen <|
  (waiting (.millis Timing.softReset)).andThen <|
  checking Register.intStatus fun status => StatusRegister.resetDone.get status = 0

/-- Setting up what is left once a chip was reset. -/
def preparing (chip : Chip) (interrupt : PinSetup) : Deed :=
  (updating Register.intfConfig0 Register.bigEndianData 0).andThen <|
  (loading chip.defaultConfig ConfigRegister.all).andThen <|
  (noting fun c => { c with config := chip.defaultConfig }).andThen <|
  (updating Register.tmstConfig Register.timestampMask
    (Register.timestampToRegisters ||| Register.timestampEnable)).andThen <|
  (writing Register.intConfig interrupt.encode).andThen <|
  (updating Register.intConfig1 Register.asyncReset 0).andThen <|
  (updating Register.intSource0 Register.dataReadyToPin1 Register.dataReadyToPin1).andThen <|
  noting fun c => { c with power := { enabled := true, active := true } }

/-- All that a power-up does. -/
def poweringUp (chip : Chip) (interrupt : PinSetup) : Deed :=
  supplying.andThen <| (resetting chip).andThen <| preparing chip interrupt

end Deed

/-- Loading registers writes the encodings of the configuration, one after the other. -/
theorem does_load (config : DeviceConfig) (registers : List ConfigRegister) :
    Does (registers.forM fun r => write r.address (config.encode r))
      (.loading config registers) := by
  induction registers with
  | nil => exact does_pure
  | cons r registers ih =>
    have hr := r.isOrdinary
    exact (does_write hr.isReachable r.bankOf_address hr.not_bankSelect _).andThen ih

/-- Supplying the chip switches both rails on and waits after each. -/
theorem does_supply : Does supply .supplying :=
  (does_switch .vdd).andThen <| (does_sleep _).andThen <|
    (does_switch .vddio).andThen (does_sleep _)

/-- The chip is identified, then reset, and then asked whether it was. -/
theorem does_reset (chip : Chip) : Does (do identify chip; reset) (.resetting chip) := by
  have hwhoAmI : Register.IsReachable Register.whoAmI :=
    Register.IsChecked.isReachable (Or.inl rfl)
  have hstatus : Register.IsReachable Register.intStatus :=
    Register.IsChecked.isReachable (Or.inr rfl)
  have hreset := isOrdinary_deviceConfig
  refine (does_check hwhoAmI (by decide) _ _).andThen ?_
  refine (does_write hreset.isReachable (by decide) hreset.not_bankSelect _).andThen ?_
  exact (does_sleep _).andThen (does_check hstatus (by decide) _ _)

/-- After the reset come the configuration, the interrupt pin and the general settings. -/
theorem does_prepare (chip : Chip) (interrupt : PinSetup) :
    Does (prepare chip interrupt) (.preparing chip interrupt) := by
  have hupdate : ∀ offset mask value : Byte, offset < 0x80 → offset ≠ Register.bankSelect →
      Does (update (Register.address Register.bank0 offset) mask value)
        (.updating (Register.address Register.bank0 offset) mask value) := by
    intro offset mask value hoffset hselect
    refine does_update (Register.isReachable_bank0 hoffset) ?_ ?_ _ _
    · rw [Register.bankOf_address]
      rfl
    · rw [Register.offsetOf_address]
      exact hselect
  have hpin : Does (write Register.intConfig interrupt.encode) (.writing _ interrupt.encode) :=
    does_write (Register.isReachable_bank0 (by decide)) (by decide) (by decide) _
  have hload : prepare chip interrupt = (do
      update Register.intfConfig0 Register.bigEndianData 0
      ConfigRegister.all.forM fun r => write r.address (chip.defaultConfig.encode r)
      modifyCore fun c => { c with config := chip.defaultConfig }
      update Register.tmstConfig Register.timestampMask
        (Register.timestampToRegisters ||| Register.timestampEnable)
      write Register.intConfig interrupt.encode
      update Register.intConfig1 Register.asyncReset 0
      update Register.intSource0 Register.dataReadyToPin1 Register.dataReadyToPin1
      modifyCore fun c => { c with power := { enabled := true, active := true } }) := by
    simp only [prepare, load, armInterrupt, bind_assoc]
  rw [hload]
  refine (hupdate _ _ _ (by decide) (by decide)).andThen ?_
  refine (does_load _ _).andThen ((does_modifyCore _).andThen ?_)
  refine (hupdate _ _ _ (by decide) (by decide)).andThen (hpin.andThen ?_)
  refine (hupdate _ _ _ (by decide) (by decide)).andThen ?_
  exact (hupdate _ _ _ (by decide) (by decide)).andThen (does_modifyCore _)

/-- Supplying and setting up do the deed of a power-up. -/
theorem does_supplyAndSetUp (chip : Chip) (interrupt : PinSetup) :
    Does (supplyAndSetUp chip interrupt) (.poweringUp chip interrupt) := by
  have h := does_supply.andThen ((does_reset chip).andThen (does_prepare chip interrupt))
  rw [bind_assoc, ← supplyAndSetUp_eq] at h
  exact h

/-! ### What becomes of the registers -/

/-- The registers that a power-up sets, in order, with what it leaves in them if they held `m`. -/
def settings (chip : Chip) (interrupt : PinSetup) (m : Memory) : List (Address × Byte) :=
  [(Register.deviceConfig, 0x01),
    (Register.intfConfig0, m Register.intfConfig0 &&& ~~~0x10)] ++
  ConfigRegister.all.map (fun r => (r.address, chip.defaultConfig.encode r)) ++
  [(Register.tmstConfig, (m Register.tmstConfig &&& ~~~0x1F) ||| 0x11),
    (Register.intConfig, interrupt.encode),
    (Register.intConfig1, m Register.intConfig1 &&& ~~~0x10),
    (Register.intSource0, m Register.intSource0 ||| 0x08)]

/-- The registers of which a power-up sets some bits only. -/
def updatedRegisters : List Address :=
  [Register.intfConfig0, Register.tmstConfig, Register.intConfig1, Register.intSource0]

/-- Whether a setting is written: a register of which only some bits are set is not written if it
holds them already. -/
def IsWritten (m : Memory) (c : Address × Byte) : Prop :=
  c.1 ∉ updatedRegisters ∨ c.2 ≠ m c.1

instance (m : Memory) : DecidablePred (IsWritten m) :=
  fun _ => inferInstanceAs (Decidable (_ ∨ _))

/-- The accesses by which a register is set. -/
def settingLog (bus : Bus) (m : Memory) (c : Address × Byte) : List Event :=
  (if c.1 ∈ updatedRegisters then [.access (bus.readAccess c.1) true] else []) ++
    if IsWritten m c then [.access (bus.writeAccess c.1 c.2) true] else []

/-- What a power-up logs over a bus if the registers held `m`: both supplies come on, the chip is
identified, reset and asked whether it was, and then the other registers are set. -/
def powerUpLog (bus : Bus) (chip : Chip) (interrupt : PinSetup) (m : Memory) : List Event :=
  [.switch .vdd true true, .delay (.millis 100), .woke,
    .switch .vddio true true, .delay (.micros 3000), .woke,
    .access (bus.readAccess Register.whoAmI) true,
    .access (bus.writeAccess Register.deviceConfig 0x01) true, .delay (.millis 1), .woke,
    .access (bus.readAccess Register.intStatus) true] ++
  (settings chip interrupt m).tail.flatMap (settingLog bus m)

/-- What the updates of a power-up make of the bytes that they find. -/
theorem merge_settings (v : Byte) :
    Bus.merge v Register.bigEndianData 0 = v &&& ~~~0x10 ∧
    Bus.merge v Register.timestampMask
      (Register.timestampToRegisters ||| Register.timestampEnable) = (v &&& ~~~0x1F) ||| 0x11 ∧
    Bus.merge v Register.asyncReset 0 = v &&& ~~~0x10 ∧
    Bus.merge v Register.dataReadyToPin1 Register.dataReadyToPin1 = v ||| 0x08 := by
  revert v
  decide

/-- What is written of several registers can be told register by register. -/
theorem filter_isWritten (m : Memory) (contents : List (Address × Byte)) :
    contents.filter (IsWritten m) =
      contents.flatMap fun c => if IsWritten m c then [c] else [] := by
  induction contents with
  | nil => rfl
  | cons c contents ih =>
    rw [List.filter_cons, ih, List.flatMap_cons]
    by_cases hc : IsWritten m c <;> simp [hc]

/-- The deed of a power-up in one piece. No step of it reads what an earlier step has written. -/
theorem poweringUp_eq (chip : Chip) (interrupt : PinSetup) :
    Deed.poweringUp chip interrupt = {
      passes := fun m => m Register.whoAmI = chip.whoAmI ∧
        StatusRegister.resetDone.get (m Register.intStatus) ≠ 0
      after := fun m => m.writeAll (settings chip interrupt m)
      writes := fun m => (settings chip interrupt m).filter (IsWritten m)
      log := fun bus m => powerUpLog bus chip interrupt m
      core := fun c =>
        { c with
          config := chip.defaultConfig
          rails := { vdd := true, vddio := true }
          power := { enabled := true, active := true } } } := by
  apply Deed.ext
  case core => rfl
  all_goals
    funext
    simp only [Deed.poweringUp, Deed.supplying, Deed.resetting, Deed.preparing, Deed.andThen,
      Deed.waiting, Deed.enabling, Deed.checking, Deed.writing, Deed.updating, Deed.noting,
      Deed.loading, ConfigRegister.all, merge_settings, filter_isWritten, id, List.nil_append,
      List.append_nil]
    simp (disch := decide) only [Memory.write_of_ne]
  case after => rfl
  all_goals
    simp +decide [powerUpLog, settingLog, settings, IsWritten, updatedRegisters, ConfigRegister.all,
      Register.softReset]

/-- No register is set twice. -/
theorem nodup_settings (chip : Chip) (interrupt : PinSetup) (m : Memory) :
    ((settings chip interrupt m).map Prod.fst).Nodup := by
  have hclosed : (settings chip interrupt m).map Prod.fst = [Register.deviceConfig,
      Register.intfConfig0, Register.pwrMgmt0, Register.gyroConfig0, Register.accelConfig0,
      Register.gyroAccelConfig0, Register.tmstConfig, Register.intConfig, Register.intConfig1,
      Register.intSource0] := rfl
  rw [hclosed]
  decide

/-- A power-up that begins in the first bank succeeds just if no register access fails, no rail
fails to come on, the chip identifies itself as the expected one, and it says that it was reset.

When it does, the registers that it sets hold what it sets them to and all others what they held,
and each of those of which it sets some bits only was written just if that changed it. The record
is that of the default configuration on a device that is on. -/
theorem powerUp_sets_exactly {b : Bench} (hb : b.InFirstBank) (chip : Chip)
    (interrupt : PinSetup) :
    let m := b.chip.memory
    let r := exec (powerUp chip interrupt) { bench := b, core := .fresh chip }
    let after := r.2.bench.chip.memory
    ∃ events, r.2.bench.trace = b.trace ++ events ∧
      (r.1 = .ok () ↔
        (∀ e ∈ events, ¬ e.IsFault) ∧ m Register.whoAmI = chip.whoAmI ∧
          StatusRegister.resetDone.get (m Register.intStatus) ≠ 0) ∧
      (r.1 = .ok () →
        events = powerUpLog b.bus chip interrupt m ∧
        writes events b.chip = (settings chip interrupt m).filter (IsWritten m) ∧
        (∀ c ∈ settings chip interrupt m, after c.1 = c.2) ∧
        (∀ a, a ∉ (settings chip interrupt m).map Prod.fst → after a = m a) ∧
        (after Register.intConfig).toNat =
          (if interrupt.trigger = .risingEdge ∨ interrupt.trigger = .levelHigh then 1 else 0) +
          (if interrupt.openDrain then 0 else 2) +
          (if interrupt.trigger = .levelHigh ∨ interrupt.trigger = .levelLow then 4 else 0) ∧
        r.2.core = {
          chip
          config := chip.defaultConfig
          rails := { vdd := true, vddio := true }
          power := { enabled := true, active := true } }) := by
  intro m r after
  obtain ⟨t, events, htrace, hcases⟩ :=
    does_supplyAndSetUp chip interrupt { bench := b, core := .fresh chip } hb
  have hrun := exec_powerUp chip interrupt { bench := b, core := .fresh chip }
  rw [poweringUp_eq] at hcases
  obtain ⟨hok, hdone, hsmooth, hpasses⟩ | ⟨error, herror, hwhy⟩ := hcases
  · rw [hok] at hrun
    have hr : r = (.ok (), t) := hrun
    have hafter : after = m.writeAll (settings chip interrupt m) :=
      (congrArg (·.2.bench.chip.memory) hr).trans hdone.memory
    have hset := Memory.writeAll_of_mem (nodup_settings chip interrupt m) m
    have hpin : (Register.intConfig, interrupt.encode) ∈ settings chip interrupt m :=
      List.mem_append_right _ (List.mem_cons_of_mem _ List.mem_cons_self)
    refine ⟨events, ?_, iff_of_true (congrArg Prod.fst hr) ⟨hsmooth, hpasses⟩, fun _ => ?_⟩
    · rw [hr]
      exact htrace
    · rw [hr, hafter]
      have hlog := hdone.events_eq
      have hwrites := hdone.writes_eq
      dsimp only at hlog hwrites
      refine ⟨hlog, hwrites, hset, ?_, ?_, hdone.core⟩
      · exact fun a ha => Memory.writeAll_of_notMem ha m
      · rw [hset _ hpin]
        exact interrupt.toNat_encode
  · -- A power-up that fails only adds the release of the rails to the log.
    rw [herror] at hrun
    have hr : r = (.error error, (exec releaseRails t).2) := hrun
    obtain ⟨interface, core, u, hu, hreleased⟩ := exec_releaseRails t
    rw [htrace, List.append_assoc] at hreleased
    have hfails : r.1 ≠ .ok () := by
      rw [hr]
      exact nofun
    refine ⟨events ++ (releasing t.core.rails .vddio interface ++
      releasing t.core.rails .vdd core), ?_, iff_of_false hfails ?_, fun h => absurd h hfails⟩
    · rw [hr, hu]
      exact hreleased
    · rintro ⟨hsmooth, hpasses⟩
      rcases hwhy with ⟨e, he, hfault⟩ | hnot
      · exact hsmooth e (List.mem_append_left _ he) hfault
      · exact hnot hpasses

/-- Two of the registers of which only some bits are set hold them already and are not written, and
the other two are. A register beside them keeps what it holds. -/
theorem powerUp_sets_exactly_past_set_bits :
    let bench : Bench := {
      chip := {
        memory := Memory.zero.writeAll [(Register.whoAmI, 0x42), (Register.intStatus, 0x10),
          (Register.intfConfig0, 0x30), (Register.tmstConfig, 0xE2), (Register.intConfig1, 0x01),
          (Register.intSource0, 0x18), (Register.fifoConfig, 0x40)] }
      supply := .pins }
    let r := exec (powerUp .icm42605 { trigger := .levelHigh })
      { bench, core := .fresh .icm42605 }
    bench.InFirstBank ∧ r.1 = .ok () ∧
      writes r.2.bench.trace bench.chip = [(Register.deviceConfig, 0x01),
        (Register.intfConfig0, 0x20), (Register.pwrMgmt0, 0x20), (Register.gyroConfig0, 0x09),
        (Register.accelConfig0, 0x09), (Register.gyroAccelConfig0, 0x00),
        (Register.tmstConfig, 0xF1), (Register.intConfig, 0x07)] ∧
      r.2.bench.chip.memory Register.fifoConfig = 0x40 := by
  intro bench r
  have hok : r.1 = .ok () := by
    have hsome : r.1.toOption = some () := by decide +kernel
    cases hr : r.1 with
    | ok _ => rfl
    | error e =>
      rw [hr] at hsome
      cases hsome
  obtain ⟨events, htrace, _, hset⟩ :=
    powerUp_sets_exactly (b := bench) (Or.inl rfl) .icm42605 { trigger := .levelHigh }
  obtain ⟨_, hwrites, _, hkept, _⟩ := hset hok
  refine ⟨Or.inl rfl, hok, ?_, ?_⟩
  · rw [show r.2.bench.trace = events from htrace, hwrites]
    decide +kernel
  · exact (hkept Register.fifoConfig (by decide +kernel)).trans (by decide +kernel)

end Driver

end Inertial
