import Inertial.Proofs.Driver.Blindness
import Inertial.Proofs.Driver.FirstFailure
import Mathlib.Algebra.Order.Ring.Int

/-!
# What a sample holds

A sample holds six numbers. Each is the two's complement of two data registers, the low byte first,
and the registers of the accelerometer come before those of the gyroscope (`Sample.Shows`).

While the first bank is selected the status register is read in one access, and the data registers
in one more if the status says that new data is there. What that gives, and where it leaves the
device, is one equation (`Driver.exec_readData_eq`). It changes neither the record nor a register,
whatever fails (`Driver.exists_run_takeSample`).
-/

set_option autoImplicit false

namespace Inertial

/-! ## Numbers in memory -/

/-- The number that two registers stand for in two's complement, the low byte first. -/
def Memory.signed (m : Memory) (a : Address) : Int :=
  let v := (m a).toNat + 256 * (m (a + 1)).toNat
  if v < 2 ^ 15 then v else v - 2 ^ 16

/-- A channel is the number that its two registers stand for. -/
theorem toInt_channelOf (m : Memory) (a : Address) :
    (channelOf (m a) (m (a + 1))).toInt = m.signed a := by
  have hlow := (m a).isLt
  have hhigh := (m (a + 1)).isLt
  have hvalue : LittleEndian.toNat [m a, m (a + 1)] = (m a).toNat + 256 * (m (a + 1)).toNat := by
    simp [LittleEndian.toNat]
  have hlt : (m a).toNat + 256 * (m (a + 1)).toNat < 2 ^ 16 := by omega
  unfold channelOf Memory.signed
  rw [hvalue, Int16.toInt_ofBitVec, BitVec.toInt_eq_toNat_cond, BitVec.toNat_ofNat,
    Nat.mod_eq_of_lt hlt]
  dsimp only
  split <;> split <;> omega

/-- What the data registers hold. -/
def RawBlock.ofMemory (m : Memory) : RawBlock :=
  Vector.ofFn fun i => m (Register.accelData + i)

/-- The sample that is taken at a time if the registers hold the given contents. -/
def Sample.ofMemory (m : Memory) (time : Int64) : Sample :=
  .ofRaw (.ofMemory m) time

/-- The sample holds the numbers that the data registers stand for. -/
structure Sample.Shows (x : Sample) (m : Memory) : Prop where
  channels : ∀ (k : Nat) (hk : k < 6), (x.channels[k]).toInt = m.signed (Register.accelData + 2 * k)
  accel : ∀ (k : Nat) (hk : k < 3), (x.accel[k]).toInt = m.signed (Register.accelData + 2 * k)
  gyro : ∀ (k : Nat) (hk : k < 3), (x.gyro[k]).toInt = m.signed (Register.gyroData + 2 * k)

/-- Each byte of the block is what its register holds. -/
theorem RawBlock.get_ofMemory (m : Memory) (k : Fin RawBlock.size) :
    (RawBlock.ofMemory m).get k = m (Register.accelData + k) := by
  simp only [ofMemory, Vector.get, Vector.toArray_ofFn, Array.getElem_ofFn]
  rfl

/-- A sample of what the registers hold shows it, in channels and by sensor. -/
theorem Sample.shows_ofMemory (m : Memory) (time : Int64) : (Sample.ofMemory m time).Shows m := by
  have hchannels : ∀ (k : Nat) (hk : k < 6), ((Sample.ofMemory m time).channels[k]).toInt =
      m.signed (Register.accelData + 2 * k) := by
    intro k hk
    rw [← toInt_channelOf]
    simp only [ofMemory, ofRaw, RawBlock.channels, Vector.getElem_ofFn, RawBlock.get_ofMemory,
      Nat.add_assoc]
  refine ⟨hchannels, ?_, ?_⟩
  · intro k hk
    have hlt : k < 6 := by omega
    have haccel : (Sample.ofMemory m time).accel[k] = (Sample.ofMemory m time).channels[k] := by
      simp [accel, accelOf, Vector.get]
    rw [haccel]
    exact hchannels k hlt
  · intro k hk
    have hlt : k + 3 < 6 := by omega
    have hgyro : (Sample.ofMemory m time).gyro[k] = (Sample.ofMemory m time).channels[k + 3] := by
      simp [gyro, gyroOf, Vector.get]
    have hplace : Register.accelData + 2 * (k + 3) = Register.gyroData + 2 * k := by
      rw [show Register.gyroData = Register.accelData + 6 from rfl, Nat.mul_add, Nat.add_assoc,
        Nat.add_comm 6]
    rw [hgyro, ← hplace]
    exact hchannels (k + 3) hlt

/-! ## Reading it -/

/-- The system with other contents of the registers. -/
def System.withMemory (m : Memory) (s : System) : System :=
  { s with bench := s.bench.withMemory m }

namespace Driver

variable {s : System}

/-- An operation of the first bank that changes no register is one access. -/
theorem exec_register_reading (hs : s.bench.InFirstBank) (op : RegisterOp) (hop : op.IsPlain)
    (hsingle : op.isSingle = true)
    (hkeeps : (op.onMemory s.bench.chip.memory).2 = s.bench.chip.memory) :
    exec (register op) s =
      match s.bench.attempt (s.bench.bus.access op) with
      | (true, c) => (.ok (op.onMemory s.bench.chip.memory).1, { s with bench := c })
      | (false, c) => (.error (.bus (s.bench.bus.access op).fault), { s with bench := c }) := by
  have hexec := exec_register_single hop hsingle hs
  have hchip := s.bench.chip_attempt (s.bench.bus.access op)
  rcases hx : s.bench.attempt (s.bench.bus.access op) with ⟨_ | _, c⟩ <;> rw [hx] at hexec hchip
  · exact hexec
  · dsimp only at hexec hchip ⊢
    rw [hexec, hkeeps, ← hchip]
    rfl

/-- Reading a register of the first bank is one access and answers what it holds. -/
theorem exec_read_eq (hs : s.bench.InFirstBank) {a : Address} (ha : Register.IsReachable a)
    (hbank : Register.bankOf a = Register.bank0) :
    exec (read a) s =
      match s.bench.attempt (s.bench.bus.readAccess a) with
      | (true, c) => (.ok (s.bench.chip.memory a), { s with bench := c })
      | (false, c) => (.error (.bus (s.bench.bus.readAccess a).fault), { s with bench := c }) :=
  exec_register_reading hs (.read a) ⟨ha, hbank⟩ rfl rfl

/-- Reading the data registers is one access and answers what they hold. -/
theorem exec_readBlock_data (hs : s.bench.InFirstBank) :
    let data := s.bench.bus.blockAccess Register.accelData RawBlock.size
    exec (readBlock Register.accelData RawBlock.size) s =
      match s.bench.attempt data with
      | (true, c) => (.ok (RawBlock.ofMemory s.bench.chip.memory), { s with bench := c })
      | (false, c) => (.error (.bus data.fault), { s with bench := c }) := by
  have hplain : (RegisterOp.readBlock Register.accelData RawBlock.size).IsPlain :=
    ⟨⟨Register.isReachable_bank0 (by decide), by decide⟩, by decide⟩
  have hblock : ((RegisterOp.readBlock Register.accelData RawBlock.size).onMemory
      s.bench.chip.memory).1 = RawBlock.ofMemory s.bench.chip.memory := by
    refine congrArg Vector.ofFn (funext fun k => congrArg s.bench.chip.memory ?_)
    have hend : Register.accelData + RawBlock.size ≤ Bus.flatLength := by decide
    exact Nat.mod_eq_of_lt (Nat.lt_of_lt_of_le (Nat.add_lt_add_left k.isLt _) hend)
  intro data
  rw [← hblock]
  exact exec_register_reading hs _ hplain rfl rfl

/-- The status register is read first, and the data registers if it says that new data is there. -/
theorem exec_readData_eq (hs : s.bench.InFirstBank) :
    let status := s.bench.bus.readAccess Register.intStatus
    let data := s.bench.bus.blockAccess Register.accelData RawBlock.size
    exec readData s =
      match s.bench.attempt status with
      | (false, c) => (.error (.bus status.fault), { s with bench := c })
      | (true, c) =>
        if StatusRegister.dataReady.get (s.bench.chip.memory Register.intStatus) = 0 then
          (.ok none, { s with bench := c })
        else
          match c.attempt data with
          | (true, d) =>
            (.ok (some (.ofMemory s.bench.chip.memory)), { s with bench := d })
          | (false, d) => (.error (.bus data.fault), { s with bench := d }) := by
  intro status data
  have hreach : Register.IsReachable Register.intStatus := Register.isReachable_bank0 (by decide)
  have hread := exec_read_eq hs hreach (by decide)
  have hfirst : (s.bench.attempt status).2.InFirstBank := hs
  have hchip := s.bench.chip_attempt status
  have hbus := s.bench.bus_attempt status
  rw [readData, exec_bind, hread]
  rcases hx : s.bench.attempt status with ⟨ok, c⟩
  rw [hx] at hfirst hchip hbus
  cases ok with
  | false => rfl
  | true =>
    dsimp only at hfirst hchip hbus ⊢
    by_cases hclear : StatusRegister.dataReady.get (s.bench.chip.memory Register.intStatus) = 0
    · rw [if_pos hclear, if_pos hclear]
      rfl
    · have hblock := exec_readBlock_data (s := { s with bench := c }) hfirst
      dsimp only at hblock
      rw [if_neg hclear, if_neg hclear, exec_bind, hblock, hbus, hchip]
      rcases c.attempt data with ⟨_ | _, d⟩ <;> rfl

end Driver

/-! ## Taking it -/

/-- What is logged while a sample is taken from new data: the status register is read, then the data
registers, and the sample is pushed if it is wanted. -/
def Bus.sampleLog (bus : Bus) (wanted : Bool) (x : Sample) : List Event :=
  [.access (bus.readAccess Register.intStatus) true,
    .access (bus.blockAccess Register.accelData RawBlock.size) true] ++
    if wanted then [.push x] else []

/-- What taking a sample with a time can log. The status register is attempted once, and first. If
it could be read the data registers may be attempted, once, and if they could be read too a sample
with the time may be pushed. -/
inductive Bus.Samples (bus : Bus) (time : Int64) : List Event → Prop where
  | status (ok : Bool) : Samples bus time [.access (bus.readAccess Register.intStatus) ok]
  | data (ok : Bool) : Samples bus time
      [.access (bus.readAccess Register.intStatus) true,
        .access (bus.blockAccess Register.accelData RawBlock.size) ok]
  | push {x : Sample} (htime : x.timestamp = time) : Samples bus time (bus.sampleLog true x)

namespace Driver

variable {s : System}

/-- From `s` to `t` the given events were logged, and neither the record nor the chip changed. -/
structure Idles (s t : System) (events : List Event) : Prop where
  trace : t.bench.trace = s.bench.trace ++ events
  chip : t.bench.chip = s.bench.chip
  bus : t.bench.bus = s.bench.bus
  core : t.core = s.core

/-- Nothing happens while nothing is done. -/
theorem Idles.refl (s : System) : Idles s s [] where
  trace := (List.append_nil _).symm
  chip := rfl
  bus := rfl
  core := rfl

/-- Two stretches that change nothing make one. -/
theorem Idles.trans {s t u : System} {events later : List Event} (h : Idles s t events)
    (h' : Idles t u later) : Idles s u (events ++ later) where
  trace := by rw [h'.trace, h.trace, List.append_assoc]
  chip := h'.chip.trans h.chip
  bus := h'.bus.trans h.bus
  core := h'.core.trans h.core

/-- An attempt is logged and changes neither the record nor the chip. -/
theorem idles_attempt (s : System) (x : Access) :
    Idles s { s with bench := (s.bench.attempt x).2 } [.access x (s.bench.attempt x).1] where
  trace := s.bench.trace_attempt x
  chip := s.bench.chip_attempt x
  bus := s.bench.bus_attempt x
  core := rfl

/-- What comes to the inbox is neither logged nor noted. -/
theorem idles_withInbox (s : System) (i : Inbox) : Idles s (s.withInbox i) [] where
  trace := (List.append_nil _).symm
  chip := rfl
  bus := rfl
  core := rfl

/-- Logging changes nothing else. -/
theorem idles_log (s : System) (e : Event) : Idles s (s.log e) [e] where
  trace := rfl
  chip := rfl
  bus := rfl
  core := rfl

/-- The accesses of a sample: the status is read first, and then the data if there is any. -/
theorem exec_readData {s : System} (hs : s.bench.InFirstBank) :
    let m := s.bench.chip.memory
    let status := s.bench.bus.readAccess Register.intStatus
    let data := s.bench.bus.blockAccess Register.accelData RawBlock.size
    let isClear := StatusRegister.dataReady.get (m Register.intStatus) = 0
    ∃ t events, Idles s t events ∧
      ((exec readData s = (.error (.bus status.fault), t) ∧ events = [.access status false]) ∨
      (exec readData s = (.ok none, t) ∧ isClear ∧ events = [.access status true]) ∨
      (exec readData s = (.error (.bus data.fault), t) ∧ ¬ isClear ∧
        events = [.access status true, .access data false]) ∨
      (exec readData s = (.ok (some (.ofMemory m)), t) ∧ ¬ isClear ∧
        events = [.access status true, .access data true])) := by
  intro m status data isClear
  have h := exec_readData_eq hs
  have hfirst := idles_attempt s status
  dsimp only at h
  rcases hx : s.bench.attempt status with ⟨ok, c⟩
  rw [hx] at hfirst
  rw [show s.bench.attempt (s.bench.bus.readAccess Register.intStatus) = _ from hx] at h
  cases ok with
  | false => exact ⟨_, _, hfirst, Or.inl ⟨h, rfl⟩⟩
  | true =>
    by_cases hclear : isClear
    · refine ⟨_, _, hfirst, Or.inr (Or.inl ⟨h.trans ?_, hclear, rfl⟩)⟩
      exact if_pos hclear
    · have hsecond := idles_attempt { s with bench := c } data
      have hrest := h.trans (if_neg hclear)
      rcases hy : c.attempt data with ⟨ok, d⟩
      rw [show ({ s with bench := c } : System).bench.attempt data = _ from hy] at hsecond
      rw [show c.attempt (s.bench.bus.blockAccess Register.accelData RawBlock.size) = _ from hy]
        at hrest
      cases ok with
      | false => exact ⟨_, _, hfirst.trans hsecond, Or.inr (Or.inr (Or.inl ⟨hrest, hclear, rfl⟩))⟩
      | true => exact ⟨_, _, hfirst.trans hsecond, Or.inr (Or.inr (Or.inr ⟨hrest, hclear, rfl⟩))⟩

/-- Taking a sample changes neither the record nor a register, and it reads the status register once
and the data registers at most once. If there is new data and no access fails, the sample is what
the registers hold, and the accesses and the sample are all that is logged. -/
theorem exists_run_takeSample {σ : Type} [Sink σ] (time : Int64) (sink : σ) {s : System}
    (hs : s.bench.InFirstBank) :
    let m := s.bench.chip.memory
    let x := Sample.ofMemory m time
    ∃ r t events, (takeSample time sink).run s = (r, t) ∧ Idles s t events ∧
      s.bench.bus.Samples time events ∧
      ((∀ e ∈ events, e.succeeded = true) →
        StatusRegister.dataReady.get (m Register.intStatus) ≠ 0 →
        r.1 = some x ∧ events = s.bench.bus.sampleLog (Sink.isEnabled sink) x) := by
  intro m x
  have hrun := run_takeSample time sink s
  obtain ⟨t, events, hidles, h⟩ := exec_readData hs
  have hfailed : ∀ (y : Access) (before : List Event),
      ¬ ∀ e ∈ before ++ [.access y false], e.succeeded = true := by
    intro y before hall
    exact absurd (hall (.access y false) (by simp)) (by simp [Event.succeeded])
  -- The four ways in which reading the data can end; only the last one has a sample.
  obtain ⟨hexec, rfl⟩ | ⟨hexec, hclear, rfl⟩ | ⟨hexec, _, rfl⟩ | ⟨hexec, hready, rfl⟩ := h <;>
    rw [hexec] at hrun
  · exact ⟨_, t, _, hrun, hidles, .status false, fun hall => absurd hall (hfailed _ [])⟩
  · exact ⟨_, t, _, hrun, hidles, .status true, fun _ hready => absurd hclear hready⟩
  · exact ⟨_, t, _, hrun, hidles, .data false, fun hall => absurd hall (hfailed _ [_])⟩
  · obtain ⟨i, sink', hrun⟩ := hrun
    by_cases hwanted : Sink.isEnabled sink = true
    · rw [if_pos hwanted] at hrun
      have hpush := (hidles.trans (idles_log t (.push x))).trans (idles_withInbox _ i)
      refine ⟨_, _, _, hrun, hpush, .push rfl, ?_⟩
      intro _ _
      rw [hwanted]
      exact ⟨rfl, rfl⟩
    · rw [if_neg hwanted] at hrun
      refine ⟨_, _, _, hrun, hidles.trans (idles_withInbox t i), .data true, ?_⟩
      intro _ _
      rw [eq_false_of_ne_true hwanted]
      exact ⟨rfl, rfl⟩

end Driver

end Inertial
