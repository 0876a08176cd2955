import Inertial.Proofs.Bus.FirstBank

/-!
# The serial counterpart of a flat bus

A flat access of a register in the first bank has one serial transaction that does the same
(`Access.overSerial`). Two benches are twins if one has the flat bus and the other the serial one,
the registers hold the same, the same accesses and switches fail and the same edges come, and the
trace of the second is that of the first with each access replaced by its transaction
(`Bench.Twins`).

Operations on registers of the first bank leave twins, with the same answers; of a fault the serial
bus says less (`Bench.Twins.register`).
-/

set_option autoImplicit false

namespace Inertial

/-- The transaction that does over a serial bus in the first bank what the access does. -/
def Access.overSerial : Access → Access
  | .read a => .serial [.exchange [Bus.readHeader a, 0]]
  | .write a v => .serial [.write [Register.offsetOf a, v]]
  | .readBlock a count => .serial [.write [Bus.readHeader a], .read count]
  | .serial ops => .serial ops

/-- The access goes by flat address to a register of the first bank, at an offset that leaves the
top bit of a header free, and it does not write the bank selector. -/
def Access.IsPlain : Access → Prop
  | .read a | .readBlock a _ => a < 0x80
  | .write a _ => a < 0x80 ∧ Register.offsetOf a ≠ Register.bankSelect
  | .serial _ => False

/-- The event as it is logged by a serial bus. -/
def Event.overSerial : Event → Event
  | .access x ok => .access x.overSerial ok
  | e => e

/-- The event is no access or one of a register of the first bank. -/
def Event.IsPlain : Event → Prop
  | .access x _ => x.IsPlain
  | _ => True

/-- The fault as a serial bus reports it. -/
def BusFault.overSerial (_ : BusFault) : BusFault := .transfer

/-- A transaction that does what such an access does is no selection. -/
theorem Event.isSelection_overSerial {e : Event} (he : e.IsPlain) :
    e.overSerial.isSelection = false := by
  cases e with
  | access x ok =>
    cases x with
    | write a v =>
      change (Register.offsetOf a == Register.bankSelect) = false
      simpa using he.2
    | serial ops => exact he.elim
    | _ => rfl
  | _ => rfl

/-- The registers of the first bank that the serial bus reaches come first. -/
theorem Register.lt_of_reachable {a : Address} (ha : IsReachable a) (hbank : bankOf a = bank0) :
    a < 0x80 := by
  have hbase : address bank0 (offsetOf a) = (offsetOf a).toNat := by simp [address, bank0]
  calc
    a = address (bankOf a) (offsetOf a) := ha.address_eq.symm
    _ = (offsetOf a).toNat := by rw [hbank, hbase]
    _ < 0x80 := ha.offset_lt

/-- The access of an operation on a register of the first bank is one of that register. -/
theorem RegisterOp.IsPlain.access {op : RegisterOp} (hop : op.IsPlain) :
    (Bus.flat.access op).IsPlain := by
  obtain ⟨hregular, hbank⟩ := hop
  cases op with
  | read a => exact Register.lt_of_reachable hregular hbank
  | write a v => exact ⟨Register.lt_of_reachable hregular.1 hbank, hregular.2⟩
  | readBlock a count => exact Register.lt_of_reachable hregular.1 hbank
  | update a mask value => exact Register.lt_of_reachable hregular.1 hbank

namespace Bench

/-- The first bench has the flat bus, the second the serial one, and otherwise they are the same. On
neither has a bank been selected. -/
structure Twins (b c : Bench) : Prop where
  flat : b.bus = .flat
  serial : c.bus = .serial Register.bank0
  bank : c.chip.bank = Register.bank0
  memory : c.chip.memory = b.chip.memory
  supply : c.supply = b.supply
  pins : c.pins = b.pins
  failsAccess : ∀ k x, c.plan.failsAccess k x.overSerial = b.plan.failsAccess k x
  failsSwitch : c.plan.failsSwitch = b.plan.failsSwitch
  edges : c.plan.edges = b.plan.edges
  accesses : c.accesses = b.accesses
  switches : c.switches = b.switches
  inbox : c.inbox = b.inbox
  trace : c.trace = b.trace.map Event.overSerial
  plain : ∀ e ∈ b.trace, e.IsPlain

namespace Twins

variable {b c : Bench}

/-- Both twins are in the first bank. -/
theorem inFirstBank (h : b.Twins c) : b.InFirstBank ∧ c.InFirstBank :=
  ⟨Or.inl h.flat, Or.inr ⟨h.serial, h.bank⟩⟩

/-- Both log the same event. -/
theorem log (h : b.Twins c) {e : Event} (he : e.IsPlain) :
    (b.log e).Twins (c.log e.overSerial) :=
  { h with
    trace := by simp [Bench.log, h.trace]
    plain := by
      intro e' he'
      rcases List.mem_append.mp he' with he' | he'
      · exact h.plain e' he'
      · rw [List.mem_singleton.mp he']
        exact he }

/-- An access and its transaction either both succeed or both fail. -/
theorem attempt (h : b.Twins c) {x : Access} (hx : x.IsPlain) :
    (c.attempt x.overSerial).1 = (b.attempt x).1 ∧
      (b.attempt x).2.Twins (c.attempt x.overSerial).2 := by
  have hok : (c.attempt x.overSerial).1 = (b.attempt x).1 := by
    simp [Bench.attempt, h.failsAccess, h.accesses]
  have hevent : Event.access x.overSerial (c.attempt x.overSerial).1 =
      (Event.access x (b.attempt x).1).overSerial := congrArg (Event.access _) hok
  have hlog := h.log (e := .access x (b.attempt x).1) hx
  rw [← hevent] at hlog
  refine ⟨hok, ?_⟩
  exact
    { hlog with
      accesses := congrArg (· + 1) h.accesses
      inbox := by simp [Bench.attempt, deliver, Bench.log, h.inbox, h.edges, h.accesses] }

/-- A rail is switched on both or on neither. -/
theorem switch (h : b.Twins c) (r : Rail) (on : Bool) :
    (c.switch r on).1 = (b.switch r on).1 ∧ (b.switch r on).2.Twins (c.switch r on).2 := by
  have hok : (c.switch r on).1 = (b.switch r on).1 := by
    rw [Bench.switch_fst, Bench.switch_fst, h.supply, h.failsSwitch, h.switches]
  have hlog := h.log (e := .switch r on (b.switch r on).1) trivial
  rw [show Event.overSerial (.switch r on (b.switch r on).1) = .switch r on (c.switch r on).1 from
    congrArg (Event.switch r on) hok.symm] at hlog
  refine ⟨hok, ?_⟩
  exact
    { hlog with
      switches := congrArg (· + 1) h.switches
      pins := by
        rw [Bench.pins_switch, Bench.pins_switch, h.supply, h.failsSwitch, h.switches, h.pins] }

/-- Twins stay twins if the line fires for both. -/
theorem raise (h : b.Twins c) (now : Int64) : (b.raise now).Twins (c.raise now) :=
  { h with inbox := congrArg (Inbox.raise now) h.inbox }

/-- Twins stay twins with the same contents of the registers. -/
theorem withMemory (h : b.Twins c) (m : Memory) : (b.withMemory m).Twins (c.withMemory m) :=
  { h with memory := rfl }

/-- The transaction of an operation is that of its access. -/
theorem access_eq (h : b.Twins c) (op : RegisterOp) :
    c.bus.access op = (b.bus.access op).overSerial := by
  rw [h.flat, h.serial]
  cases op <;> rfl

/-- A read, a write or a block read has the same answer on both, up to what a fault says. -/
theorem register_single (h : b.Twins c) {op : RegisterOp} (hop : op.IsPlain)
    (hsingle : op.isSingle = true) :
    (op.perform.exec c).1 = (op.perform.exec b).1.mapError BusFault.overSerial ∧
      (op.perform.exec b).2.Twins (op.perform.exec c).2 := by
  have hplain : (b.bus.access op).IsPlain := by
    rw [h.flat]
    exact hop.access
  obtain ⟨hok, hafter⟩ := h.attempt hplain
  rw [op.exec_single h.inFirstBank.1 hop hsingle, op.exec_single h.inFirstBank.2 hop hsingle,
    h.memory, h.access_eq]
  rcases hb : b.attempt (b.bus.access op) with ⟨ok, b'⟩
  rcases hc : c.attempt (b.bus.access op).overSerial with ⟨ok', c'⟩
  rw [hb, hc] at hok hafter
  dsimp only at hok hafter
  subst hok
  cases ok' with
  | false =>
    refine ⟨?_, hafter⟩
    rw [h.flat]
    cases op <;> rfl
  | true => exact ⟨rfl, hafter.withMemory _⟩

/-- An operation of the first bank has the same answer on both, up to what a fault says. -/
theorem register (h : b.Twins c) {op : RegisterOp} (hop : op.IsPlain) :
    (op.perform.exec c).1 = (op.perform.exec b).1.mapError BusFault.overSerial ∧
      (op.perform.exec b).2.Twins (op.perform.exec c).2 := by
  cases op with
  | update a mask value =>
    obtain ⟨⟨hreach, hselect⟩, hbank⟩ := hop
    have hread : (RegisterOp.read a).IsPlain := ⟨hreach, hbank⟩
    have hwrite : ∀ v, (RegisterOp.write a v).IsPlain := fun v => ⟨⟨hreach, hselect⟩, hbank⟩
    obtain ⟨hanswer, hafter⟩ := h.register_single hread rfl
    rw [RegisterOp.perform] at hanswer hafter
    rw [RegisterOp.perform, Bus.update, BusM.exec_bind, BusM.exec_bind]
    rcases hb : (Bus.read a).exec b with ⟨fault | old, b'⟩ <;>
      rcases hc : (Bus.read a).exec c with ⟨fault' | old', c'⟩ <;> rw [hb, hc] at hanswer hafter
    · exact ⟨congrArg Except.error (Except.error.inj hanswer), hafter⟩
    · cases hanswer
    · cases hanswer
    · obtain rfl : old' = old := Except.ok.inj hanswer
      dsimp only at hafter ⊢
      split
      · exact hafter.register_single (hwrite _) rfl
      · exact ⟨rfl, hafter⟩
  | _ => exact h.register_single hop rfl

end Twins

end Bench

end Inertial
