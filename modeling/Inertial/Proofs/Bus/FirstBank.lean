import Inertial.Proofs.Bus.Scripts

/-!
# Operations of the first bank

While the first bank is selected a read, a write or a block read of a register there is a single
access, and all that it does can be said in one equation (`RegisterOp.exec_single`): if the access
succeeds the operation does what it does on plain memory, and if it fails the operation fails as the
access does and changes nothing.
-/

set_option autoImplicit false

namespace Inertial

/-- The access by which a block of registers is read, if its bank is selected. -/
def Bus.blockAccess : Bus → Address → Nat → Access
  | .flat, a, count => .readBlock a count
  | .serial _, a, count => .serial [.write [readHeader a], .read count]

/-- The access that an operation is, if its bank is selected. An update begins with it. -/
def Bus.access (bus : Bus) : RegisterOp → Access
  | .read a => bus.readAccess a
  | .write a v => bus.writeAccess a v
  | .readBlock a count => bus.blockAccess a count
  | .update a _ _ => bus.readAccess a

/-- An operation on a register of the first bank that a serial bus carries out in plain memory. -/
structure RegisterOp.IsPlain (op : RegisterOp) : Prop where
  isRegular : op.IsRegular
  bank : Register.bankOf op.address = Register.bank0

/-- Whether an operation reads or writes and does not do both. -/
def RegisterOp.isSingle : RegisterOp → Bool
  | .update .. => false
  | _ => true

namespace Bench

/-- Registers of the first bank are reached without a selection, on both ends of the bus. -/
def InFirstBank (b : Bench) : Prop :=
  b.bus = .flat ∨ b.bus = .serial Register.bank0 ∧ b.chip.bank = Register.bank0

/-- The bench with other contents of the registers. -/
def withMemory (m : Memory) (b : Bench) : Bench :=
  { b with chip := { b.chip with memory := m } }

/-- A bench in step that has the first bank selected on one end has it on both. -/
theorem inFirstBank_of_inStep {b : Bench} (hin : b.InStep) (hbank : b.AtFirstBank) :
    b.InFirstBank := by
  rcases hbank with hbus | hbus
  · exact Or.inl hbus
  · rw [InStep, hbus] at hin
    exact Or.inr ⟨hbus, hin.symm⟩

/-- In the first bank both ends are in step. -/
theorem InFirstBank.inStep {b : Bench} (hb : b.InFirstBank) : b.InStep := by
  unfold InStep
  rcases hb with hbus | ⟨hbus, hbank⟩
  · rw [hbus]
    trivial
  · rw [hbus]
    exact hbank.symm

end Bench

namespace Bus

open BusM

/-- What a serial bus does at a register of the selected bank is one transaction. -/
theorem exec_serial {α : Type} {current : Byte} {a : Address} (ha : Register.bankOf a = current)
    (ops : List SerialOp) (f : List Byte → α) (b : Bench) :
    exec (do
      select current a
      let answers ← transact ops
      return f answers) b =
      match b.attempt (.serial ops) with
      | (true, c) => (.ok (f (b.chip.exchange (ops.flatMap SerialOp.sent)).1),
          { c with chip := (b.chip.exchange (ops.flatMap SerialOp.sent)).2 })
      | (false, c) => (.error .transfer, c) := by
  have hchip := b.chip_attempt (.serial ops)
  rw [exec_bind, exec_select, if_pos ha]
  dsimp only
  rw [exec_bind, exec_transact]
  rcases hx : b.attempt (.serial ops) with ⟨_ | _, c⟩
  · rfl
  · rw [hx] at hchip
    dsimp only at hchip ⊢
    rw [hchip]
    rfl

/-- An operation looks first at the kind of the bus. -/
theorem exec_byBus {α : Type} {f : Bench → BusM α} (b : Bench) :
    exec (getThe Bench >>= f) b = exec (f b) b := by
  rw [exec_bind]
  rfl

end Bus

namespace RegisterOp

variable {b : Bench} {α : Type}

/-- An attempt leaves the chip as it is, so what is done after it may count on that. -/
theorem attempt_congr {x : Access} {fault : BusFault}
    {f g : Bench → Except BusFault α × Bench} (h : ∀ c, c.chip = b.chip → f c = g c) :
    (match b.attempt x with
      | (true, c) => f c
      | (false, c) => (.error fault, c)) =
    match b.attempt x with
      | (true, c) => g c
      | (false, c) => (.error fault, c) := by
  have hchip := b.chip_attempt x
  rcases hx : b.attempt x with ⟨_ | _, c⟩
  · rfl
  · rw [hx] at hchip
    exact h c hchip

/-- The flat bus does what it says on the memory that it finds. -/
theorem exec_single_flat (hbus : b.bus = .flat) {op : RegisterOp} (hsingle : op.isSingle = true) :
    op.perform.exec b =
      match b.attempt (b.bus.access op) with
      | (true, c) => (.ok (op.onMemory b.chip.memory).1, c.withMemory (op.onMemory b.chip.memory).2)
      | (false, c) => (.error (b.bus.access op).fault, c) := by
  rw [hbus]
  cases op with
  | read a =>
    refine (Bus.exec_read_flat hbus a).trans (attempt_congr ?_)
    intro c hc
    rw [← hc]
    rfl
  | write a v =>
    refine (Bus.exec_write_flat hbus a v).trans (attempt_congr ?_)
    intro c hc
    rw [← hc]
    rfl
  | readBlock a count =>
    refine (Bus.exec_readBlock_flat hbus a count).trans (attempt_congr ?_)
    intro c hc
    rw [← hc]
    rfl
  | update a mask value => cases hsingle

/-- The serial bus does one transaction, which the chip answers from its memory. -/
theorem exec_single_serial {op : RegisterOp} {ops : List SerialOp} {finish : List Byte → op.Answer}
    (hdone : op.IsDoneBy ops finish) (ha : Register.bankOf op.address = Register.bank0)
    (hbank : b.chip.bank = Register.bank0) :
    BusM.exec (do
      Bus.select Register.bank0 op.address
      let answers ← Bus.transact ops
      return finish answers) b =
      match b.attempt (.serial ops) with
      | (true, c) => (.ok (op.onMemory b.chip.memory).1, c.withMemory (op.onMemory b.chip.memory).2)
      | (false, c) => (.error .transfer, c) := by
  obtain ⟨hanswer, hafter⟩ := hdone b.chip (hbank.trans ha.symm)
  rw [Bus.exec_serial ha]
  refine attempt_congr fun c hc => ?_
  rw [hanswer, hafter, ← hc]
  rfl

/-- In the first bank a read, a write or a block read is one access. -/
theorem exec_single (hb : b.InFirstBank) {op : RegisterOp} (hop : op.IsPlain)
    (hsingle : op.isSingle = true) :
    op.perform.exec b =
      match b.attempt (b.bus.access op) with
      | (true, c) => (.ok (op.onMemory b.chip.memory).1, c.withMemory (op.onMemory b.chip.memory).2)
      | (false, c) => (.error (b.bus.access op).fault, c) := by
  rcases hb with hbus | ⟨hbus, hbank⟩
  · exact exec_single_flat hbus hsingle
  · obtain ⟨hregular, ha⟩ := hop
    rw [hbus]
    cases op with
    | read a =>
      refine Eq.trans ?_ (exec_single_serial (isDoneBy_read hregular) ha hbank)
      change (Bus.read a).exec b = _
      rw [Bus.read, Bus.exec_byBus, hbus]
      rfl
    | write a v =>
      refine Eq.trans ?_ (exec_single_serial (isDoneBy_write hregular.1 hregular.2 v) ha hbank)
      change (Bus.write a v).exec b = _
      rw [Bus.write, Bus.exec_byBus, hbus]
      rfl
    | readBlock a count =>
      refine Eq.trans ?_ (exec_single_serial (isDoneBy_readBlock hregular.1 hregular.2) ha hbank)
      change (Bus.readBlock a count).exec b = _
      rw [Bus.readBlock, Bus.exec_byBus, hbus]
      rfl
    | update a mask value => cases hsingle

end RegisterOp

end Inertial
