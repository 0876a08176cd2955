import Inertial.Bench.Basic

/-!
# Register access

A bus offers four operations on registers: reading one, writing one, reading a run of them, and
updating some bits of one. An update reads the register and writes it only if it changes.

The flat bus does each read and write as one access. The serial bus knows which bank it selected
last; it first selects another bank if the address lies in one, and it then does one transaction at
the offset. It takes a bank as selected only when that transaction succeeded.

The statements give the effect of each operation of the flat bus on a bench.
-/

set_option autoImplicit false

namespace Inertial

/-- An operation on registers. -/
inductive RegisterOp where
  | read (a : Address)
  | write (a : Address) (v : Byte)
  | readBlock (a : Address) (count : Nat)
  /-- Replaces the bits of a mask by those of a value. -/
  | update (a : Address) (mask value : Byte)
deriving DecidableEq, Repr

/-- What an operation answers when it succeeds. -/
abbrev RegisterOp.Answer : RegisterOp → Type
  | .read _ => Byte
  | .write .. => Unit
  | .readBlock _ count => Vector Byte count
  | .update .. => Unit

/-- A use of the bus on a bench, which stops at its first fault. -/
abbrev BusM := ExceptT BusFault (StateM Bench)

/-- Uses the bus of a bench: the result or the fault, and the bench after it. -/
def BusM.exec {α : Type} (x : BusM α) (b : Bench) : Except BusFault α × Bench :=
  x.run.run b

namespace Bus

/-- The number of flat addresses, after which they start again. -/
def flatLength : Nat := 0x10000

/-- Attempts an access and fails with the given fault. -/
def attempt (x : Access) (fault : BusFault) : BusM Unit := do
  unless ← modifyGetThe Bench (Bench.attempt x) do
    throw fault

/-- One serial transaction; answers every byte that came back. -/
def transact (ops : List SerialOp) : BusM (List Byte) := do
  attempt (.serial ops) .transfer
  modifyGetThe Bench fun b =>
    let (answers, chip) := b.chip.exchange (ops.flatMap SerialOp.sent)
    (answers, { b with chip })

/-- Selects the bank of an address unless it is the current one. -/
def select (current : Byte) (a : Address) : BusM Unit := do
  let bank := Register.bankOf a
  if bank ≠ current then
    let _ ← transact [.write [Register.bankSelect, bank]]
    modifyThe Bench fun b => { b with bus := .serial bank }

/-- The header of a transaction that reads at an address. -/
def readHeader (a : Address) : Byte :=
  Register.offsetOf a ||| readBit

/-- Reads a register. -/
def read (a : Address) : BusM Byte := do
  match (← getThe Bench).bus with
  | .flat =>
    attempt (.read a) (.read a)
    return (← getThe Bench).chip.memory a
  | .serial current =>
    select current a
    let answers ← transact [.exchange [readHeader a, 0]]
    return answers.getD 1 0

/-- Writes a register. -/
def write (a : Address) (v : Byte) : BusM Unit := do
  match (← getThe Bench).bus with
  | .flat =>
    attempt (.write a v) (.write a)
    modifyThe Bench (Bench.poke a v)
  | .serial current =>
    select current a
    let _ ← transact [.write [Register.offsetOf a, v]]

/-- Reads a run of registers. A serial bus leaves it to the chip to move on in its bank. -/
def readBlock (a : Address) (count : Nat) : BusM (Vector Byte count) := do
  match (← getThe Bench).bus with
  | .flat =>
    attempt (.readBlock a count) (.readBlock a)
    let memory := (← getThe Bench).chip.memory
    return Vector.ofFn fun i => memory ((a + i) % flatLength)
  | .serial current =>
    select current a
    let answers ← transact [.write [readHeader a], .read count]
    return Vector.ofFn fun i => answers.getD (i + 1) 0

/-- The byte with the bits of a mask taken from a value. -/
def merge (old mask value : Byte) : Byte :=
  (old &&& ~~~mask) ||| (value &&& mask)

/-- Replaces some bits of a register, and does not write what the register holds already. -/
def update (a : Address) (mask value : Byte) : BusM Unit := do
  let old ← read a
  let new := merge old mask value
  if new ≠ old then
    write a new

end Bus

namespace BusM

variable {α β : Type}

/-- A use of the bus that only answers leaves the bench as it is. -/
@[simp] theorem exec_pure (a : α) (b : Bench) : exec (pure a) b = (.ok a, b) := rfl

/-- Looking at the bench does not change it. -/
theorem exec_getBench (b : Bench) : exec (getThe Bench) b = (.ok b, b) := rfl

/-- The second of two uses begins where the first ended, unless that met a fault. -/
theorem exec_bind (x : BusM α) (f : α → BusM β) (b : Bench) :
    exec (x >>= f) b =
      match exec x b with
      | (.ok a, c) => exec (f a) c
      | (.error e, c) => (.error e, c) := by
  rw [exec, ExceptT.run_bind, StateT.run_bind]
  rcases hx : x.run.run b with ⟨_ | a, c⟩
  · rw [show exec x b = _ from hx]
    rfl
  · rw [show exec x b = _ from hx]
    rfl

end BusM

namespace Bus

open BusM

/-- An attempt that fails is the end with the given fault. -/
theorem exec_attempt (x : Access) (fault : BusFault) (b : Bench) :
    exec (attempt x fault) b =
      match b.attempt x with
      | (true, c) => (.ok (), c)
      | (false, c) => (.error fault, c) := by
  rw [attempt, exec_bind,
    show exec (modifyGetThe Bench (Bench.attempt x)) b = (.ok (b.attempt x).1, (b.attempt x).2)
      from rfl]
  rcases b.attempt x with ⟨_ | _, c⟩ <;> rfl

/-- A flat read gives what the memory holds. -/
theorem exec_read_flat {b : Bench} (h : b.bus = .flat) (a : Address) :
    exec (read a) b =
      match b.attempt (.read a) with
      | (true, c) => (.ok (c.chip.memory a), c)
      | (false, c) => (.error (.read a), c) := by
  rw [read, exec_bind, exec_getBench]
  dsimp only
  rw [h]
  dsimp only
  rw [exec_bind, exec_attempt]
  rcases b.attempt (.read a) with ⟨_ | _, c⟩ <;> rfl

/-- A flat write replaces what the memory holds. -/
theorem exec_write_flat {b : Bench} (h : b.bus = .flat) (a : Address) (v : Byte) :
    exec (write a v) b =
      match b.attempt (.write a v) with
      | (true, c) => (.ok (), c.poke a v)
      | (false, c) => (.error (.write a), c) := by
  rw [write, exec_bind, exec_getBench]
  dsimp only
  rw [h]
  dsimp only
  rw [exec_bind, exec_attempt]
  rcases b.attempt (.write a v) with ⟨_ | _, c⟩ <;> rfl

/-- A flat run gives what the memory holds at consecutive addresses. -/
theorem exec_readBlock_flat {b : Bench} (h : b.bus = .flat) (a : Address) (count : Nat) :
    exec (readBlock a count) b =
      match b.attempt (.readBlock a count) with
      | (true, c) => (.ok (Vector.ofFn fun i => c.chip.memory ((a + i) % flatLength)), c)
      | (false, c) => (.error (.readBlock a), c) := by
  rw [readBlock, exec_bind, exec_getBench]
  dsimp only
  rw [h]
  dsimp only
  rw [exec_bind, exec_attempt]
  rcases b.attempt (.readBlock a count) with ⟨_ | _, c⟩ <;> rfl

/-- Bits outside of the mask are kept. -/
theorem getLsbD_merge (old mask value : Byte) (i : Nat) :
    (merge old mask value).getLsbD i =
      if mask.getLsbD i then value.getLsbD i else old.getLsbD i := by
  rw [merge, BitVec.getLsbD_or, BitVec.getLsbD_and, BitVec.getLsbD_and, BitVec.getLsbD_not]
  rcases Nat.lt_or_ge i 8 with hi | hi
  · cases mask.getLsbD i <;> simp only [hi, decide_true] <;> simp
  · simp [BitVec.getLsbD_of_ge mask i hi, BitVec.getLsbD_of_ge old i hi]

end Bus

/-- Does an operation. -/
def RegisterOp.perform : (op : RegisterOp) → BusM op.Answer
  | .read a => Bus.read a
  | .write a v => Bus.write a v
  | .readBlock a count => Bus.readBlock a count
  | .update a mask value => Bus.update a mask value

end Inertial
