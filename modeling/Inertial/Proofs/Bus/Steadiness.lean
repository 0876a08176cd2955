import Inertial.Proofs.Bus.BankSelection

/-!
# What no access can leave

An operation on registers attempts accesses, lets the chip take part in those that succeed, and
selects the bank of its register if the bus is a serial one. A property of benches that each of
these keeps is steady (`Bench.IsSteady`), and so every operation on a register of that bank keeps it
(`RegisterOp.stays_perform`), whether the bus is in step or not and whatever fails.

A bus that reaches the first bank without a selection is an example (`Bench.AtFirstBank`). Once a
register there was read the bus is like that (`Bus.atFirstBank_of_exec_read`), and operations of the
first bank leave it like that.
-/

set_option autoImplicit false

namespace Inertial

/-- No operation on a register of the bank leaves the benches in which `I` holds. -/
structure Bench.IsSteady (bank : Byte) (I : Bench → Prop) : Prop where
  attempt : ∀ (b : Bench) (x : Access), I b → I (b.attempt x).2
  setChip : ∀ (b : Bench) (chip : SerialChip), I b → I { b with chip }
  select : ∀ b : Bench, I b → I { b with bus := .serial bank }

namespace BusM

variable {I : Bench → Prop} {α β : Type}

/-- Begun where `I` holds, the use of the bus ends where it does. -/
def Stays (I : Bench → Prop) (x : BusM α) : Prop :=
  ∀ b, I b → I (x.exec b).2

/-- A use of the bus that does nothing keeps everything. -/
theorem stays_pure (a : α) : Stays I (pure a) :=
  fun _ hb => hb

/-- A property that both parts keep is kept by one after the other. -/
theorem Stays.bind {x : BusM α} {f : α → BusM β} (hx : Stays I x) (hf : ∀ a, Stays I (f a)) :
    Stays I (x >>= f) := by
  intro b hb
  have hfirst := hx b hb
  rw [exec_bind]
  rcases hexec : x.exec b with ⟨e | a, c⟩
  · rw [hexec] at hfirst
    exact hfirst
  · rw [hexec] at hfirst
    exact hf a c hfirst

/-- Looking at the bench changes nothing. -/
theorem stays_get {f : Bench → BusM α} (hf : ∀ b, Stays I (f b)) :
    Stays I (getThe Bench >>= f) :=
  fun b => hf b b

end BusM

namespace Bus

open BusM

variable {bank : Byte} {I : Bench → Prop} (hI : Bench.IsSteady bank I)
include hI

/-- An attempt keeps what is steady, whether it succeeds or not. -/
theorem stays_attempt (x : Access) (fault : BusFault) : Stays I (attempt x fault) := by
  intro b hb
  have hafter := hI.attempt b x hb
  rw [exec_attempt]
  rcases hx : b.attempt x with ⟨_ | _, c⟩ <;>
    · rw [hx] at hafter
      exact hafter

/-- So does a transaction, whatever becomes of the chip. -/
theorem stays_transact (ops : List SerialOp) : Stays I (transact ops) :=
  (stays_attempt hI _ _).bind fun _ b hb => hI.setChip b _ hb

variable {a : Address} (ha : Register.bankOf a = bank)
include ha

/-- So does selecting the bank that steadiness is about. -/
theorem stays_select (current : Byte) : Stays I (select current a) := by
  unfold select
  dsimp only
  split
  · refine (stays_transact hI _).bind fun _ b hb => ?_
    have hselect := hI.select b hb
    rw [← ha] at hselect
    exact hselect
  · exact stays_pure ()

/-- A serial bus selects the bank and then does one transaction. -/
theorem stays_serial {α : Type} (current : Byte) (ops : List SerialOp) (f : List Byte → α) :
    Stays I (do
      select current a
      let answers ← transact ops
      return f answers) :=
  (stays_select hI ha current).bind fun _ => (stays_transact hI ops).bind fun _ => stays_pure _

/-- So does reading a register of that bank. -/
theorem stays_read : Stays I (read a) := by
  refine stays_get fun b => ?_
  split
  · exact (stays_attempt hI _ _).bind fun _ => stays_get fun _ => stays_pure _
  · exact stays_serial hI ha _ _ _

/-- So does writing one. -/
theorem stays_write (v : Byte) : Stays I (write a v) := by
  refine stays_get fun b => ?_
  split
  · exact (stays_attempt hI _ _).bind fun _ b hb => hI.setChip b _ hb
  · exact stays_serial hI ha _ _ _

/-- So does reading a run of registers that begins there. -/
theorem stays_readBlock (count : Nat) : Stays I (readBlock a count) := by
  refine stays_get fun b => ?_
  split
  · exact (stays_attempt hI _ _).bind fun _ => stays_get fun _ => stays_pure _
  · exact stays_serial hI ha _ _ _

/-- So does updating one. -/
theorem stays_update (mask value : Byte) : Stays I (update a mask value) := by
  refine (stays_read hI ha).bind fun old => ?_
  dsimp only
  split
  · exact stays_write hI ha _
  · exact stays_pure ()

end Bus

/-- Every operation on a register of the bank keeps a steady property. -/
theorem RegisterOp.stays_perform {bank : Byte} {I : Bench → Prop} (hI : Bench.IsSteady bank I)
    (op : RegisterOp) (hop : Register.bankOf op.address = bank) : BusM.Stays I op.perform := by
  cases op with
  | read a => exact Bus.stays_read hI hop
  | write a v => exact Bus.stays_write hI hop v
  | readBlock a count => exact Bus.stays_readBlock hI hop count
  | update a mask value => exact Bus.stays_update hI hop mask value

/-! ## The first bank -/

/-- The bus reaches registers of the first bank without a selection. -/
def Bench.AtFirstBank (b : Bench) : Prop :=
  b.bus = .flat ∨ b.bus = .serial Register.bank0

/-- Operations of the first bank leave a serial bus there. -/
theorem Bench.isSteady_atFirstBank : IsSteady Register.bank0 AtFirstBank where
  attempt := fun _ _ h => h
  setChip := fun _ _ h => h
  select := fun _ _ => Or.inr rfl

namespace Bus

open BusM

/-- After a register of the first bank was read, that bank is selected. -/
theorem atFirstBank_of_exec_read {b c : Bench} {a : Address} {v : Byte}
    (ha : Register.bankOf a = Register.bank0) (h : exec (read a) b = (.ok v, c)) :
    c.AtFirstBank := by
  cases hbus : b.bus with
  | flat =>
    rw [exec_read_flat hbus] at h
    have hafter := b.bus_attempt (.read a)
    rcases hx : b.attempt (.read a) with ⟨_ | _, d⟩
    · rw [hx] at h
      cases h
    · rw [hx] at h hafter
      cases h
      exact Or.inl (hafter.trans hbus)
  | serial current =>
    have htransact : ∀ ops, Stays (fun d => d.AtFirstBank) (transact ops) :=
      stays_transact Bench.isSteady_atFirstBank
    -- Wherever the bus stood, the selection that succeeded has led to the first bank.
    have hselect : ∀ d, exec (select current a) b = (.ok (), d) → d.AtFirstBank := by
      intro d hd
      rw [exec_select, ha] at hd
      split at hd
      · rename_i hbank
        cases hd
        exact Or.inr (hbus.trans (congrArg Bus.serial hbank.symm))
      · split at hd
        · cases hd
          exact Or.inr rfl
        · cases hd
    rw [read, exec_bind, exec_getBench] at h
    dsimp only at h
    rw [hbus] at h
    dsimp only at h
    rw [exec_bind] at h
    rcases hx : exec (select current a) b with ⟨_ | _, d⟩
    · rw [hx] at h
      cases h
    · rw [hx] at h
      have hend := ((htransact [.exchange [readHeader a, 0]]).bind fun answers =>
        stays_pure (answers.getD 1 0)) d (hselect d hx)
      dsimp only at h
      rw [h] at hend
      exact hend

end Bus

end Inertial
