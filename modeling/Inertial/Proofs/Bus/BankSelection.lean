import Inertial.Proofs.Bus.PlainMemory

/-!
# The serial bus refines plain memory

The chip keeps the selected bank to itself, and the serial bus only remembers what it selected last.
That the two agree is the invariant `Bench.InStep`: a selection that fails changes neither, and one
that succeeds changes both. While it holds, an offset reaches the register that the flat address
names, and every operation refines plain memory (`RegisterOp.refines_of_inStep`).

The main statement, `RegisterOp.serial_refines_plain_memory`, is about operations one after another
on a fresh serial bus, whatever transactions fail.
-/

set_option autoImplicit false

namespace Inertial

namespace Register

/-- An address that a serial bus can reach: a bank that the selector can hold, and an offset that
leaves the top bit of a header free. -/
def IsReachable (a : Address) : Prop :=
  ∃ bank offset : Byte, bank ≤ bank4 ∧ offset < 0x80 ∧ a = address bank offset

/-- An offset that is reached leaves the read bit free. -/
theorem IsReachable.offset_lt {a : Address} (h : IsReachable a) : offsetOf a < 0x80 := by
  obtain ⟨bank, offset, _, hoffset, rfl⟩ := h
  rw [offsetOf_address]
  exact hoffset

/-- A bank that is reached is one that the selector can hold. -/
theorem IsReachable.bankOf_and_mask {a : Address} (h : IsReachable a) :
    bankOf a &&& bankMask = bankOf a := by
  obtain ⟨bank, offset, _, _, rfl⟩ := h
  rw [bankOf_address, BitVec.and_assoc, BitVec.and_self]

/-- A reachable address is put together again from its bank and its offset. -/
theorem IsReachable.address_eq {a : Address} (h : IsReachable a) :
    address (bankOf a) (offsetOf a) = a := by
  obtain ⟨bank, offset, hbank, _, rfl⟩ := h
  have hmask : ∀ b : Byte, b ≤ bank4 → b &&& bankMask = b := by decide
  rw [offsetOf_address, bankOf_address, hmask bank hbank]

end Register

namespace RegisterOp

/-- An operation on registers that a serial bus reaches. It does not write the bank selector, which
is at offset `0x76`, and it does not run past the end of the flat address space. -/
def IsRegular : RegisterOp → Prop
  | .read a => Register.IsReachable a
  | .write a _ => Register.IsReachable a ∧ Register.offsetOf a ≠ 0x76
  | .readBlock a count => Register.IsReachable a ∧ a + count ≤ Bus.flatLength
  | .update a _ _ => Register.IsReachable a ∧ Register.offsetOf a ≠ 0x76

end RegisterOp

/-! ## Registers of the first bank -/

namespace Register

/-- The registers in the lower half of the first bank are reached. -/
theorem isReachable_bank0 {offset : Byte} (h : offset < 0x80) :
    IsReachable (address bank0 offset) :=
  ⟨bank0, offset, by decide, h, rfl⟩

/-- Writing one of them is regular, but for the selector. -/
theorem isRegular_write_bank0 {offset : Byte} (h : offset < 0x80) (hselect : offset ≠ bankSelect)
    (v : Byte) : (RegisterOp.write (address bank0 offset) v).IsRegular := by
  refine ⟨isReachable_bank0 h, ?_⟩
  rw [offsetOf_address]
  exact hselect

/-- Updating one of them is regular, but for the selector. -/
theorem isRegular_update_bank0 {offset : Byte} (h : offset < 0x80) (hselect : offset ≠ bankSelect)
    (mask value : Byte) : (RegisterOp.update (address bank0 offset) mask value).IsRegular :=
  isRegular_write_bank0 h hselect value

end Register

/-! ## Transactions of the chip -/

namespace SerialChip

open Register

/-- Writing the selector selects the bank that its low bits name. -/
theorem exchange_select (bank : Byte) (c : SerialChip) :
    c.exchange [bankSelect, bank] = ([0, 0], { c with bank := bank &&& bankMask }) := by
  have hread : bankSelect &&& readBit = 0 := by decide
  have hoffset : (bankSelect &&& ~~~readBit).toNat + 0 = bankSelect.toNat := by decide
  simp only [exchange, exchangeAll, exchangeData, hread, hoffset, ne_eq, not_true_eq_false,
    if_false, if_true]

/-- Writing at any other offset writes that register of the selected bank. -/
theorem exchange_write {offset : Byte} (hoffset : offset < 0x80) (hselect : offset ≠ bankSelect)
    (v : Byte) (c : SerialChip) :
    c.exchange [offset, v] =
      ([0, 0], { c with memory := c.memory.write (Register.address c.bank offset) v }) := by
  have hread : ∀ o : Byte, o < 0x80 → o &&& readBit = 0 := by decide
  have hkeep : ∀ o : Byte, o < 0x80 → o &&& ~~~readBit = o := by decide
  have hne : ¬ offset.toNat = bankSelect.toNat := by
    intro h
    exact hselect (BitVec.eq_of_toNat_eq h)
  simp only [exchange, exchangeAll, exchangeData, hread offset hoffset, hkeep offset hoffset,
    Nat.add_zero, hne, ne_eq, not_true_eq_false, if_false]
  rfl

/-- Reading from a position on gives the registers there and changes nothing. -/
theorem exchangeAll_read {header : Byte} (hread : header &&& readBit ≠ 0) (position count : Nat)
    (c : SerialChip) :
    c.exchangeAll header position (List.replicate count 0) =
      ((List.range' position count).map fun i =>
        c.memory (c.bank.toNat * windowLength + ((header &&& ~~~readBit).toNat + i)), c) := by
  induction count generalizing position with
  | zero => rfl
  | succ count ih =>
    rw [List.replicate_succ, exchangeAll, List.range'_succ, List.map_cons]
    simp only [exchangeData, hread, ne_eq, not_false_eq_true, if_true, ih]

/-- Reading at an offset gives the registers of the selected bank from there on. -/
theorem exchange_read {offset : Byte} (hoffset : offset < 0x80) (count : Nat) (c : SerialChip) :
    c.exchange ((offset ||| readBit) :: List.replicate count 0) =
      (0 :: (List.range count).map fun i => c.memory (Register.address c.bank offset + i), c) := by
  have hread : ∀ o : Byte, o < 0x80 → (o ||| readBit) &&& readBit ≠ 0 := by decide
  have hkeep : ∀ o : Byte, o < 0x80 → (o ||| readBit) &&& ~~~readBit = o := by decide
  rw [exchange, exchangeAll_read (hread offset hoffset), hkeep offset hoffset,
    ← List.range_eq_range']
  simp only [Register.address, Nat.add_assoc]

end SerialChip

/-! ## One transaction in the right bank -/

namespace Bench

/-- From `b` to `c` a selection or a transaction at an address failed, and nothing changed. -/
structure Missed (a : Address) (b c : Bench) (events : List Event) : Prop where
  uses : b.Uses c events
  inStep : c.InStep
  isFlat : c.bus.isFlat = false
  selections : events.countP Event.isSelection = b.selections a
  failed : ∃ e ∈ events, e.succeeded = false
  memory : c.chip.memory = b.chip.memory

/-- From `b` to `c` all went well, and both sides of the bus selected the bank of an address. -/
structure Reached (a : Address) (b c : Bench) (events : List Event) : Prop where
  uses : b.Uses c events
  bus : c.bus = .serial (Register.bankOf a)
  bank : c.chip.bank = Register.bankOf a
  selections : events.countP Event.isSelection = b.selections a
  succeeded : ∀ e ∈ events, e.succeeded = true
  memory : c.chip.memory = b.chip.memory

/-- One more success does not change that all succeeded. -/
theorem forall_succeeded_append {before : List Event} {x : Access}
    (h : ∀ e ∈ before, e.succeeded = true) :
    ∀ e ∈ before ++ [.access x true], e.succeeded = true := by
  intro e he
  rcases List.mem_append.mp he with he | he
  · exact h e he
  · rw [List.mem_singleton.mp he]
    rfl

end Bench

namespace Bus

open BusM

/-- A transaction that succeeds gives what the chip sends back and leaves the chip after it. -/
theorem exec_transact (ops : List SerialOp) (b : Bench) :
    exec (transact ops) b =
      match b.attempt (.serial ops) with
      | (true, c) => (.ok (c.chip.exchange (ops.flatMap SerialOp.sent)).1,
          { c with chip := (c.chip.exchange (ops.flatMap SerialOp.sent)).2 })
      | (false, c) => (.error .transfer, c) := by
  rw [transact, exec_bind, exec_attempt]
  rcases b.attempt (.serial ops) with ⟨_ | _, c⟩ <;> rfl

/-- Selecting the current bank does nothing. Any other is selected by one transaction, and taken as
selected if that succeeds. -/
theorem exec_select (current : Byte) (a : Address) (b : Bench) :
    exec (select current a) b =
      if Register.bankOf a = current then (.ok (), b)
      else
        match exec (transact [.write [Register.bankSelect, Register.bankOf a]]) b with
        | (.ok _, c) => (.ok (), { c with bus := .serial (Register.bankOf a) })
        | (.error fault, c) => (.error fault, c) := by
  unfold select
  by_cases h : Register.bankOf a = current
  · simp [h]
  · simp only [h, ne_eq, not_false_eq_true, if_true, if_false]
    rw [exec_bind]
    rcases exec (transact [.write [Register.bankSelect, Register.bankOf a]]) b with ⟨_ | _, c⟩ <;>
      rfl

/-- Selecting sends at most one transaction, and if it fails both sides keep their bank. -/
theorem select_cases {b : Bench} {current : Byte} (hbus : b.bus = .serial current)
    (hin : b.chip.bank = current) {a : Address} (ha : Register.IsReachable a) :
    (∃ fault c events, exec (select current a) b = (.error fault, c) ∧ b.Missed a c events) ∨
    ∃ c events, exec (select current a) b = (.ok (), c) ∧ b.Reached a c events := by
  have hcount : b.selections a = if Register.bankOf a = current then 0 else 1 := by
    simp [Bench.selections, hbus]
  rw [exec_select]
  by_cases hbank : Register.bankOf a = current
  · rw [if_pos hbank]
    refine Or.inr ⟨b, [], rfl, .refl b, ?_, ?_, ?_, by simp, rfl⟩
    · rw [hbus, hbank]
    · rw [hin, hbank]
    · rw [hcount, if_pos hbank]
      rfl
  · -- Another bank is selected by one transaction, which the chip sees or does not see as a whole.
    rw [if_neg hbank, exec_transact]
    have huse := b.uses_attempt (.serial [.write [Register.bankSelect, Register.bankOf a]])
    have hchip := b.chip_attempt (.serial [.write [Register.bankSelect, Register.bankOf a]])
    have hcbus := b.bus_attempt (.serial [.write [Register.bankSelect, Register.bankOf a]])
    rcases hx : b.attempt (.serial [.write [Register.bankSelect, Register.bankOf a]]) with ⟨ok, c⟩
    rw [hx] at huse hchip hcbus
    dsimp only at huse hchip hcbus
    have hevents : [Event.access (.serial [.write [Register.bankSelect, Register.bankOf a]])
        ok].countP Event.isSelection = b.selections a := by
      rw [hcount, if_neg hbank]
      rfl
    cases ok with
    | false =>
      have hstep : c.InStep := by simp [Bench.InStep, hcbus, hbus, hchip, hin]
      have hkind : c.bus.isFlat = false := by rw [hcbus, hbus]; rfl
      exact Or.inl ⟨.transfer, c, _, rfl, huse, hstep, hkind, hevents,
        ⟨_, List.mem_singleton.mpr rfl, rfl⟩, congrArg SerialChip.memory hchip⟩
    | true =>
      have hsent : [SerialOp.write [Register.bankSelect, Register.bankOf a]].flatMap SerialOp.sent =
          [Register.bankSelect, Register.bankOf a] := rfl
      have hall : ∀ e ∈ [Event.access (.serial [.write [Register.bankSelect, Register.bankOf a]])
          true], e.succeeded = true := by
        intro e he
        rw [List.mem_singleton.mp he]
        rfl
      have hmem : c.chip.memory = b.chip.memory := congrArg SerialChip.memory hchip
      dsimp only
      rw [hsent, SerialChip.exchange_select, ha.bankOf_and_mask]
      exact Or.inr ⟨_, _, rfl, huse.congr _ _, rfl, rfl, hevents, hall, hmem⟩

/-- A transaction in the right bank fails and changes nothing, or the chip takes part in it. -/
theorem transact_cases {a : Address} {b c : Bench} {before : List Event}
    (h : b.Reached a c before) (ops : List SerialOp)
    (hops : ∀ ok, Event.isSelection (.access (.serial ops) ok) = false) :
    (∃ fault d events, exec (transact ops) c = (.error fault, d) ∧ b.Missed a d events) ∨
    ∃ d events, exec (transact ops) c =
        (.ok (d.chip.exchange (ops.flatMap SerialOp.sent)).1,
          { d with chip := (d.chip.exchange (ops.flatMap SerialOp.sent)).2 }) ∧
      b.Reached a d events := by
  have huse := c.uses_attempt (.serial ops)
  have hchip := c.chip_attempt (.serial ops)
  have hbus := c.bus_attempt (.serial ops)
  rw [exec_transact]
  rcases hx : c.attempt (.serial ops) with ⟨ok, d⟩
  rw [hx] at huse hchip hbus
  dsimp only at huse hchip hbus
  have hevents : (before ++ [Event.access (.serial ops) ok]).countP Event.isSelection =
      b.selections a := by
    rw [List.countP_append, h.selections, List.countP_cons_of_neg (by simp [hops]), List.countP_nil,
      Nat.add_zero]
  have hmem : d.chip.memory = b.chip.memory := by rw [hchip, h.memory]
  cases ok with
  | false =>
    have hstep : d.InStep := by simp [Bench.InStep, hbus, h.bus, hchip, h.bank]
    have hkind : d.bus.isFlat = false := by rw [hbus, h.bus]; rfl
    exact Or.inl ⟨.transfer, d, _, rfl, h.uses.trans huse, hstep, hkind, hevents,
      ⟨.access (.serial ops) false, by simp, rfl⟩, hmem⟩
  | true =>
    exact Or.inr ⟨d, _, rfl, h.uses.trans huse, hbus.trans h.bus, by rw [hchip, h.bank], hevents,
      Bench.forall_succeeded_append h.succeeded, hmem⟩

end Bus

/-! ## Operations -/

namespace RegisterOp

open BusM

/-- With the right bank selected, the chip does in the transaction what the operation does on plain
memory, and the answer is told from what it sends back. -/
def IsDoneBy (op : RegisterOp) (ops : List SerialOp) (finish : List Byte → op.Answer) : Prop :=
  ∀ chip : SerialChip, chip.bank = Register.bankOf op.address →
    finish (chip.exchange (ops.flatMap SerialOp.sent)).1 = (op.onMemory chip.memory).1 ∧
    (chip.exchange (ops.flatMap SerialOp.sent)).2 =
      { chip with memory := (op.onMemory chip.memory).2 }

/-- A read is done by the exchange of its header and one more byte. -/
theorem isDoneBy_read {a : Address} (ha : Register.IsReachable a) :
    (read a).IsDoneBy [.exchange [Bus.readHeader a, 0]] fun answers => answers.getD 1 0 := by
  intro chip hchip
  have hx := SerialChip.exchange_read ha.offset_lt 1 chip
  rw [hchip, RegisterOp.address, ha.address_eq] at hx
  rw [show [SerialOp.exchange [Bus.readHeader a, 0]].flatMap SerialOp.sent =
    (Register.offsetOf a ||| readBit) :: List.replicate 1 0 from rfl, hx]
  exact ⟨rfl, rfl⟩

/-- A write is done by sending the offset and the byte, unless the offset is that of the
selector. -/
theorem isDoneBy_write {a : Address} (ha : Register.IsReachable a)
    (hselect : Register.offsetOf a ≠ Register.bankSelect) (v : Byte) :
    (write a v).IsDoneBy [.write [Register.offsetOf a, v]] fun _ => () := by
  intro chip hchip
  have hx := SerialChip.exchange_write ha.offset_lt hselect v chip
  rw [hchip, RegisterOp.address, ha.address_eq] at hx
  rw [show [SerialOp.write [Register.offsetOf a, v]].flatMap SerialOp.sent =
    [Register.offsetOf a, v] from rfl, hx]
  exact ⟨rfl, by rw [hchip]; rfl⟩

/-- A block read is done by sending its header and reading on, if the block ends with the address
space. -/
theorem isDoneBy_readBlock {a : Address} (ha : Register.IsReachable a) {count : Nat}
    (hend : a + count ≤ Bus.flatLength) :
    (readBlock a count).IsDoneBy [.write [Bus.readHeader a], .read count] fun answers =>
      Vector.ofFn fun i => answers.getD (i + 1) 0 := by
  intro chip hchip
  have hx := SerialChip.exchange_read ha.offset_lt count chip
  rw [hchip, RegisterOp.address, ha.address_eq] at hx
  rw [show [SerialOp.write [Bus.readHeader a], .read count].flatMap SerialOp.sent =
    (Register.offsetOf a ||| readBit) :: (List.replicate count 0 ++ []) from rfl,
    List.append_nil, hx]
  refine ⟨?_, rfl⟩
  apply Vector.ext
  intro i hi
  -- The block ends before the address space does, so no address wraps around.
  have hlt : a + i < Bus.flatLength := Nat.lt_of_lt_of_le (Nat.add_lt_add_left hi a) hend
  simp [onMemory, Nat.mod_eq_of_lt hlt]

/-- An operation that is one transaction of the serial bus refines plain memory. -/
theorem refines_serial_access (op : RegisterOp) {b : Bench} {current : Byte}
    (hbus : b.bus = .serial current) (hin : b.chip.bank = current)
    (hreach : Register.IsReachable op.address) (ops : List SerialOp)
    (hops : ∀ ok, Event.isSelection (.access (.serial ops) ok) = false)
    (finish : List Byte → op.Answer) (hfinish : op.IsDoneBy ops finish) :
    let result := exec (do
      Bus.select current op.address
      let answers ← Bus.transact ops
      return finish answers) b
    ∃ events, op.Refines b result.1 result.2 events := by
  have hkind : b.bus.isFlat = false := by rw [hbus]; rfl
  dsimp only
  rw [exec_bind]
  obtain ⟨fault, c, events, hx, hmissed⟩ | ⟨c, before, hx, hreached⟩ :=
    Bus.select_cases hbus hin hreach
  · rw [hx]
    exact ⟨events, .failed hmissed.uses hmissed.inStep (hmissed.isFlat.trans hkind.symm)
        hmissed.selections hmissed.failed hmissed.memory⟩
  · rw [hx]
    dsimp only
    rw [exec_bind]
    obtain ⟨fault, d, events, hy, hmissed⟩ | ⟨d, events, hy, hd⟩ :=
      Bus.transact_cases hreached ops hops
    · rw [hy]
      exact ⟨events, .failed hmissed.uses hmissed.inStep (hmissed.isFlat.trans hkind.symm)
        hmissed.selections hmissed.failed hmissed.memory⟩
    · rw [hy]
      dsimp only
      obtain ⟨hanswer, hchip⟩ := hfinish d.chip hd.bank
      rw [exec_pure, hanswer, hchip, hd.memory]
      have hstep : ∀ memory, ({ d with chip := { d.chip with memory } } : Bench).InStep := by
        intro memory
        simp [Bench.InStep, hd.bus, hd.bank]
      have hflat : d.bus.isFlat = b.bus.isFlat := by rw [hd.bus, hkind]; rfl
      refine ⟨events, .done (hd.uses.congr _ d.bus) (hstep _) hflat hd.selections hd.succeeded ?_
        rfl⟩
      simp [Bench.selections, hd.bus]

/-- A read refines plain memory on either bus. -/
theorem refines_read {b : Bench} (hin : b.InStep) {a : Address} (ha : Register.IsReachable a) :
    ∃ events, (read a).Refines b (exec (Bus.read a) b).1 (exec (Bus.read a) b).2 events := by
  cases hbus : b.bus with
  | flat => exact refines_read_flat hbus a
  | serial current =>
    have hbank : b.chip.bank = current := by
      rw [Bench.InStep, hbus] at hin
      exact hin.symm
    have h := refines_serial_access (.read a) hbus hbank ha
      [.exchange [Bus.readHeader a, 0]] (fun _ => rfl) _ (isDoneBy_read ha)
    rw [Bus.read, exec_bind, exec_getBench]
    dsimp only
    rw [hbus]
    exact h

/-- So does a write of anything but the selector. -/
theorem refines_write {b : Bench} (hin : b.InStep) {a : Address} (ha : Register.IsReachable a)
    (hselect : Register.offsetOf a ≠ Register.bankSelect) (v : Byte) :
    ∃ events, (write a v).Refines b (exec (Bus.write a v) b).1
      (exec (Bus.write a v) b).2 events := by
  cases hbus : b.bus with
  | flat => exact refines_write_flat hbus a v
  | serial current =>
    have hbank : b.chip.bank = current := by
      rw [Bench.InStep, hbus] at hin
      exact hin.symm
    have hops : ∀ ok, Event.isSelection
        (.access (.serial [.write [Register.offsetOf a, v]]) ok) = false := by
      intro ok
      exact beq_eq_false_iff_ne.mpr hselect
    have h := refines_serial_access (.write a v) hbus hbank ha
      [.write [Register.offsetOf a, v]] hops _ (isDoneBy_write ha hselect v)
    rw [Bus.write, exec_bind, exec_getBench]
    dsimp only
    rw [hbus]
    exact h

/-- So does a block read that ends with the address space. -/
theorem refines_readBlock {b : Bench} (hin : b.InStep) {a : Address} (ha : Register.IsReachable a)
    {count : Nat} (hend : a + count ≤ Bus.flatLength) :
    ∃ events, (readBlock a count).Refines b (exec (Bus.readBlock a count) b).1
      (exec (Bus.readBlock a count) b).2 events := by
  cases hbus : b.bus with
  | flat => exact refines_readBlock_flat hbus a count
  | serial current =>
    have hbank : b.chip.bank = current := by
      rw [Bench.InStep, hbus] at hin
      exact hin.symm
    have h := refines_serial_access (.readBlock a count) hbus hbank ha
      [.write [Bus.readHeader a], .read count] (fun _ => rfl) _ (isDoneBy_readBlock ha hend)
    rw [Bus.readBlock, exec_bind, exec_getBench]
    dsimp only
    rw [hbus]
    exact h

/-- On a bench in step every operation refines plain memory, whatever accesses fail. -/
theorem refines_of_inStep {b : Bench} (hin : b.InStep) {op : RegisterOp} (hop : op.IsRegular) :
    ∃ events, op.Refines b (op.perform.exec b).1 (op.perform.exec b).2 events := by
  cases op with
  | read a => exact refines_read hin hop
  | write a v => exact refines_write hin hop.1 hop.2 v
  | readBlock a count => exact refines_readBlock hin hop.1 hop.2
  | update a mask value =>
    exact refines_update (refines_read hin hop.1) (fun c v hc => refines_write hc hop.1 hop.2 v)

/-! ## Operations one after another -/

/-- The bench after operations one after another, whether they succeed or fail. -/
def performAll (ops : List RegisterOp) (b : Bench) : Bench :=
  ops.foldl (fun c op => (op.perform.exec c).2) b

/-- Those of the operations that succeed. -/
def succeeding : List RegisterOp → Bench → List RegisterOp
  | [], _ => []
  | op :: ops, b =>
    match op.perform.exec b with
    | (.ok _, c) => op :: succeeding ops c
    | (.error _, c) => succeeding ops c

/-- Plain memory after operations one after another. -/
def onMemoryAll (ops : List RegisterOp) (m : Memory) : Memory :=
  ops.foldl (fun m op => (op.onMemory m).2) m

/-- The bench stays in step, and its registers go through the operations that succeed. -/
theorem performAll_inStep {b : Bench} (hin : b.InStep) {ops : List RegisterOp}
    (hops : ∀ op ∈ ops, op.IsRegular) :
    (performAll ops b).InStep ∧ (performAll ops b).bus.isFlat = b.bus.isFlat ∧
      (performAll ops b).chip.memory = onMemoryAll (succeeding ops b) b.chip.memory := by
  induction ops generalizing b with
  | nil => exact ⟨hin, rfl, rfl⟩
  | cons op ops ih =>
    obtain ⟨events, h⟩ := refines_of_inStep hin (hops op List.mem_cons_self)
    have hrest := fun o ho => hops o (List.mem_cons_of_mem op ho)
    unfold performAll succeeding
    rw [List.foldl_cons]
    rcases hx : op.perform.exec b with ⟨fault | answer, c⟩
    · rw [hx] at h
      obtain ⟨_, hmem⟩ := h.of_error fault rfl
      obtain ⟨hstep, hflat, hall⟩ := ih h.inStep hrest
      dsimp only at hmem ⊢
      rw [hmem] at hall
      exact ⟨hstep, hflat.trans h.isFlat, hall⟩
    · rw [hx] at h
      obtain ⟨_, _, _, hmem⟩ := h.of_ok answer rfl
      obtain ⟨hstep, hflat, hall⟩ := ih h.inStep hrest
      dsimp only at hmem ⊢
      rw [hmem] at hall
      exact ⟨hstep, hflat.trans h.isFlat, hall⟩

/-- On a fresh serial bus and a chip in the first bank, operations on registers are those of plain
memory, whatever transactions fail. The chip selects a bank when it is written at offset `0x76`.
After any operation both sides agree on the selected bank. An operation sends a selection just when
its register lies in another bank than the selected one. It fails just when one of its transactions
does, and then the memory is as it was; otherwise the answer and the memory after it are those of
plain memory. -/
theorem serial_refines_plain_memory {b : Bench} (hbus : b.bus = .serial Register.bank0)
    (hbank : b.chip.bank = Register.bank0) {ops : List RegisterOp}
    (hops : ∀ op ∈ ops, op.IsRegular) {op : RegisterOp} (hop : op.IsRegular) :
    let c := performAll ops b
    let d := (op.perform.exec c).2
    (∀ (chip : SerialChip) (v : Byte),
      chip.exchange [0x76, v] = ([0, 0], { chip with bank := v &&& 7 })) ∧
    c.chip.memory = onMemoryAll (succeeding ops b) b.chip.memory ∧
    c.bus = .serial c.chip.bank ∧ d.bus = .serial d.chip.bank ∧
    ∃ events, d.trace = c.trace ++ events ∧
      events.countP Event.isSelection =
        (if Register.bankOf op.address = c.chip.bank then 0 else 1) ∧
      match (op.perform.exec c).1 with
      | .error _ => (∃ e ∈ events, e.succeeded = false) ∧ d.chip.memory = c.chip.memory
      | .ok answer => (∀ e ∈ events, e.succeeded = true) ∧
          (answer, d.chip.memory) = op.onMemory c.chip.memory := by
  have hserial : ∀ c : Bench, c.InStep → c.bus.isFlat = b.bus.isFlat →
      c.bus = .serial c.chip.bank := by
    intro c hstep hflat
    rw [hbus] at hflat
    unfold Bench.InStep at hstep
    cases hc : c.bus with
    | flat =>
      rw [hc] at hflat
      cases hflat
    | serial current =>
      rw [hc] at hstep
      exact congrArg Bus.serial hstep
  have hin : b.InStep := by simp [Bench.InStep, hbus, hbank]
  obtain ⟨hstep, hflat, hmem⟩ := performAll_inStep hin hops
  obtain ⟨events, h⟩ := refines_of_inStep hstep hop
  have hc := hserial _ hstep hflat
  have hd := hserial _ h.inStep (h.isFlat.trans hflat)
  refine ⟨fun chip v => chip.exchange_select v, hmem, hc, hd, events, h.uses.trace, ?_, ?_⟩
  · rw [h.selections, Bench.selections, hc]
  · rcases hx : (op.perform.exec (performAll ops b)).1 with fault | answer
    · exact h.of_error fault hx
    · obtain ⟨hall, _, hanswer, hmem'⟩ := h.of_ok answer hx
      exact ⟨hall, Prod.ext hanswer hmem'⟩

/-- A write in the second bank whose own transaction fails leaves that bank selected, so a read
there selects nothing. -/
theorem serial_refines_past_fault :
    let b : Bench := {
      bus := .serial Register.bank0
      plan := { failsAccess := fun k _ => k == 1 } }
    let a := Register.address Register.bank1 0x7B
    let c := performAll [.write a 5] b
    (∀ op ∈ [RegisterOp.write a 5], op.IsRegular) ∧ (read a).IsRegular ∧
      c.chip.bank = Register.bank1 ∧ c.bus = .serial c.chip.bank ∧
      ∃ events, ((read a).perform.exec c).2.trace = c.trace ++ events ∧
        events.countP Event.isSelection = 0 := by
  intro b a c
  have hreach : Register.IsReachable a := ⟨Register.bank1, 0x7B, by decide, by decide, rfl⟩
  have hops : ∀ op ∈ [RegisterOp.write a 5], op.IsRegular := by
    intro op hop
    rw [List.mem_singleton.mp hop]
    exact ⟨hreach, by decide⟩
  have hchip : c.chip.bank = Register.bank1 := by decide +kernel
  obtain ⟨_, _, hc, _, events, htrace, hcount, _⟩ :=
    serial_refines_plain_memory (b := b) rfl rfl hops (show (read a).IsRegular from hreach)
  have hsame : Register.bankOf (read a).address = c.chip.bank := by
    rw [hchip]
    decide
  rw [if_pos hsame] at hcount
  exact ⟨hops, hreach, hchip, hc, events, htrace, hcount⟩

end RegisterOp

end Inertial
