import Inertial.Bench.Bus

/-!
# Register operations on plain memory

What the driver wants of a bus is plain memory: reading gives what was written, and an operation
that fails changes nothing. `RegisterOp.onMemory` is that memory, indexed by flat addresses. An
operation refines it on a bench (`RegisterOp.Refines`) if it either does what it does on the plain
memory, and all of its accesses succeeded, or fails with the memory as it was, and one of its
accesses failed.

A bench is in step when its bus takes that bank for selected which the chip has selected. The flat
bus has no banks, so a bench with it always is, and its reads and writes refine plain memory. An
update does so on any bus on which reads and writes do (`refines_update`).
-/

set_option autoImplicit false

namespace Inertial

namespace RegisterOp

/-- What an operation answers on plain memory, and the memory after it. -/
def onMemory : (op : RegisterOp) → Memory → op.Answer × Memory
  | .read a, m => (m a, m)
  | .write a v, m => ((), m.write a v)
  | .readBlock a _, m => (Vector.ofFn fun i => m ((a + i) % Bus.flatLength), m)
  | .update a mask value, m => ((), m.write a (Bus.merge (m a) mask value))

/-- The address at which an operation begins. -/
def address : RegisterOp → Address
  | .read a | .write a _ | .readBlock a _ | .update a _ _ => a

end RegisterOp

/-- Whether a bus goes by flat address. -/
def Bus.isFlat : Bus → Bool
  | .flat => true
  | .serial _ => false

/-- Whether an access succeeded. Everything else that happens counts as success. -/
def Event.succeeded : Event → Bool
  | .access _ ok => ok
  | _ => true

/-- Whether an event is a transaction that writes the bank selector, which is at offset `0x76`. -/
def Event.isSelection : Event → Bool
  | .access (.serial [.write [offset, _]]) _ => offset == 0x76
  | _ => false

namespace Bench

/-- The bus takes for selected what the chip has selected. -/
def InStep (b : Bench) : Prop :=
  match b.bus with
  | .flat => True
  | .serial current => current = b.chip.bank

/-- How many selections an access of a register needs. -/
def selections (b : Bench) (a : Address) : Nat :=
  match b.bus with
  | .flat => 0
  | .serial current => if Register.bankOf a = current then 0 else 1

/-- `c` is what `b` becomes by accesses of the registers that are logged as the given events. Only
the chip, the bus, the inbox, the trace and the count of accesses differ. -/
structure Uses (b c : Bench) (events : List Event) : Prop where
  trace : c.trace = b.trace ++ events
  accesses : c.accesses = b.accesses + events.length
  isAccess : ∀ e ∈ events, ∃ x ok, e = .access x ok
  plan : c.plan = b.plan
  supply : c.supply = b.supply
  switches : c.switches = b.switches

namespace Uses

variable {b c d : Bench} {events later : List Event}

/-- Where nothing is used the bench is as it was. -/
theorem refl (b : Bench) : b.Uses b [] where
  trace := by simp
  accesses := by simp
  isAccess := by simp
  plan := rfl
  supply := rfl
  switches := rfl

/-- One use may follow another. -/
theorem trans (h : b.Uses c events) (h' : c.Uses d later) : b.Uses d (events ++ later) where
  trace := by rw [h'.trace, h.trace, List.append_assoc]
  accesses := by rw [h'.accesses, h.accesses, List.length_append, Nat.add_assoc]
  isAccess := by
    intro e he
    rcases List.mem_append.mp he with he | he
    · exact h.isAccess e he
    · exact h'.isAccess e he
  plan := h'.plan.trans h.plan
  supply := h'.supply.trans h.supply
  switches := h'.switches.trans h.switches

/-- A change of the chip and the bus is not told from the log. -/
theorem congr (h : b.Uses c events) (chip : SerialChip) (bus : Bus) :
    b.Uses { c with chip, bus } events where
  trace := h.trace
  accesses := h.accesses
  isAccess := h.isAccess
  plan := h.plan
  supply := h.supply
  switches := h.switches

end Uses

/-- One attempt logs one event, which tells whether it succeeded. -/
theorem uses_attempt (x : Access) (b : Bench) :
    b.Uses (b.attempt x).2 [.access x (b.attempt x).1] where
  trace := rfl
  accesses := rfl
  isAccess := by
    intro e he
    exact ⟨x, (b.attempt x).1, List.mem_singleton.mp he⟩
  plan := rfl
  supply := rfl
  switches := rfl

/-- An attempt by itself does nothing to the chip. -/
@[simp] theorem chip_attempt (x : Access) (b : Bench) : (b.attempt x).2.chip = b.chip := rfl

/-- Nor to the bus. -/
@[simp] theorem bus_attempt (x : Access) (b : Bench) : (b.attempt x).2.bus = b.bus := rfl

end Bench

namespace RegisterOp

/-- How an operation has to go on a bench whose registers are plain memory, from a bench `b` to a
bench `c` with the given result and events: it either is done as on the memory, or has failed and
changed nothing. Either way `c` is in step, and as many selections were attempted as the first
register needs. -/
structure Refines (op : RegisterOp) (b : Bench) (result : Except BusFault op.Answer) (c : Bench)
    (events : List Event) : Prop where
  uses : b.Uses c events
  inStep : c.InStep
  isFlat : c.bus.isFlat = b.bus.isFlat
  selections : events.countP Event.isSelection = b.selections op.address
  of_ok : ∀ answer, result = .ok answer →
    (∀ e ∈ events, e.succeeded = true) ∧ c.selections op.address = 0 ∧
      answer = (op.onMemory b.chip.memory).1 ∧ c.chip.memory = (op.onMemory b.chip.memory).2
  of_error : ∀ fault, result = .error fault →
    (∃ e ∈ events, e.succeeded = false) ∧ c.chip.memory = b.chip.memory

namespace Refines

variable {op : RegisterOp} {b c : Bench} {events : List Event}

/-- An operation that has succeeded answers and leaves what it does on plain memory. -/
theorem done (uses : b.Uses c events) (inStep : c.InStep) (isFlat : c.bus.isFlat = b.bus.isFlat)
    (selections : events.countP Event.isSelection = b.selections op.address)
    (succeeded : ∀ e ∈ events, e.succeeded = true) (reached : c.selections op.address = 0)
    (memory : c.chip.memory = (op.onMemory b.chip.memory).2) :
    op.Refines b (.ok (op.onMemory b.chip.memory).1) c events where
  uses := uses
  inStep := inStep
  isFlat := isFlat
  selections := selections
  of_ok := by
    intro answer h
    cases h
    exact ⟨succeeded, reached, rfl, memory⟩
  of_error := by
    intro fault h
    cases h

/-- An operation that has failed leaves the memory as it was. -/
theorem failed {fault : BusFault} (uses : b.Uses c events) (inStep : c.InStep)
    (isFlat : c.bus.isFlat = b.bus.isFlat)
    (selections : events.countP Event.isSelection = b.selections op.address)
    (failed : ∃ e ∈ events, e.succeeded = false) (memory : c.chip.memory = b.chip.memory) :
    op.Refines b (.error fault) c events where
  uses := uses
  inStep := inStep
  isFlat := isFlat
  selections := selections
  of_ok := by
    intro answer h
    cases h
  of_error := by
    intro _ _
    exact ⟨failed, memory⟩

end Refines

/-- An update refines plain memory where the read and the write that it is made of do. -/
theorem refines_update {a : Address} {mask value : Byte} {b : Bench}
    (hread : ∃ events, (read a).Refines b (BusM.exec (Bus.read a) b).1
      (BusM.exec (Bus.read a) b).2 events)
    (hwrite : ∀ c v, c.InStep → ∃ events, (write a v).Refines c (BusM.exec (Bus.write a v) c).1
      (BusM.exec (Bus.write a v) c).2 events) :
    ∃ events, (update a mask value).Refines b (BusM.exec (Bus.update a mask value) b).1
      (BusM.exec (Bus.update a mask value) b).2 events := by
  rw [Bus.update, BusM.exec_bind]
  obtain ⟨events, hr⟩ := hread
  rcases hx : BusM.exec (Bus.read a) b with ⟨fault | old, c⟩
  · rw [hx] at hr
    obtain ⟨hfail, hmem⟩ := hr.of_error fault rfl
    exact ⟨events, .failed hr.uses hr.inStep hr.isFlat hr.selections hfail hmem⟩
  · rw [hx] at hr
    obtain ⟨hall, hreached, hold, hmem⟩ := hr.of_ok old rfl
    change old = b.chip.memory a at hold
    change c.chip.memory = b.chip.memory at hmem
    subst hold
    by_cases hnew : Bus.merge (b.chip.memory a) mask value = b.chip.memory a
    · -- The register holds the value already, so the read was all.
      simp only [hnew, ne_eq, not_true_eq_false, if_false]
      refine ⟨events, .done hr.uses hr.inStep hr.isFlat hr.selections hall hreached ?_⟩
      change c.chip.memory = b.chip.memory.write a (Bus.merge (b.chip.memory a) mask value)
      rw [hmem, hnew, Memory.write_self]
    · obtain ⟨later, hw⟩ := hwrite c (Bus.merge (b.chip.memory a) mask value) hr.inStep
      simp only [hnew, ne_eq, not_false_eq_true, if_true]
      -- The read has left the bus in the right bank, so the write selects none.
      have hcount : (events ++ later).countP Event.isSelection = b.selections a := by
        have hlater : later.countP Event.isSelection = 0 := hw.selections.trans hreached
        rw [List.countP_append, hlater]
        exact hr.selections
      rcases hy : BusM.exec (Bus.write a (Bus.merge (b.chip.memory a) mask value)) c with
        ⟨fault | _, d⟩
      · rw [hy] at hw
        obtain ⟨⟨e, he, hfail⟩, hmem'⟩ := hw.of_error fault rfl
        exact ⟨events ++ later, .failed (hr.uses.trans hw.uses) hw.inStep
          (hw.isFlat.trans hr.isFlat) hcount
          ⟨e, List.mem_append_right events he, hfail⟩ (hmem'.trans hmem)⟩
      · rw [hy] at hw
        obtain ⟨hall', hreached', _, hmem'⟩ := hw.of_ok () rfl
        refine ⟨events ++ later, .done (hr.uses.trans hw.uses) hw.inStep
          (hw.isFlat.trans hr.isFlat) hcount ?_ hreached' ?_⟩
        · intro e he
          rcases List.mem_append.mp he with he | he
          · exact hall e he
          · exact hall' e he
        · change d.chip.memory = c.chip.memory.write a _ at hmem'
          rw [hmem', hmem]
          rfl

/-- An operation that is one access of the flat bus refines plain memory if it does, once the
access succeeded, what it does on the memory. -/
theorem refines_flat_access {op : RegisterOp} {b : Bench} (hbus : b.bus = .flat) {x : Access}
    (hx : ∀ ok, Event.isSelection (.access x ok) = false) (fault : BusFault)
    (finish : Bench → Except BusFault op.Answer × Bench)
    (hfinish : ∀ c, finish c = (.ok (op.onMemory c.chip.memory).1,
      { c with chip := { c.chip with memory := (op.onMemory c.chip.memory).2 } }))
    {result : Except BusFault op.Answer × Bench}
    (hresult : result = match b.attempt x with
      | (true, c) => finish c
      | (false, c) => (.error fault, c)) :
    ∃ events, op.Refines b result.1 result.2 events := by
  have huse := b.uses_attempt x
  have hchip := b.chip_attempt x
  have hflat := b.bus_attempt x
  have hselect : ∀ (c : Bench), c.bus = .flat → c.selections op.address = 0 := by
    intro c hc
    simp [Bench.selections, hc]
  have hin : ∀ c : Bench, c.bus = .flat → c.InStep := by
    intro c hc
    simp [Bench.InStep, hc]
  rcases hb : b.attempt x with ⟨ok, c⟩
  rw [hb] at huse hchip hflat hresult
  dsimp only at huse hchip hflat
  rw [hbus] at hflat
  have hcount : [Event.access x ok].countP Event.isSelection = b.selections op.address := by
    rw [hselect b hbus, List.countP_cons_of_neg (by simp [hx]), List.countP_nil]
  have hkind : c.bus.isFlat = b.bus.isFlat := by rw [hflat, hbus]
  refine ⟨[.access x ok], ?_⟩
  cases ok with
  | false =>
    subst hresult
    exact .failed huse (hin c hflat) hkind hcount ⟨_, List.mem_singleton.mpr rfl, rfl⟩
      (congrArg SerialChip.memory hchip)
  | true =>
    dsimp only at hresult
    rw [hfinish] at hresult
    subst hresult
    rw [hchip]
    refine .done (huse.congr _ c.bus) (hin _ hflat) hkind hcount ?_ (hselect _ hflat) rfl
    intro e he
    rw [List.mem_singleton.mp he]
    rfl

/-- Reading by flat address refines plain memory. -/
theorem refines_read_flat {b : Bench} (hbus : b.bus = .flat) (a : Address) :
    ∃ events, (read a).Refines b (BusM.exec (Bus.read a) b).1 (BusM.exec (Bus.read a) b).2 events :=
  refines_flat_access hbus (fun _ => rfl) (.read a) _ (fun _ => rfl) (Bus.exec_read_flat hbus a)

/-- So does writing by flat address. -/
theorem refines_write_flat {b : Bench} (hbus : b.bus = .flat) (a : Address) (v : Byte) :
    ∃ events, (write a v).Refines b (BusM.exec (Bus.write a v) b).1
      (BusM.exec (Bus.write a v) b).2 events :=
  refines_flat_access hbus (fun _ => rfl) (.write a) _ (fun _ => rfl) (Bus.exec_write_flat hbus a v)

/-- So does reading a run of registers by flat address. -/
theorem refines_readBlock_flat {b : Bench} (hbus : b.bus = .flat) (a : Address) (count : Nat) :
    ∃ events, (readBlock a count).Refines b (BusM.exec (Bus.readBlock a count) b).1
      (BusM.exec (Bus.readBlock a count) b).2 events :=
  refines_flat_access hbus (fun _ => rfl) (.readBlock a) _ (fun _ => rfl)
    (Bus.exec_readBlock_flat hbus a count)

end RegisterOp

end Inertial
