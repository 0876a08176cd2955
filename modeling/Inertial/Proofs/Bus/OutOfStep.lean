import Inertial.Proofs.Bus.BankSelection

/-!
# A serial bus that may be out of step

A serial bus knows which bank it selected last, and the chip knows which bank was selected last by
anyone. On a bench where the two differ an operation still does what it does on plain memory, but
not always at the register it names: if the bus takes the bank of that register for selected, the
operation is carried out at the same offset of the bank that the chip has selected
(`Bench.place`). Otherwise the bus selects the bank first, and both agree from then on.

`RegisterOp.acts_of_serial` says so for every operation, whatever transactions fail. Which banks the
two have selected is told from the log (`Bench.Tracks`).
-/

set_option autoImplicit false

namespace Inertial

/-- The bank that an event selected, if it did. -/
def Event.selected? : Event → Option Byte
  | .access (.serial [.write [offset, bank]]) true =>
    if offset = Register.bankSelect then some bank else none
  | _ => none

/-- The bank that was selected last. -/
def lastSelected (events : List Event) : Option Byte :=
  events.reverse.findSome? Event.selected?

/-- Where nothing happened nothing was selected. -/
@[simp] theorem lastSelected_nil : lastSelected [] = none := rfl

/-- One event selects what it selects. -/
@[simp] theorem lastSelected_singleton (e : Event) : lastSelected [e] = e.selected? := by
  cases h : e.selected? <;> simp [lastSelected, h]

/-- A later selection counts before an earlier one. -/
theorem lastSelected_append (events later : List Event) :
    lastSelected (events ++ later) = (lastSelected later).or (lastSelected events) := by
  simp [lastSelected, List.reverse_append, List.findSome?_append]

/-- A selection that succeeds selects the bank that it names. -/
theorem Event.selected?_selection (bank : Byte) :
    (access (.serial [.write [Register.bankSelect, bank]]) true).selected? = some bank := by
  unfold selected?
  exact if_pos rfl

/-- An access that fails selects nothing. -/
theorem Event.selected?_failed (x : Access) : (access x false).selected? = none := by
  unfold selected?
  split
  · rename_i h
    cases h
  · rfl

namespace RegisterOp

/-- What an operation answers if it is carried out at an address, and the memory after it. -/
def actAt (a : Address) : (op : RegisterOp) → Memory → op.Answer × Memory
  | .read _, m => (m a, m)
  | .write _ v, m => ((), m.write a v)
  | .readBlock _ _, m => (Vector.ofFn fun i => m (a + i), m)
  | .update _ mask value, m => ((), m.write a (Bus.merge (m a) mask value))

/-- An operation at a register that a serial bus reaches. It does not write the bank selector. -/
def IsBanked : RegisterOp → Prop
  | .read a | .readBlock a _ => Register.IsReachable a
  | .write a _ | .update a _ _ => Register.IsReachable a ∧ Register.offsetOf a ≠ Register.bankSelect

/-- The address of such an operation is one that a serial bus reaches. -/
theorem IsBanked.isReachable {op : RegisterOp} (h : op.IsBanked) :
    Register.IsReachable op.address := by
  cases op with
  | read a => exact h
  | write a v => exact h.1
  | readBlock a count => exact h
  | update a mask value => exact h.1

end RegisterOp

namespace Bench

/-- The register that the chip is asked for by an access at an address. -/
def place (b : Bench) (a : Address) : Address :=
  match b.bus with
  | .flat => a
  | .serial known =>
    if Register.bankOf a = known then Register.address b.chip.bank (Register.offsetOf a) else a

/-- Only where no selection is needed can the place be another one than asked for. -/
theorem place_of_serial {b : Bench} {known : Byte} (hbus : b.bus = .serial known) (a : Address) :
    b.place a =
      if Register.bankOf a = known then Register.address b.chip.bank (Register.offsetOf a)
      else a := by
  unfold place
  rw [hbus]

/-- From `b` to `c` the trace has grown by the given events, and what they selected last is selected
on both sides of the serial bus. -/
structure Tracks (b c : Bench) (events : List Event) : Prop where
  trace : c.trace = b.trace ++ events
  bus : ∀ known, b.bus = .serial known → c.bus = .serial ((lastSelected events).getD known)
  bank : c.chip.bank = (lastSelected events).getD b.chip.bank

namespace Tracks

variable {b c d : Bench} {events later : List Event}

/-- Where nothing happens both sides keep their bank. -/
theorem refl (b : Bench) : b.Tracks b [] where
  trace := (List.append_nil _).symm
  bus := fun _ h => h
  bank := rfl

/-- The bank after two stretches is the bank after the second, which begins with that of the
first. -/
theorem getD_lastSelected_append (bank : Byte) :
    (lastSelected (events ++ later)).getD bank =
      (lastSelected later).getD ((lastSelected events).getD bank) := by
  rw [lastSelected_append]
  cases lastSelected later <;> rfl

/-- Both sides follow one stretch after the other. -/
theorem trans (h : b.Tracks c events) (h' : c.Tracks d later) : b.Tracks d (events ++ later) where
  trace := by rw [h'.trace, h.trace, List.append_assoc]
  bus := by
    intro known hknown
    rw [getD_lastSelected_append]
    exact h'.bus _ (h.bus known hknown)
  bank := by rw [h'.bank, h.bank, getD_lastSelected_append]

/-- Where nothing is selected no bank changes. -/
theorem of_quiet (htrace : c.trace = b.trace ++ events) (hbus : c.bus = b.bus)
    (hbank : c.chip.bank = b.chip.bank) (hnone : lastSelected events = none) :
    b.Tracks c events where
  trace := htrace
  bus := by
    intro known h
    rw [hbus, h, hnone]
    rfl
  bank := by
    rw [hbank, hnone]
    rfl

end Tracks

end Bench

namespace Bus

open BusM

variable {b : Bench} {known : Byte} {a : Address}

/-- A transaction that fails changes nothing, and the chip takes part in one that succeeds. -/
theorem transact_or_fails (ops : List SerialOp) (b : Bench) :
    let x : Access := .serial ops
    let answered := b.chip.exchange (ops.flatMap SerialOp.sent)
    ∃ c, c.bus = b.bus ∧
      ((exec (transact ops) b = (.error .transfer, c) ∧
          c.trace = b.trace ++ [.access x false] ∧ c.chip = b.chip) ∨
        (exec (transact ops) b = (.ok answered.1, c) ∧
          c.trace = b.trace ++ [.access x true] ∧ c.chip = answered.2)) := by
  intro x answered
  have hchip := b.chip_attempt x
  have hbus := b.bus_attempt x
  have htrace := (b.uses_attempt x).trace
  rw [exec_transact]
  rcases hx : b.attempt x with ⟨_ | _, c⟩ <;> rw [hx] at hchip hbus htrace
  · exact ⟨c, hbus, Or.inl ⟨rfl, htrace, hchip⟩⟩
  · dsimp only at hchip hbus htrace ⊢
    rw [hchip]
    exact ⟨{ c with chip := answered.2 }, hbus, Or.inr ⟨rfl, htrace, rfl⟩⟩

/-- Selecting either fails and changes nothing, or the bus reaches the bank of the address and the
chip is asked for the place of the address from then on. -/
theorem select_tracks (hbus : b.bus = .serial known) (ha : Register.IsReachable a) :
    (∃ fault c x, exec (select known a) b = (.error fault, c) ∧ b.Tracks c [.access x false] ∧
        c.chip = b.chip) ∨
    ∃ c events, exec (select known a) b = (.ok (), c) ∧ b.Tracks c events ∧
      (∀ e ∈ events, e.succeeded = true) ∧ c.bus = .serial (Register.bankOf a) ∧
      c.chip.memory = b.chip.memory ∧
      Register.address c.chip.bank (Register.offsetOf a) = b.place a := by
  rw [b.place_of_serial hbus, exec_select]
  by_cases hbank : Register.bankOf a = known
  · rw [if_pos hbank, if_pos hbank]
    exact Or.inr ⟨b, [], rfl, .refl b, by simp, by rw [hbus, hbank], rfl, rfl⟩
  · rw [if_neg hbank, if_neg hbank]
    obtain ⟨c, hcbus, ⟨hx, htrace, hchip⟩ | ⟨hx, htrace, hchip⟩⟩ :=
      transact_or_fails [.write [Register.bankSelect, Register.bankOf a]] b <;> rw [hx]
    · have hbank : c.chip.bank = b.chip.bank := congrArg SerialChip.bank hchip
      refine Or.inl ⟨_, c, _, rfl, .of_quiet htrace hcbus hbank ?_, hchip⟩
      rw [lastSelected_singleton, Event.selected?_failed]
    · rw [show [SerialOp.write [Register.bankSelect, Register.bankOf a]].flatMap SerialOp.sent =
        [Register.bankSelect, Register.bankOf a] from rfl, SerialChip.exchange_select,
        ha.bankOf_and_mask] at hchip
      have hselected : lastSelected [.access (.serial [.write [Register.bankSelect,
          Register.bankOf a]]) true] = some (Register.bankOf a) := by
        rw [lastSelected_singleton, Event.selected?_selection]
      refine Or.inr ⟨_, _, rfl, ⟨htrace, ?_, ?_⟩, ?_, rfl, ?_, ?_⟩
      · intro _ _
        rw [hselected]
        rfl
      · rw [hselected, hchip]
        rfl
      · simp [Event.succeeded]
      · rw [hchip]
      · rw [hchip]
        exact ha.address_eq

end Bus

namespace RegisterOp

open BusM

/-- How an operation goes on a serial bus. If all of its transactions succeed, the bus has reached
the bank of its register, and the chip has carried it out at the place of that register. Otherwise
it fails and changes no register. -/
structure ActsAt (op : RegisterOp) (b : Bench) (result : Except BusFault op.Answer) (c : Bench)
    (events : List Event) : Prop where
  tracks : b.Tracks c events
  of_ok : ∀ answer, result = .ok answer →
    (∀ e ∈ events, e.succeeded = true) ∧ c.bus = .serial (Register.bankOf op.address) ∧
      c.place op.address = b.place op.address ∧
      (answer, c.chip.memory) = op.actAt (b.place op.address) b.chip.memory
  of_error : ∀ fault, result = .error fault →
    (∃ e ∈ events, e.succeeded = false) ∧ c.chip.memory = b.chip.memory

/-- In whatever bank the chip is, it does in the transaction what the operation does at its offset
there, and the answer is told from what it sends back. -/
def IsCarriedOutBy (op : RegisterOp) (ops : List SerialOp) (finish : List Byte → op.Answer) :
    Prop :=
  ∀ chip : SerialChip,
    let done := op.actAt (Register.address chip.bank (Register.offsetOf op.address)) chip.memory
    finish (chip.exchange (ops.flatMap SerialOp.sent)).1 = done.1 ∧
    (chip.exchange (ops.flatMap SerialOp.sent)).2 = { chip with memory := done.2 }

/-- A read is one exchange whose second answer is the byte. -/
theorem isCarriedOutBy_read {a : Address} (ha : Register.IsReachable a) :
    (read a).IsCarriedOutBy [.exchange [Bus.readHeader a, 0]] fun answers => answers.getD 1 0 := by
  intro chip
  rw [show [SerialOp.exchange [Bus.readHeader a, 0]].flatMap SerialOp.sent =
    (Register.offsetOf a ||| readBit) :: List.replicate 1 0 from rfl,
    SerialChip.exchange_read ha.offset_lt 1 chip]
  exact ⟨by simp [actAt, address], rfl⟩

/-- A write of anything but the selector is one transaction that answers nothing. -/
theorem isCarriedOutBy_write {a : Address} (ha : Register.IsReachable a)
    (hselect : Register.offsetOf a ≠ Register.bankSelect) (v : Byte) :
    (write a v).IsCarriedOutBy [.write [Register.offsetOf a, v]] fun _ => () := by
  intro chip
  rw [show [SerialOp.write [Register.offsetOf a, v]].flatMap SerialOp.sent =
    [Register.offsetOf a, v] from rfl, SerialChip.exchange_write ha.offset_lt hselect v chip]
  exact ⟨rfl, rfl⟩

/-- A block read is one transaction whose answers after the first are the bytes. -/
theorem isCarriedOutBy_readBlock {a : Address} (ha : Register.IsReachable a) (count : Nat) :
    (readBlock a count).IsCarriedOutBy [.write [Bus.readHeader a], .read count] fun answers =>
      Vector.ofFn fun i => answers.getD (i + 1) 0 := by
  intro chip
  rw [show [SerialOp.write [Bus.readHeader a], .read count].flatMap SerialOp.sent =
    (Register.offsetOf a ||| readBit) :: (List.replicate count 0 ++ []) from rfl,
    List.append_nil, SerialChip.exchange_read ha.offset_lt count chip]
  refine ⟨?_, rfl⟩
  apply Vector.ext
  intro i hi
  simp [actAt, address]

/-- An operation that is a selection and one transaction acts at its place. -/
theorem acts_of_transact (op : RegisterOp) {b : Bench} {known : Byte}
    (hbus : b.bus = .serial known) (ha : Register.IsReachable op.address) {ops : List SerialOp}
    (hops : ∀ ok, (Event.access (.serial ops) ok).selected? = none)
    {finish : List Byte → op.Answer} (hfinish : op.IsCarriedOutBy ops finish) :
    let result := exec (do
      Bus.select known op.address
      let answers ← Bus.transact ops
      return finish answers) b
    ∃ events, op.ActsAt b result.1 result.2 events := by
  dsimp only
  rw [exec_bind]
  obtain ⟨fault, c, x, hx, htracks, hchip⟩ | ⟨c, before, hx, htracks, hall, hcbus, hmem, hplace⟩ :=
    Bus.select_tracks hbus ha <;> rw [hx]
  · -- The selection failed, and the transaction was not begun.
    refine ⟨_, htracks, nofun, fun _ _ => ⟨⟨_, List.mem_singleton.mpr rfl, rfl⟩, ?_⟩⟩
    exact congrArg SerialChip.memory hchip
  · dsimp only
    rw [exec_bind]
    have hquiet : ∀ ok, lastSelected [.access (.serial ops) ok] = none := by
      intro ok
      rw [lastSelected_singleton]
      exact hops ok
    obtain ⟨hanswer, hafter⟩ := hfinish c.chip
    obtain ⟨d, hdbus, ⟨hy, htrace, hchip⟩ | ⟨hy, htrace, hchip⟩⟩ := Bus.transact_or_fails ops c <;>
      rw [hy]
    · -- The bank was selected, and then the transaction failed.
      have hstep : c.Tracks d [.access (.serial ops) false] :=
        .of_quiet htrace hdbus (congrArg SerialChip.bank hchip) (hquiet false)
      have hfailed : ∃ e ∈ before ++ [.access (.serial ops) false], e.succeeded = false :=
        ⟨.access (.serial ops) false, by simp, rfl⟩
      refine ⟨_, htracks.trans hstep, nofun, fun _ _ => ⟨hfailed, ?_⟩⟩
      rw [hchip, hmem]
    · rw [hafter] at hchip
      have hbank : d.chip.bank = c.chip.bank := by rw [hchip]
      have hstep : c.Tracks d [.access (.serial ops) true] :=
        .of_quiet htrace hdbus hbank (hquiet true)
      have hreached : d.bus = .serial (Register.bankOf op.address) := hdbus.trans hcbus
      refine ⟨_, htracks.trans hstep, ?_, nofun⟩
      intro answer hok
      cases hok
      have hlast : d.place op.address = b.place op.address := by
        rw [d.place_of_serial hreached, if_pos rfl, hchip]
        exact hplace
      have hgood : ∀ e ∈ before ++ [.access (.serial ops) true], e.succeeded = true :=
        List.forall_mem_append.mpr ⟨hall, List.forall_mem_singleton.mpr rfl⟩
      refine ⟨hgood, hreached, hlast, ?_⟩
      dsimp only
      rw [hanswer, exec_pure, hchip, hplace, hmem]

section

variable {b : Bench} {known : Byte} {a : Address} (hbus : b.bus = .serial known)
  (ha : Register.IsReachable a)
include hbus ha

/-- A read acts at its place. -/
theorem acts_read :
    ∃ events, (read a).ActsAt b (exec (Bus.read a) b).1 (exec (Bus.read a) b).2 events := by
  have h := acts_of_transact (read a) hbus ha (fun _ => rfl) (isCarriedOutBy_read ha)
  rw [Bus.read, exec_bind, exec_getBench]
  dsimp only
  rw [hbus]
  exact h

/-- A write acts at its place. -/
theorem acts_write (hselect : Register.offsetOf a ≠ Register.bankSelect) (v : Byte) :
    ∃ events, (write a v).ActsAt b (exec (Bus.write a v) b).1
      (exec (Bus.write a v) b).2 events := by
  have hops : ∀ ok, (Event.access (.serial [.write [Register.offsetOf a, v]]) ok).selected? =
      none := by
    intro ok
    cases ok with
    | false => exact Event.selected?_failed _
    | true =>
      unfold Event.selected?
      exact if_neg hselect
  have h := acts_of_transact (write a v) hbus ha hops (isCarriedOutBy_write ha hselect v)
  rw [Bus.write, exec_bind, exec_getBench]
  dsimp only
  rw [hbus]
  exact h

/-- A block read acts at its place, and the chip moves on in the bank that it has. -/
theorem acts_readBlock (count : Nat) :
    ∃ events, (readBlock a count).ActsAt b (exec (Bus.readBlock a count) b).1
      (exec (Bus.readBlock a count) b).2 events := by
  have h := acts_of_transact (readBlock a count) hbus ha (fun _ => rfl)
    (isCarriedOutBy_readBlock ha count)
  rw [Bus.readBlock, exec_bind, exec_getBench]
  dsimp only
  rw [hbus]
  exact h

/-- An update reads and writes at the same place. -/
theorem acts_update (hselect : Register.offsetOf a ≠ Register.bankSelect) (mask value : Byte) :
    ∃ events, (update a mask value).ActsAt b (exec (Bus.update a mask value) b).1
      (exec (Bus.update a mask value) b).2 events := by
  rw [Bus.update, exec_bind]
  obtain ⟨events, hread⟩ := acts_read hbus ha
  rcases hx : exec (Bus.read a) b with ⟨fault | old, c⟩ <;> rw [hx] at hread
  · refine ⟨events, hread.tracks, ?_, fun _ _ => hread.of_error fault rfl⟩
    intro answer hok
    cases hok
  · obtain ⟨hall, hcbus, hplace, hread'⟩ := hread.of_ok old rfl
    have hcbus : c.bus = .serial (Register.bankOf a) := hcbus
    have hplace : c.place a = b.place a := hplace
    have hold : old = b.chip.memory (b.place a) := congrArg Prod.fst hread'
    have hmem : c.chip.memory = b.chip.memory := congrArg Prod.snd hread'
    have hafter : (update a mask value).actAt (b.place a) b.chip.memory =
        ((), b.chip.memory.write (b.place a) (Bus.merge old mask value)) := by
      rw [hold]
      rfl
    dsimp only
    by_cases hnew : Bus.merge old mask value = old
    · -- The register holds the value already, so the read was all.
      rw [if_neg (not_not_intro hnew)]
      refine ⟨events, hread.tracks, fun _ _ => ⟨hall, hcbus, hplace, ?_⟩, ?_⟩
      · rw [show (update a mask value).address = a from rfl, hafter, hnew, hold, Memory.write_self]
        exact congrArg (Prod.mk ()) hmem
      · intro fault herror
        cases herror
    · -- The write finds the bank selected by the read, so it acts at the same place.
      obtain ⟨later, hwrite⟩ := acts_write hcbus ha hselect (Bus.merge old mask value)
      rw [if_pos hnew]
      refine ⟨events ++ later, hread.tracks.trans hwrite.tracks, ?_, ?_⟩
      · intro answer hok
        obtain ⟨hall', hdbus, hplace', hwritten⟩ := hwrite.of_ok answer hok
        refine ⟨List.forall_mem_append.mpr ⟨hall, hall'⟩, hdbus, hplace'.trans hplace, ?_⟩
        refine hwritten.trans ?_
        rw [show (update a mask value).address = a from rfl, hafter,
          show (write a (Bus.merge old mask value)).address = a from rfl, hplace, hmem]
        rfl
      · intro fault herror
        obtain ⟨⟨e, he, hfailed⟩, hmem'⟩ := hwrite.of_error fault herror
        exact ⟨⟨e, List.mem_append_right _ he, hfailed⟩, hmem'.trans hmem⟩

end

/-- On a serial bus every operation is carried out at the place of its register or fails, whatever
the chip has selected and whatever transactions fail. -/
theorem acts_of_serial {b : Bench} {known : Byte} (hbus : b.bus = .serial known) {op : RegisterOp}
    (hop : op.IsBanked) :
    ∃ events, op.ActsAt b (op.perform.exec b).1 (op.perform.exec b).2 events := by
  cases op with
  | read a => exact acts_read hbus hop
  | write a v => exact acts_write hbus hop.1 hop.2 v
  | readBlock a count => exact acts_readBlock hbus hop count
  | update a mask value => exact acts_update hbus hop.1 hop.2 mask value

end RegisterOp

end Inertial
