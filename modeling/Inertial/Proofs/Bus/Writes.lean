import Inertial.Proofs.Bus.Replay

/-!
# The writes that took effect

Which registers an access wrote, and with which bytes, can be told from its bytes and from the bank
that the chip had selected. `writes` collects this over a log. It accounts for all that became of
the registers (`memory_replay`), and it does not depend on what they held (`writes_congr`), so it
can be compared between chips that hold something else.
-/

set_option autoImplicit false

namespace Inertial

namespace SerialChip

/-- The register that a data byte at a position of a transaction is written to, with the byte. -/
def written (header : Byte) (position : Nat) (sent : Byte) (c : SerialChip) :
    List (Address × Byte) :=
  let offset := (header &&& ~~~readBit).toNat + position
  if header &&& readBit ≠ 0 ∨ offset = Register.bankSelect.toNat then []
  else [(c.bank.toNat * Register.windowLength + offset, sent)]

/-- The registers that data bytes from a position on are written to. -/
def writtenAll (header : Byte) : Nat → List Byte → SerialChip → List (Address × Byte)
  | _, [], _ => []
  | position, sent :: rest, c =>
    c.written header position sent ++
      writtenAll header (position + 1) rest (c.exchangeData header position sent).2

/-- The writes of a whole transaction. -/
def transactionWrites (sent : List Byte) (c : SerialChip) : List (Address × Byte) :=
  match sent with
  | [] => []
  | header :: rest => c.writtenAll header 0 rest

/-- Writing at an offset other than that of the selector writes the register there in the selected
bank. -/
theorem transactionWrites_write {offset : Byte} (hoffset : offset < 0x80)
    (hselect : offset ≠ Register.bankSelect) (v : Byte) (c : SerialChip) :
    c.transactionWrites [offset, v] = [(Register.address c.bank offset, v)] := by
  have hread : ∀ o : Byte, o < 0x80 → o &&& readBit = 0 := by decide
  have hkeep : ∀ o : Byte, o < 0x80 → o &&& ~~~readBit = o := by decide
  have hne : ¬ offset.toNat = Register.bankSelect.toNat := fun h =>
    hselect (BitVec.eq_of_toNat_eq h)
  simp only [transactionWrites, writtenAll, written, hread offset hoffset, hkeep offset hoffset,
    Nat.add_zero, hne, ne_eq, not_true_eq_false, or_self, if_false, List.append_nil]
  rfl

/-- What becomes of the memory with one byte is told by what that byte writes. -/
theorem memory_exchangeData (header : Byte) (position : Nat) (sent : Byte) (c : SerialChip) :
    (c.exchangeData header position sent).2.memory =
      c.memory.writeAll (c.written header position sent) := by
  unfold exchangeData written
  dsimp only
  by_cases hread : header &&& readBit = 0
  · simp only [hread, ne_eq, not_true_eq_false, if_false, false_or]
    split <;> rfl
  · simp only [hread, ne_eq, not_false_eq_true, if_true, true_or]
    rfl

/-- With several bytes it is told by what they write in their order. -/
theorem memory_exchangeAll (header : Byte) (position : Nat) (sent : List Byte) (c : SerialChip) :
    (c.exchangeAll header position sent).2.memory =
      c.memory.writeAll (c.writtenAll header position sent) := by
  induction sent generalizing position c with
  | nil => rfl
  | cons byte rest ih =>
    rw [exchangeAll, writtenAll, Memory.writeAll, List.foldl_append]
    dsimp only
    rw [ih, memory_exchangeData]
    rfl

/-- So is what becomes of it in a transaction. -/
theorem memory_exchange (sent : List Byte) (c : SerialChip) :
    (c.exchange sent).2.memory = c.memory.writeAll (c.transactionWrites sent) := by
  cases sent with
  | nil => rfl
  | cons header rest => exact c.memory_exchangeAll header 0 rest

/-- Which bank is selected afterwards does not depend on what the registers hold. -/
theorem bank_exchangeData_congr (header : Byte) (position : Nat) (sent : Byte) {c d : SerialChip}
    (h : c.bank = d.bank) :
    (c.exchangeData header position sent).2.bank =
      (d.exchangeData header position sent).2.bank := by
  unfold exchangeData
  dsimp only
  split
  · exact h
  · split
    · rfl
    · exact h

/-- What bytes write, and which bank they leave selected, is told by the bank alone. -/
theorem exchangeAll_congr (header : Byte) (position : Nat) (sent : List Byte) {c d : SerialChip}
    (h : c.bank = d.bank) :
    c.writtenAll header position sent = d.writtenAll header position sent ∧
      (c.exchangeAll header position sent).2.bank =
        (d.exchangeAll header position sent).2.bank := by
  induction sent generalizing position c d with
  | nil => exact ⟨rfl, h⟩
  | cons byte rest ih =>
    obtain ⟨hwritten, hbank⟩ :=
      ih (position + 1) (bank_exchangeData_congr header position byte h)
    refine ⟨?_, hbank⟩
    rw [writtenAll, writtenAll, hwritten]
    unfold written
    rw [h]

/-- So it is for a transaction. -/
theorem exchange_congr (sent : List Byte) {c d : SerialChip} (h : c.bank = d.bank) :
    c.transactionWrites sent = d.transactionWrites sent ∧
      (c.exchange sent).2.bank = (d.exchange sent).2.bank := by
  cases sent with
  | nil => exact ⟨rfl, h⟩
  | cons header rest => exact exchangeAll_congr header 0 rest h

end SerialChip

/-- The writes of an access that succeeds. -/
def Access.writes : Access → SerialChip → List (Address × Byte)
  | .read _, _ | .readBlock _ _, _ => []
  | .write a v, _ => [(a, v)]
  | .serial ops, c => c.transactionWrites (ops.flatMap SerialOp.sent)

/-- The writes of an event, which are none if it was an access that failed. -/
def Event.writes : Event → SerialChip → List (Address × Byte)
  | .access x true, c => x.writes c
  | _, _ => []

/-- The writes of a list of events, each with the register and the byte. -/
def writes : List Event → SerialChip → List (Address × Byte)
  | [], _ => []
  | e :: events, c => e.writes c ++ writes events (e.effect c)

/-- What later events write is told by the chip after the earlier ones. -/
theorem writes_append (events later : List Event) (c : SerialChip) :
    writes (events ++ later) c = writes events c ++ writes later (replay events c) := by
  induction events generalizing c with
  | nil => rfl
  | cons e events ih =>
    rw [List.cons_append, writes, writes, ih, List.append_assoc, replay_cons]

/-- An event makes of the memory what it writes. -/
theorem Event.memory_effect (e : Event) (c : SerialChip) :
    (e.effect c).memory = c.memory.writeAll (e.writes c) := by
  cases e with
  | access x ok =>
    cases ok with
    | false => rfl
    | true =>
      cases x with
      | serial ops => exact c.memory_exchange (ops.flatMap SerialOp.sent)
      | _ => rfl
  | _ => rfl

/-- The registers hold what was written to them. -/
theorem memory_replay (events : List Event) (c : SerialChip) :
    (replay events c).memory = c.memory.writeAll (writes events c) := by
  induction events generalizing c with
  | nil => rfl
  | cons e events ih =>
    rw [replay_cons, ih, e.memory_effect, writes, Memory.writeAll, Memory.writeAll,
      Memory.writeAll, List.foldl_append]

/-- What an event writes is told by the bank alone. -/
theorem Event.writes_congr (e : Event) {c d : SerialChip} (h : c.bank = d.bank) :
    e.writes c = e.writes d ∧ (e.effect c).bank = (e.effect d).bank := by
  cases e with
  | access x ok =>
    cases ok with
    | false => exact ⟨rfl, h⟩
    | true =>
      cases x with
      | serial ops => exact SerialChip.exchange_congr (ops.flatMap SerialOp.sent) h
      | _ => exact ⟨rfl, h⟩
  | _ => exact ⟨rfl, h⟩

/-- What was written does not depend on what the registers held. -/
theorem writes_congr (events : List Event) {c d : SerialChip} (h : c.bank = d.bank) :
    writes events c = writes events d := by
  induction events generalizing c d with
  | nil => rfl
  | cons e events ih =>
    obtain ⟨hwrites, hbank⟩ := e.writes_congr h
    rw [writes, writes, hwrites, ih hbank]

/-- Writing something into memories that hold anything changes one of them. -/
theorem Memory.eq_nil_of_writeAll {contents : List (Address × Byte)}
    (h : ∀ m : Memory, m.writeAll contents = m) : contents = [] := by
  rcases List.eq_nil_or_concat contents with hnil | ⟨older, ⟨a, v⟩, rfl⟩
  · exact hnil
  · have hother := congrFun (h fun _ => ~~~v) a
    rw [List.concat_eq_append, writeAll, List.foldl_append] at hother
    change (Memory.write _ a v) a = ~~~v at hother
    rw [write_same] at hother
    have hne : ∀ w : Byte, w ≠ ~~~w := by decide
    exact absurd hother (hne v)

/-- An event that changes no register, whatever the registers hold, writes none. -/
theorem Event.writes_of_isHarmless {e : Event} (he : e.IsHarmless) (c : SerialChip) :
    e.writes c = [] := by
  refine Memory.eq_nil_of_writeAll fun m => ?_
  have hsame : e.writes c = e.writes { c with memory := m } :=
    (e.writes_congr (show c.bank = ({ c with memory := m } : SerialChip).bank from rfl)).1
  have heffect := e.memory_effect { c with memory := m }
  rw [he] at heffect
  rw [hsame]
  exact heffect.symm

/-- Harmless events write nothing. -/
theorem writes_of_isHarmless {events : List Event} (h : ∀ e ∈ events, e.IsHarmless)
    (c : SerialChip) : writes events c = [] := by
  induction events generalizing c with
  | nil => rfl
  | cons e events ih =>
    rw [writes, Event.writes_of_isHarmless (h e List.mem_cons_self) c,
      ih fun e' he' => h e' (List.mem_cons_of_mem e he')]
    rfl

end Inertial
