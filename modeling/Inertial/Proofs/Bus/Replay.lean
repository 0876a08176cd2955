import Inertial.Proofs.Bus.BankSelection

/-!
# The chip as told from the log

An access that succeeded does to the chip what its bytes say, and everything else that is logged
leaves the chip alone. So the state of the chip can be told from the log (`replay`), and one can ask
of a single event what it changed.

An operation on registers logs events of which only the last may change a register: those before it
select a bank or read (`RegisterOp.exists_logged`).
-/

set_option autoImplicit false

namespace Inertial

/-- What an access does to the chip when it succeeds. -/
def Access.effect : Access → SerialChip → SerialChip
  | .read _, c | .readBlock _ _, c => c
  | .write a v, c => { c with memory := c.memory.write a v }
  | .serial ops, c => (c.exchange (ops.flatMap SerialOp.sent)).2

/-- What an event does to the chip. -/
def Event.effect : Event → SerialChip → SerialChip
  | .access x true, c => x.effect c
  | _, c => c

/-- The chip after a list of events. -/
def replay (events : List Event) (c : SerialChip) : SerialChip :=
  events.foldl (fun c e => e.effect c) c

/-- Where nothing happened the chip is as it was. -/
@[simp] theorem replay_nil (c : SerialChip) : replay [] c = c := rfl

/-- Events do to the chip what they do one after the other. -/
@[simp] theorem replay_cons (e : Event) (events : List Event) (c : SerialChip) :
    replay (e :: events) c = replay events (e.effect c) := rfl

/-- Later events go on from the chip that earlier ones left. -/
theorem replay_append (events later : List Event) (c : SerialChip) :
    replay (events ++ later) c = replay later (replay events c) :=
  List.foldl_append

/-- The event changes no register, whatever the registers hold. -/
def Event.IsHarmless (e : Event) : Prop :=
  ∀ c : SerialChip, (e.effect c).memory = c.memory

namespace Event

/-- Selecting a bank changes no register. -/
theorem isHarmless_selection (bank : Byte) (ok : Bool) :
    (access (.serial [.write [Register.bankSelect, bank]]) ok).IsHarmless := by
  intro c
  cases ok with
  | false => rfl
  | true => exact congrArg (·.2.memory) (SerialChip.exchange_select bank c)

/-- A transaction whose header asks for a read changes no register. -/
theorem isHarmless_serial_read {ops : List SerialOp} {header : Byte} {count : Nat}
    (hops : ops.flatMap SerialOp.sent = header :: List.replicate count 0)
    (hread : header &&& readBit ≠ 0) (ok : Bool) : (access (.serial ops) ok).IsHarmless := by
  intro c
  cases ok with
  | false => rfl
  | true =>
    change (c.exchange (ops.flatMap SerialOp.sent)).2.memory = c.memory
    rw [hops, SerialChip.exchange, SerialChip.exchangeAll_read hread]

end Event

/-- Harmless events leave all registers as they are. -/
theorem memory_replay_of_isHarmless {events : List Event} (h : ∀ e ∈ events, e.IsHarmless)
    (c : SerialChip) : (replay events c).memory = c.memory := by
  induction events generalizing c with
  | nil => rfl
  | cons e events ih =>
    rw [replay_cons, ih fun e' he' => h e' (List.mem_cons_of_mem e he')]
    exact h e List.mem_cons_self c

/-- From `b` to `c` the given accesses were logged, and they tell what became of the chip. -/
structure Bench.Logged (b c : Bench) (events : List Event) : Prop where
  trace : c.trace = b.trace ++ events
  chip : c.chip = replay events b.chip
  isAccess : ∀ e ∈ events, ∃ x ok, e = .access x ok

namespace Bench.Logged

variable {b c d : Bench} {events later : List Event}

/-- A bench is what it is when nothing is logged. -/
theorem refl (b : Bench) : b.Logged b [] where
  trace := (List.append_nil _).symm
  chip := rfl
  isAccess := by simp

/-- What is logged in two stretches is logged in one. -/
theorem trans (h : b.Logged c events) (h' : c.Logged d later) : b.Logged d (events ++ later) where
  trace := by rw [h'.trace, h.trace, List.append_assoc]
  chip := by rw [h'.chip, h.chip, replay_append]
  isAccess := by
    intro e he
    rcases List.mem_append.mp he with he | he
    · exact h.isAccess e he
    · exact h'.isAccess e he

/-- An attempt, once what it does to the chip is done. -/
theorem attempt {x : Access} {ok : Bool} (hx : b.attempt x = (ok, c)) {chip : SerialChip}
    (hchip : chip = (Event.access x ok).effect b.chip) (bus : Bus) :
    b.Logged { c with chip, bus } [.access x ok] where
  trace := by
    obtain ⟨rfl, rfl⟩ := Prod.mk.inj hx
    rfl
  chip := hchip
  isAccess := by
    intro e he
    exact ⟨x, ok, List.mem_singleton.mp he⟩

/-- An attempt that does nothing to the chip. -/
theorem attempt_idle {x : Access} {ok : Bool} (hx : b.attempt x = (ok, c))
    (hidle : (Event.access x ok).effect b.chip = b.chip) : b.Logged c [.access x ok] := by
  have hchip : c.chip = b.chip := by
    obtain ⟨rfl, rfl⟩ := Prod.mk.inj hx
    rfl
  exact attempt hx (hchip.trans hidle.symm) c.bus

end Bench.Logged

namespace Bus

open BusM

/-- A serial transaction is logged as such. -/
theorem logged_transact (ops : List SerialOp) (b : Bench) :
    ∃ ok, b.Logged (exec (transact ops) b).2 [.access (.serial ops) ok] := by
  rw [exec_transact]
  have hchip := b.chip_attempt (.serial ops)
  rcases hx : b.attempt (.serial ops) with ⟨ok, c⟩
  rw [hx] at hchip
  dsimp only at hchip
  cases ok with
  | false => exact ⟨false, .attempt_idle hx rfl⟩
  | true => exact ⟨true, .attempt hx (by rw [hchip]; rfl) c.bus⟩

/-- Selecting a bank logs nothing that changes a register. -/
theorem logged_select (current : Byte) (a : Address) (b : Bench) :
    ∃ events, b.Logged (exec (select current a) b).2 events ∧ ∀ e ∈ events, e.IsHarmless := by
  rw [exec_select]
  split
  · exact ⟨[], .refl b, by simp⟩
  · obtain ⟨ok, hlogged⟩ := logged_transact [.write [Register.bankSelect, Register.bankOf a]] b
    refine ⟨[.access (.serial [.write [Register.bankSelect, Register.bankOf a]]) ok], ?_, ?_⟩
    · rcases hx : exec (transact [.write [Register.bankSelect, Register.bankOf a]]) b with
        ⟨fault | _, c⟩
      · rw [hx] at hlogged
        exact hlogged
      · rw [hx] at hlogged
        exact ⟨hlogged.trace, hlogged.chip, hlogged.isAccess⟩
    · intro e he
      rw [List.mem_singleton.mp he]
      exact Event.isHarmless_selection _ ok

/-- A selection and a transaction after it are logged as such, the latter unless the former fails.
-/
theorem logged_serial {α : Type} (current : Byte) (a : Address) (ops : List SerialOp)
    (f : List Byte → α) (b : Bench) :
    ∃ quiet last, b.Logged (exec (do
        select current a
        let answers ← transact ops
        return f answers) b).2 (quiet ++ last) ∧ (∀ e ∈ quiet, e.IsHarmless) ∧
      (last = [] ∨ ∃ ok, last = [.access (.serial ops) ok]) := by
  obtain ⟨quiet, hselect, hquiet⟩ := logged_select current a b
  rw [exec_bind]
  rcases hx : exec (select current a) b with ⟨fault | _, c⟩
  · rw [hx] at hselect
    exact ⟨quiet, [], (List.append_nil quiet).symm ▸ hselect, hquiet, Or.inl rfl⟩
  · rw [hx] at hselect
    obtain ⟨ok, htransact⟩ := logged_transact ops c
    dsimp only
    rw [exec_bind]
    rcases hy : exec (transact ops) c with ⟨fault | answers, d⟩
    · rw [hy] at htransact
      exact ⟨quiet, _, hselect.trans htransact, hquiet, Or.inr ⟨ok, rfl⟩⟩
    · rw [hy] at htransact
      exact ⟨quiet, _, hselect.trans htransact, hquiet, Or.inr ⟨ok, rfl⟩⟩

/-- The header of a read asks for one. -/
theorem readHeader_and_readBit (a : Address) : readHeader a &&& readBit ≠ 0 := by
  have hread : ∀ o : Byte, (o ||| readBit) &&& readBit ≠ 0 := by decide
  exact hread _

/-- Reads log nothing that changes a register. -/
theorem logged_serial_read {α : Type} (current : Byte) (a : Address) {ops : List SerialOp}
    {count : Nat} (hops : ops.flatMap SerialOp.sent = readHeader a :: List.replicate count 0)
    (f : List Byte → α) (b : Bench) :
    ∃ events, b.Logged (exec (do
        select current a
        let answers ← transact ops
        return f answers) b).2 events ∧ ∀ e ∈ events, e.IsHarmless := by
  obtain ⟨quiet, last, hlogged, hquiet, hlast⟩ := logged_serial current a ops f b
  refine ⟨quiet ++ last, hlogged, ?_⟩
  intro e he
  rcases List.mem_append.mp he with he | he
  · exact hquiet e he
  · rcases hlast with rfl | ⟨ok, rfl⟩
    · cases he
    · rw [List.mem_singleton.mp he]
      exact Event.isHarmless_serial_read hops (readHeader_and_readBit a) ok

/-- Reading logs accesses that change no register. -/
theorem logged_read (a : Address) (b : Bench) :
    ∃ events, b.Logged (exec (read a) b).2 events ∧ ∀ e ∈ events, e.IsHarmless := by
  cases hbus : b.bus with
  | flat =>
    rw [exec_read_flat hbus]
    rcases hx : b.attempt (.read a) with ⟨ok, c⟩
    refine ⟨[.access (.read a) ok], ?_, ?_⟩
    · cases ok <;> exact .attempt_idle hx rfl
    · intro e he
      rw [List.mem_singleton.mp he]
      cases ok <;> exact fun _ => rfl
  | serial current =>
    have hops : [SerialOp.exchange [readHeader a, 0]].flatMap SerialOp.sent =
        readHeader a :: List.replicate 1 0 := rfl
    have h := logged_serial_read current a hops (fun answers => answers.getD 1 0) b
    rw [read, exec_bind, exec_getBench]
    dsimp only
    rw [hbus]
    exact h

/-- So does reading a run of registers. -/
theorem logged_readBlock (a : Address) (count : Nat) (b : Bench) :
    ∃ events, b.Logged (exec (readBlock a count) b).2 events ∧ ∀ e ∈ events, e.IsHarmless := by
  cases hbus : b.bus with
  | flat =>
    rw [exec_readBlock_flat hbus]
    rcases hx : b.attempt (.readBlock a count) with ⟨ok, c⟩
    refine ⟨[.access (.readBlock a count) ok], ?_, ?_⟩
    · cases ok <;> exact .attempt_idle hx rfl
    · intro e he
      rw [List.mem_singleton.mp he]
      cases ok <;> exact fun _ => rfl
  | serial current =>
    have hops : [SerialOp.write [readHeader a], .read count].flatMap SerialOp.sent =
        readHeader a :: List.replicate count 0 :=
      congrArg (readHeader a :: ·) (List.append_nil _)
    have h := logged_serial_read current a hops
      (fun answers => (Vector.ofFn fun i => answers.getD (i + 1) 0 : Vector Byte count)) b
    rw [readBlock, exec_bind, exec_getBench]
    dsimp only
    rw [hbus]
    exact h

/-- A write logs one access that may change a register, after selections at most. -/
theorem logged_write (a : Address) (v : Byte) (b : Bench) :
    ∃ quiet last, b.Logged (exec (write a v) b).2 (quiet ++ last) ∧
      (∀ e ∈ quiet, e.IsHarmless) ∧ last.length ≤ 1 := by
  cases hbus : b.bus with
  | flat =>
    rw [exec_write_flat hbus]
    have hchip := b.chip_attempt (.write a v)
    rcases hx : b.attempt (.write a v) with ⟨ok, c⟩
    rw [hx] at hchip
    refine ⟨[], [.access (.write a v) ok], ?_, by simp, Nat.le_refl 1⟩
    cases ok with
    | false => exact .attempt_idle hx rfl
    | true => exact .attempt hx (by rw [hchip]; rfl) c.bus
  | serial current =>
    obtain ⟨quiet, last, hlogged, hquiet, hlast⟩ :=
      logged_serial current a [.write [Register.offsetOf a, v]] (fun _ => ()) b
    rw [write, exec_bind, exec_getBench]
    dsimp only
    rw [hbus]
    refine ⟨quiet, last, hlogged, hquiet, ?_⟩
    rcases hlast with rfl | ⟨ok, rfl⟩ <;> simp

end Bus

/-- What an operation on registers logs tells what becomes of the chip, and no event of it but the
last can change a register. -/
theorem RegisterOp.exists_logged (op : RegisterOp) (b : Bench) :
    ∃ quiet last, b.Logged (op.perform.exec b).2 (quiet ++ last) ∧
      (∀ e ∈ quiet, e.IsHarmless) ∧ last.length ≤ 1 := by
  have hreading : ∀ {c : Bench}, (∃ events, b.Logged c events ∧ ∀ e ∈ events, e.IsHarmless) →
      ∃ quiet last, b.Logged c (quiet ++ last) ∧ (∀ e ∈ quiet, e.IsHarmless) ∧
        last.length ≤ 1 := by
    rintro c ⟨events, hlogged, hharmless⟩
    exact ⟨events, [], (List.append_nil events).symm ▸ hlogged, hharmless, Nat.zero_le 1⟩
  cases op with
  | read a => exact hreading (Bus.logged_read a b)
  | write a v => exact Bus.logged_write a v b
  | readBlock a count => exact hreading (Bus.logged_readBlock a count b)
  | update a mask value =>
    obtain ⟨reading, hread, hreadquiet⟩ := Bus.logged_read a b
    rw [perform, Bus.update, BusM.exec_bind]
    rcases hx : BusM.exec (Bus.read a) b with ⟨fault | old, c⟩
    · rw [hx] at hread
      exact hreading ⟨reading, hread, hreadquiet⟩
    · rw [hx] at hread
      dsimp only
      split
      · obtain ⟨quiet, last, hwrite, hquiet, hlast⟩ :=
          Bus.logged_write a (Bus.merge old mask value) c
        refine ⟨reading ++ quiet, last, List.append_assoc .. ▸ hread.trans hwrite, ?_, hlast⟩
        intro e he
        rcases List.mem_append.mp he with he | he
        · exact hreadquiet e he
        · exact hquiet e he
      · exact hreading ⟨reading, hread, hreadquiet⟩

end Inertial
