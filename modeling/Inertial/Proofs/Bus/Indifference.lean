import Inertial.Bench.Bus

/-!
# What a use of the bus does not depend on

The answers that an operation on registers gives depend on the chip, on the selected bank and on
what the plan says about the accesses, and on nothing else of the bench. So two benches that agree
in these, as a relation `R` between benches may say in its own way, give the same answers and stay
in that relation (`RegisterOp.respects_perform`).
-/

set_option autoImplicit false

namespace Inertial

/-- A relation between benches that show the driver the same, and do so after whatever happens on
both. -/
structure Bench.IsLikeness (R : Bench → Bench → Prop) : Prop where
  chip : ∀ {b c}, R b c → b.chip = c.chip
  bus : ∀ {b c}, R b c → b.bus = c.bus
  setChip : ∀ {b c}, R b c → ∀ chip, R { b with chip } { c with chip }
  setBus : ∀ {b c}, R b c → ∀ bus, R { b with bus } { c with bus }
  attempt : ∀ {b c}, R b c → ∀ x, (b.attempt x).1 = (c.attempt x).1 ∧
    R (b.attempt x).2 (c.attempt x).2
  switch : ∀ {b c}, R b c → ∀ r on, (b.switch r on).1 = (c.switch r on).1 ∧
    R (b.switch r on).2 (c.switch r on).2
  raise : ∀ {b c}, R b c → ∀ now, R (b.raise now) (c.raise now)
  log : ∀ {b c}, R b c → ∀ e, R (b.log e) (c.log e)

namespace BusM

variable {R : Bench → Bench → Prop} {α β : Type}

/-- On related benches the use of the bus has the same result and leaves related benches. -/
def Respects (R : Bench → Bench → Prop) (x : BusM α) : Prop :=
  ∀ b c, R b c → (x.exec b).1 = (x.exec c).1 ∧ R (x.exec b).2 (x.exec c).2

/-- What does nothing respects every relation. -/
theorem respects_pure (a : α) : Respects R (pure a) := by
  intro b c h
  exact ⟨rfl, h⟩

/-- Two uses of the bus respect a relation one after the other. -/
theorem Respects.bind {x : BusM α} {f : α → BusM β} (hx : Respects R x)
    (hf : ∀ a, Respects R (f a)) : Respects R (x >>= f) := by
  intro b c h
  obtain ⟨hanswer, hafter⟩ := hx b c h
  rw [exec_bind, exec_bind]
  rcases hb : x.exec b with ⟨e | a, b'⟩
  · rcases hc : x.exec c with ⟨e' | a', c'⟩
    · rw [hb, hc] at hanswer hafter
      cases hanswer
      exact ⟨rfl, hafter⟩
    · rw [hb, hc] at hanswer
      cases hanswer
  · rcases hc : x.exec c with ⟨e' | a', c'⟩
    · rw [hb, hc] at hanswer
      cases hanswer
    · rw [hb, hc] at hanswer hafter
      cases hanswer
      exact hf a b' c' hafter

/-- What looks at the bench respects the relation if what it goes on to do is the same for both. -/
theorem respects_get {f : Bench → BusM α} (hf : ∀ b c, R b c → f b = f c)
    (hrest : ∀ b, Respects R (f b)) : Respects R (getThe Bench >>= f) := by
  intro b c h
  rw [exec_bind, exec_bind, exec_getBench, exec_getBench]
  dsimp only
  rw [hf b c h]
  exact hrest c b c h

/-- A change that keeps benches related respects the relation. -/
theorem respects_modify {f : Bench → Bench} (hf : ∀ b c, R b c → R (f b) (f c)) :
    Respects R (modifyThe Bench f) := by
  intro b c h
  exact ⟨rfl, hf b c h⟩

end BusM

namespace Bus

open BusM

variable {R : Bench → Bench → Prop} (hR : Bench.IsLikeness R)
include hR

/-- An attempt goes the same way on both benches. -/
theorem respects_attempt (x : Access) (fault : BusFault) : Respects R (attempt x fault) := by
  intro b c h
  obtain ⟨hok, hafter⟩ := hR.attempt h x
  rw [exec_attempt, exec_attempt]
  rcases hb : b.attempt x with ⟨ok, b'⟩
  rcases hc : c.attempt x with ⟨ok', c'⟩
  rw [hb, hc] at hok hafter
  dsimp only at hok
  subst hok
  cases ok <;> exact ⟨rfl, hafter⟩

/-- So does a transaction, since the chips are the same. -/
theorem respects_transact (ops : List SerialOp) : Respects R (transact ops) := by
  refine (respects_attempt hR _ _).bind fun _ => ?_
  intro b c h
  have hchip := hR.chip h
  constructor
  · change Except.ok (b.chip.exchange _).1 = Except.ok (c.chip.exchange _).1
    rw [hchip]
  · change R { b with chip := (b.chip.exchange _).2 } { c with chip := (c.chip.exchange _).2 }
    rw [hchip]
    exact hR.setChip h _

/-- So does a selection, since the buses are the same. -/
theorem respects_select (current : Byte) (a : Address) : Respects R (select current a) := by
  unfold select
  dsimp only
  split
  · refine (respects_transact hR _).bind fun _ => ?_
    exact respects_modify fun b c h => hR.setBus h _
  · exact respects_pure ()

/-- What an operation does depends on the kind of the bus. -/
theorem respects_byBus {α : Type} {flat : BusM α} {serial : Byte → BusM α}
    {f : Bench → BusM α} (hf : ∀ b, f b = match b.bus with
      | .flat => flat
      | .serial current => serial current)
    (hflat : Respects R flat) (hserial : ∀ current, Respects R (serial current)) :
    Respects R (getThe Bench >>= f) := by
  apply respects_get
  · intro b c h
    rw [hf, hf, hR.bus h]
  · intro b
    rw [hf]
    split
    · exact hflat
    · exact hserial _

/-- What is read from the memory of the chip is the same. -/
theorem respects_memory {α : Type} (f : Memory → α) :
    Respects R (getThe Bench >>= fun b => pure (f b.chip.memory)) := by
  apply respects_get
  · intro b c h
    rw [hR.chip h]
  · intro b
    exact respects_pure _

/-- A serial bus selects the bank and then does one transaction. -/
theorem respects_serial {α : Type} (current : Byte) (a : Address) (ops : List SerialOp)
    (f : List Byte → α) : Respects R (do
      select current a
      let answers ← transact ops
      return f answers) := by
  refine (respects_select hR current a).bind fun _ => (respects_transact hR ops).bind fun _ => ?_
  exact respects_pure _

/-- So does reading a register. -/
theorem respects_read (a : Address) : Respects R (read a) := by
  refine respects_byBus hR (fun _ => rfl) ?_ fun current => respects_serial hR current a _ _
  exact (respects_attempt hR _ _).bind fun _ => respects_memory hR fun memory => memory a

/-- So does writing one. -/
theorem respects_write (a : Address) (v : Byte) : Respects R (write a v) := by
  refine respects_byBus hR (fun _ => rfl) ?_ fun current => respects_serial hR current a _ _
  refine (respects_attempt hR _ _).bind fun _ => respects_modify ?_
  intro b c h
  unfold Bench.poke
  rw [hR.chip h]
  exact hR.setChip h _

/-- So does reading a run of registers. -/
theorem respects_readBlock (a : Address) (count : Nat) : Respects R (readBlock a count) := by
  refine respects_byBus hR (fun _ => rfl) ?_ fun current => respects_serial hR current a _ _
  exact (respects_attempt hR _ _).bind fun _ => respects_memory hR fun memory =>
    Vector.ofFn fun i => memory ((a + i) % flatLength)

/-- So does updating one: what is read decides in both whether to write. -/
theorem respects_update (a : Address) (mask value : Byte) : Respects R (update a mask value) := by
  refine (respects_read hR a).bind fun old => ?_
  dsimp only
  split
  · exact respects_write hR a _
  · exact respects_pure ()

end Bus

/-- An operation on registers cannot tell related benches apart. -/
theorem RegisterOp.respects_perform {R : Bench → Bench → Prop} (hR : Bench.IsLikeness R)
    (op : RegisterOp) : BusM.Respects R op.perform := by
  cases op with
  | read a => exact Bus.respects_read hR a
  | write a v => exact Bus.respects_write hR a v
  | readBlock a count => exact Bus.respects_readBlock hR a count
  | update a mask value => exact Bus.respects_update hR a mask value

end Inertial
