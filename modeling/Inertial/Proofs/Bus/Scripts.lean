import Inertial.Proofs.Bus.Steadiness
import Inertial.Proofs.Bus.Writes

/-!
# What an operation attempts

Which accesses a read or a write is made of is known before it begins: the selection of the bank if
another one is selected, and then one access at the register. The operation attempts them in order
and stops at the first that fails, with the fault of that access (`Bus.Plays`). On a bench whose
plan fails nothing it gets to the end of them (`Bus.Plays.of_neverFails`). A register of the first
bank is reached by a single access as long as that bank is selected.
-/

set_option autoImplicit false

namespace Inertial

/-- What an access that fails is reported as. -/
def Access.fault : Access → BusFault
  | .read a => .read a
  | .write a _ => .write a
  | .readBlock a _ => .readBlock a
  | .serial _ => .transfer

/-- The event as it would be if nothing failed. -/
def Event.asSuccess : Event → Event
  | .access x _ => .access x true
  | .switch r on _ => .switch r on true
  | e => e

/-! ## Benches on which nothing fails -/

namespace Bench

/-- The plan fails neither accesses nor switches. -/
structure NeverFails (b : Bench) : Prop where
  access : ∀ k x, b.plan.failsAccess k x = false
  switch : ∀ k r on, b.plan.failsSwitch k r on = false

/-- Whether anything can fail is a matter of the plan. -/
theorem NeverFails.congr {b c : Bench} (h : b.NeverFails) (hplan : c.plan = b.plan) :
    c.NeverFails where
  access := by
    rw [hplan]
    exact h.access
  switch := by
    rw [hplan]
    exact h.switch

/-- Then every rail is switched that is to be. -/
theorem NeverFails.switch_fst {b : Bench} (h : b.NeverFails) (r : Rail) (on : Bool) :
    (b.switch r on).1 = true := by
  rw [Bench.switch_fst, h.switch]
  exact Bool.or_true _

/-- Nothing can fail, and nothing has since the trace was `past`. -/
def FlawlessSince (past : List Event) (b : Bench) : Prop :=
  b.NeverFails ∧ ∃ events, b.trace = past ++ events ∧ ∀ e ∈ events, e.asSuccess = e

/-- A bench on which nothing can fail has nothing failed on it since now. -/
theorem NeverFails.flawlessSince {b : Bench} (h : b.NeverFails) : b.FlawlessSince b.trace :=
  ⟨h, [], (List.append_nil _).symm, by simp⟩

/-- One more event that is a success. -/
theorem FlawlessSince.concat {past : List Event} {b c : Bench} {e : Event}
    (h : b.FlawlessSince past) (hplan : c.plan = b.plan) (htrace : c.trace = b.trace ++ [e])
    (he : e.asSuccess = e) : c.FlawlessSince past := by
  obtain ⟨hnever, events, hevents, hall⟩ := h
  refine ⟨hnever.congr hplan, events ++ [e], ?_, ?_⟩
  · rw [htrace, hevents, List.append_assoc]
  · intro e' he'
    rcases List.mem_append.mp he' with he' | he'
    · exact hall e' he'
    · rw [List.mem_singleton.mp he']
      exact he

/-- Where nothing can fail nothing fails. -/
theorem isSteady_flawlessSince (bank : Byte) (past : List Event) :
    IsSteady bank (FlawlessSince past) where
  attempt := by
    intro b x h
    refine h.concat rfl rfl ?_
    simp [Event.asSuccess, h.1.access]
  setChip := fun _ _ h => ⟨h.1.congr rfl, h.2⟩
  select := fun _ h => ⟨h.1.congr rfl, h.2⟩

end Bench

/-! ## Scripts -/

namespace Bus

open BusM

/-- The accesses by which the bank of an address is selected, unless it is. -/
def selecting : Bus → Address → List Access
  | .flat, _ => []
  | .serial current, a =>
    if Register.bankOf a = current then []
    else [.serial [.write [Register.bankSelect, Register.bankOf a]]]

/-- The access by which a register is read, if its bank is selected. -/
def readAccess : Bus → Address → Access
  | .flat, a => .read a
  | .serial _, a => .serial [.exchange [readHeader a, 0]]

/-- The access by which a register is written, if its bank is selected. -/
def writeAccess : Bus → Address → Byte → Access
  | .flat, a, v => .write a v
  | .serial _, a, v => .serial [.write [Register.offsetOf a, v]]

/-- The accesses are attempted in order. If all of them succeed so does the use of the bus, and
otherwise it fails as the first that fails. -/
def Plays {α : Type} (script : List Access) (x : BusM α) (b : Bench) : Prop :=
  (∃ a, (exec x b).1 = .ok a ∧ (exec x b).2.trace = b.trace ++ script.map (.access · true)) ∨
  ∃ good last rest, script = good ++ last :: rest ∧ (exec x b).1 = .error last.fault ∧
    (exec x b).2.trace = b.trace ++ (good.map (.access · true) ++ [.access last false])

section

variable {α β : Type} {script later : List Access} {b : Bench}

/-- What attempts nothing plays nothing. -/
theorem plays_nil {x : BusM α} {a : α} {c : Bench} (hx : exec x b = (.ok a, c))
    (htrace : c.trace = b.trace) : Plays [] x b := by
  refine Or.inl ⟨a, ?_, ?_⟩ <;> rw [hx]
  exact htrace.trans (List.append_nil _).symm

/-- An attempt plays its one access. -/
theorem plays_attempt (x : Access) (b : Bench) : Plays [x] (attempt x x.fault) b := by
  have htrace := (b.uses_attempt x).trace
  unfold Plays
  rw [exec_attempt]
  rcases hx : b.attempt x with ⟨_ | _, c⟩
  · rw [hx] at htrace
    exact Or.inr ⟨[], x, [], rfl, rfl, htrace⟩
  · rw [hx] at htrace
    exact Or.inl ⟨(), rfl, htrace⟩

/-- The second script is played after the first, unless that was stopped. -/
theorem Plays.bind {x : BusM α} {f : α → BusM β} (hx : Plays script x b)
    (hf : ∀ a c, exec x b = (.ok a, c) → Plays later (f a) c) :
    Plays (script ++ later) (x >>= f) b := by
  unfold Plays
  rw [exec_bind]
  obtain ⟨a, hok, htrace⟩ | ⟨good, last, rest, hscript, herror, htrace⟩ := hx
  · obtain ⟨c, hexec⟩ : ∃ c, exec x b = (.ok a, c) := ⟨_, Prod.ext hok rfl⟩
    rw [hexec] at htrace ⊢
    dsimp only at htrace ⊢
    obtain ⟨a', hok', htrace'⟩ | ⟨good, last, rest, hlater, herror', htrace'⟩ := hf a c hexec
    · refine Or.inl ⟨a', hok', ?_⟩
      rw [htrace', htrace, List.append_assoc, List.map_append]
    · refine Or.inr ⟨script ++ good, last, rest, ?_, herror', ?_⟩
      · rw [hlater, List.append_assoc]
      · rw [htrace', htrace, List.map_append, List.append_assoc, List.append_assoc]
  · obtain ⟨c, hexec⟩ : ∃ c, exec x b = (.error last.fault, c) := ⟨_, Prod.ext herror rfl⟩
    rw [hexec] at htrace ⊢
    refine Or.inr ⟨good, last, rest ++ later, ?_, rfl, htrace⟩
    rw [hscript, List.append_assoc]
    rfl

/-- What attempts nothing plays nothing, also after a script. -/
theorem Plays.bind_nil {x : BusM α} {f : α → BusM β} (hx : Plays script x b)
    (hf : ∀ a c, ∃ a' d, exec (f a) c = (.ok a', d) ∧ d.trace = c.trace) :
    Plays script (x >>= f) b := by
  have h := hx.bind fun a c _ => by
    obtain ⟨a', d, hexec, htrace⟩ := hf a c
    exact plays_nil hexec htrace
  rw [List.append_nil] at h
  exact h

/-- Looking at the bench is no access. -/
theorem plays_get {f : Bench → BusM α} (hf : Plays script (f b) b) :
    Plays script (getThe Bench >>= f) b := by
  unfold Plays
  rw [exec_bind, exec_getBench]
  exact hf

end

/-- A transaction plays one access. -/
theorem plays_transact (ops : List SerialOp) (b : Bench) :
    Plays [.serial ops] (transact ops) b :=
  (plays_attempt (.serial ops) b).bind_nil fun _ _ => ⟨_, _, rfl, rfl⟩

/-- A selection plays one access or none. -/
theorem plays_select (current : Byte) (a : Address) (b : Bench) :
    Plays (selecting (.serial current) a) (select current a) b := by
  unfold selecting select
  dsimp only
  by_cases hbank : Register.bankOf a = current
  · rw [if_pos hbank, if_neg (not_not_intro hbank)]
    exact plays_nil rfl rfl
  · rw [if_neg hbank, if_pos hbank]
    exact (plays_transact _ b).bind_nil fun _ _ => ⟨_, _, rfl, rfl⟩

/-- A serial bus selects the bank and then does one transaction. -/
theorem plays_serial {α : Type} (current : Byte) (a : Address) (ops : List SerialOp)
    (f : List Byte → α) (b : Bench) :
    Plays (selecting (.serial current) a ++ [.serial ops]) (do
      select current a
      let answers ← transact ops
      return f answers) b :=
  (plays_select current a b).bind fun _ c _ =>
    (plays_transact ops c).bind_nil fun _ _ => ⟨_, _, rfl, rfl⟩

/-- Reading a register plays the selection of its bank and then one access. -/
theorem plays_read (a : Address) (b : Bench) :
    Plays (b.bus.selecting a ++ [b.bus.readAccess a]) (read a) b := by
  refine plays_get ?_
  cases b.bus with
  | flat => exact (plays_attempt (.read a) b).bind_nil fun _ _ => ⟨_, _, rfl, rfl⟩
  | serial current => exact plays_serial current a _ _ b

/-- So does writing one. -/
theorem plays_write (a : Address) (v : Byte) (b : Bench) :
    Plays (b.bus.selecting a ++ [b.bus.writeAccess a v]) (write a v) b := by
  refine plays_get ?_
  cases b.bus with
  | flat => exact (plays_attempt (.write a v) b).bind_nil fun _ _ => ⟨_, _, rfl, rfl⟩
  | serial current => exact plays_serial current a _ _ b

/-- Where nothing fails the operation gets to the end of its script. -/
theorem Plays.of_neverFails {script : List Access} {op : RegisterOp} {b : Bench}
    (h : Plays script op.perform b) (hb : b.NeverFails) :
    ∃ a, (exec op.perform b).1 = .ok a ∧
      (exec op.perform b).2.trace = b.trace ++ script.map (.access · true) := by
  rcases h with hok | ⟨good, last, rest, _, _, htrace⟩
  · exact hok
  · obtain ⟨_, events, hevents, hall⟩ :=
      op.stays_perform (Bench.isSteady_flawlessSince _ b.trace) rfl b hb.flawlessSince
    have hsame := List.append_cancel_left (htrace.symm.trans hevents)
    have hfailed := hall (.access last false) (by rw [← hsame]; simp)
    cases hfailed

/-- What is logged when the bank of an address is selected and an access made, and nothing fails. -/
def accessing (bus : Bus) (a : Address) (x : Access) : List Event :=
  (bus.selecting a).map (.access · true) ++ [.access x true]

/-- A write that succeeds on a bench in step writes the one byte. -/
theorem writes_accessing {b : Bench} (hin : b.InStep) {a : Address} (ha : Register.IsReachable a)
    (hselect : Register.offsetOf a ≠ Register.bankSelect) (v : Byte) :
    writes (b.bus.accessing a (b.bus.writeAccess a v)) b.chip = [(a, v)] := by
  have hwrite : ∀ c : SerialChip, c.bank = Register.bankOf a →
      c.transactionWrites [Register.offsetOf a, v] = [(a, v)] := by
    intro c hc
    rw [c.transactionWrites_write ha.offset_lt hselect, hc, ha.address_eq]
  unfold Bench.InStep at hin
  cases hbus : b.bus with
  | flat => rfl
  | serial current =>
    rw [hbus] at hin
    dsimp only at hin
    unfold accessing selecting
    dsimp only
    split
    · rename_i hbank
      exact congrArg (· ++ []) (hwrite b.chip (hin.symm.trans hbank.symm))
    · have hquiet := Event.writes_of_isHarmless
        (Event.isHarmless_selection (Register.bankOf a) true) b.chip
      have hbank : (Event.effect (.access (.serial [.write [Register.bankSelect,
          Register.bankOf a]]) true) b.chip).bank = Register.bankOf a :=
        (congrArg (·.2.bank) (SerialChip.exchange_select _ b.chip)).trans ha.bankOf_and_mask
      rw [List.map_cons, List.cons_append, writes, hquiet, List.nil_append]
      exact congrArg (· ++ []) (hwrite _ hbank)

/-! ## The first bank -/

/-- What plays one access logs it, and its success is that of the access. -/
theorem Plays.trace_eq {α : Type} {x : BusM α} {b : Bench} {y : Access} (h : Plays [y] x b) :
    (exec x b).2.trace = b.trace ++ [.access y (exec x b).1.isOk] := by
  obtain ⟨a, hok, htrace⟩ | ⟨good, last, rest, hscript, herror, htrace⟩ := h
  · rw [hok, htrace]
    rfl
  · obtain ⟨rfl, hcons⟩ | ⟨_, rfl, hnil⟩ := List.cons_eq_append_iff.mp hscript
    · cases hcons
      rw [herror, htrace]
      rfl
    · cases (List.append_eq_nil_iff.mp hnil.symm).2

/-- In the first bank its registers need no selection. -/
theorem selecting_of_atFirstBank {b : Bench} (hb : b.AtFirstBank) {a : Address}
    (ha : Register.bankOf a = Register.bank0) : b.bus.selecting a = [] := by
  rcases hb with hbus | hbus <;> rw [hbus]
  · rfl
  · exact if_pos ha

/-- Writing a register of the first bank is one access, whose success is that of the writing. -/
theorem trace_write {b : Bench} (hb : b.AtFirstBank) {a : Address}
    (ha : Register.bankOf a = Register.bank0) (v : Byte) :
    (exec (write a v) b).2.trace =
      b.trace ++ [.access (b.bus.writeAccess a v) (exec (write a v) b).1.isOk] := by
  have h := plays_write a v b
  rw [selecting_of_atFirstBank hb ha] at h
  exact h.trace_eq

end Bus

end Inertial
