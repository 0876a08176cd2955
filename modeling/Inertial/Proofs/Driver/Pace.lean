import Inertial.Driver.PowerUp
import Inertial.Proofs.Bus.Scripts
import Inertial.Proofs.Driver.Blindness
import Inertial.Proofs.Driver.Stability

/-!
# Powering up where nothing fails

A power-up is compared with the same power-up on a bench where nothing fails and where the chip
identifies itself as the expected one and confirms its reset (`Bench.flawless`). The two do the same
up to the first event that stands for a failure (`Bench.failure?`), and the one that may fail ends
there with that failure: it keeps pace with the other until then (`Driver.KeepsPace`).

The two benches may differ in what the two checked registers hold. Everything else that is read is
the same on both, so what is written does not tell them apart.
-/

set_option autoImplicit false

namespace Inertial

/-- What a power-up that begins on the bench `b` fails with at an event, if it does. -/
def Bench.failure? (b : Bench) (chip : Chip) : Event → Option DriverError
  | .access x false => some (.bus x.fault)
  | .access x true =>
    if x = b.bus.readAccess Register.whoAmI ∧ b.chip.memory Register.whoAmI ≠ chip.whoAmI then
      some (.wrongIdentity chip.whoAmI (b.chip.memory Register.whoAmI))
    else if x = b.bus.readAccess Register.intStatus ∧
        StatusRegister.resetDone.get (b.chip.memory Register.intStatus) = 0 then
      some .resetNotConfirmed
    else none
  | .switch r _ false => some (.rail r)
  | _ => none

/-- The bench on which nothing fails and both checks of a power-up pass. -/
def Bench.flawless (chip : Chip) (b : Bench) : Bench :=
  { b with
    plan := {
      b.plan with
      failsAccess := fun _ _ => false
      failsSwitch := fun _ _ _ => false }
    chip := {
      b.chip with
      memory := (b.chip.memory.write Register.whoAmI chip.whoAmI).write Register.intStatus
        (StatusRegister.resetDone.set 1 (b.chip.memory Register.intStatus)) } }

namespace Bus

/-- Which access reads a register depends on the kind of the bus only. -/
theorem readAccess_congr {bus bus' : Bus} (h : bus.isFlat = bus'.isFlat) (a : Address) :
    bus.readAccess a = bus'.readAccess a := by
  cases bus <;> cases bus' <;> first
    | rfl
    | cases h

/-- A write is no reading, on whichever bus. -/
theorem writeAccess_ne_readAccess (bus bus' : Bus) (a c : Address) (v : Byte) :
    bus.writeAccess a v ≠ bus'.readAccess c := by
  cases bus <;> cases bus' <;> simp [writeAccess, readAccess]

/-- Readings with different headers are different accesses. -/
theorem readAccess_ne (bus bus' : Bus) {a c : Address} (h : readHeader a ≠ readHeader c) :
    bus.readAccess a ≠ bus'.readAccess c := by
  have hne : a ≠ c := fun hac => h (congrArg readHeader hac)
  cases bus <;> cases bus' <;> simp [readAccess, h, hne]

/-- A selection is no reading of a register. -/
theorem ne_readAccess_of_mem_selecting {bus bus' : Bus} {a c : Address} {x : Access}
    (hx : x ∈ bus.selecting a) : x ≠ bus'.readAccess c := by
  unfold selecting at hx
  split at hx
  · cases hx
  · split at hx
    · cases hx
    · rw [List.mem_singleton.mp hx]
      cases bus' <;> simp [readAccess]

/-- Buses of one kind that both reach an address are the same. -/
theorem eq_of_selections {b c : Bench} {a : Address} (hflat : b.bus.isFlat = c.bus.isFlat)
    (hb : b.selections a = 0) (hc : c.selections a = 0) : b.bus = c.bus := by
  unfold Bench.selections at hb hc
  cases hbus : b.bus with
  | flat =>
    cases hcus : c.bus with
    | flat => rfl
    | serial current =>
      rw [hbus, hcus] at hflat
      cases hflat
  | serial current =>
    cases hcus : c.bus with
    | flat =>
      rw [hbus, hcus] at hflat
      cases hflat
    | serial current' =>
      rw [hbus] at hb
      rw [hcus] at hc
      dsimp only at hb hc
      split at hb
      · rename_i hcurrent
        split at hc
        · rename_i hcurrent'
          rw [← hcurrent, ← hcurrent']
        · cases hc
      · cases hb

end Bus

/-- The first memory, on which a power-up that began on the bench `b` may fail, and the second,
on which it does not, agree but for the checked registers. -/
structure Memory.Shows (b : Bench) (chip : Chip) (m m' : Memory) : Prop where
  same : ∀ a, ¬ Register.IsChecked a → m' a = m a
  kept : ∀ a, Register.IsChecked a → m a = b.chip.memory a
  identified : m' Register.whoAmI = chip.whoAmI
  confirmed : StatusRegister.resetDone.get (m' Register.intStatus) ≠ 0

/-- The driver has got as far in `s` as in `t`, where nothing fails. -/
structure System.InPace (b : Bench) (chip : Chip) (s t : System) : Prop where
  inStep : s.bench.InStep
  inStep' : t.bench.InStep
  bus : t.bench.bus = s.bench.bus
  isFlat : s.bench.bus.isFlat = b.bus.isFlat
  neverFails : t.bench.NeverFails
  memory : s.bench.chip.memory.Shows b chip t.bench.chip.memory

variable {b : Bench} {chip : Chip} {s t : System}

/-- Memories that agree but for the checked registers still do after a write elsewhere. -/
theorem Memory.Shows.write {m m' : Memory} (h : m.Shows b chip m') {a : Address}
    (ha : ¬ Register.IsChecked a) (v : Byte) : (m.write a v).Shows b chip (m'.write a v) := by
  have hne : ∀ c, Register.IsChecked c → c ≠ a := fun c hc hca => ha (hca ▸ hc)
  refine ⟨?_, ?_, ?_, ?_⟩
  · intro c hc
    by_cases hca : c = a
    · rw [hca, write_same, write_same]
    · rw [write_of_ne _ _ hca, write_of_ne _ _ hca]
      exact h.same c hc
  · intro c hc
    rw [write_of_ne _ _ (hne c hc)]
    exact h.kept c hc
  · rw [write_of_ne _ _ (hne _ (Or.inl rfl))]
    exact h.identified
  · rw [write_of_ne _ _ (hne _ (Or.inr rfl))]
    exact h.confirmed

/-- The flawless bench differs from the given one in the checked registers only. -/
theorem Bench.shows_flawless (b : Bench) (chip : Chip) :
    b.chip.memory.Shows b chip (b.flawless chip).chip.memory := by
  have hne : Register.whoAmI ≠ Register.intStatus := by decide
  refine ⟨?_, fun _ _ => rfl, ?_, ?_⟩
  · intro a ha
    unfold flawless
    dsimp only
    rw [Memory.write_of_ne _ _ fun h => ha (Or.inr h),
      Memory.write_of_ne _ _ fun h => ha (Or.inl h)]
  · unfold flawless
    dsimp only
    rw [Memory.write_of_ne _ _ hne, Memory.write_same]
  · unfold flawless
    dsimp only
    rw [Memory.write_same, Field.get_set]
    decide

/-! ## Events that stand for no failure -/

/-- An access that succeeds stands for no failure unless it reads a checked register. -/
theorem Bench.failure?_of_ne {x : Access} (h : ∀ c, Register.IsChecked c → x ≠ b.bus.readAccess c) :
    b.failure? chip (.access x true) = none := by
  unfold failure?
  dsimp only
  rw [if_neg fun hx => h _ (Or.inl rfl) hx.1, if_neg fun hx => h _ (Or.inr rfl) hx.1]

/-- Selecting a bank is no failure if it succeeds. -/
theorem Bench.failure?_selecting {bus : Bus} {a : Address} {x : Access}
    (hx : x ∈ bus.selecting a) : b.failure? chip (.access x true) = none :=
  failure?_of_ne fun _ _ => Bus.ne_readAccess_of_mem_selecting hx

/-- The driver fails at the first event that stands for a failure, where without one it would have
followed the script. -/
structure System.Falters (b : Bench) (chip : Chip) (s : System) (script : List Event)
    {α : Type} (r : Except DriverError α × System) (e : DriverError) (good : List Event)
    (last : Event) (rest : List Event) : Prop where
  error : r.1 = .error e
  trace : r.2.bench.trace = s.bench.trace ++ (good ++ [last])
  script : script = good ++ last.asSuccess :: rest
  good : ∀ x ∈ good, b.failure? chip x = none
  last : b.failure? chip last = some e

namespace Driver

variable {α β : Type}

/-- The driver does in `s` what it does in `t`, where nothing fails, up to its first failure. -/
def KeepsPace (b : Bench) (chip : Chip) (x : Driver α) : Prop :=
  ∀ s t, System.InPace b chip s t →
    ∃ script, (exec x t).2.bench.trace = t.bench.trace ++ script ∧
      ((∃ a, (exec x s).1 = .ok a ∧ (exec x t).1 = .ok a ∧
          (exec x s).2.bench.trace = s.bench.trace ++ script ∧
          (∀ e ∈ script, b.failure? chip e = none) ∧
          System.InPace b chip (exec x s).2 (exec x t).2) ∨
        ∃ e good last rest, System.Falters b chip s script (exec x s) e good last rest)

/-- What follows a step can only add to the trace. -/
theorem exists_trace_bind (x : Driver α) (f : α → Driver β) (s : System) :
    ∃ more, (exec (x >>= f) s).2.bench.trace = (exec x s).2.bench.trace ++ more := by
  rw [exec_bind]
  rcases exec x s with ⟨e | a, t⟩
  · exact ⟨[], (List.append_nil _).symm⟩
  · exact (f a).run.exists_trace_run t

/-- Two drivers that keep pace do so one after the other. If the first falters the second only
lengthens the script. -/
theorem KeepsPace.bind {x : Driver α} {f : α → Driver β} (hx : KeepsPace b chip x)
    (hf : ∀ a, KeepsPace b chip (f a)) : KeepsPace b chip (x >>= f) := by
  intro s t hst
  obtain ⟨script, htrace',
    ⟨a, hok, hok', htrace, hgood, hpace⟩ | ⟨e, good, last, rest, hfalters⟩⟩ := hx s t hst
  · obtain ⟨u, hu⟩ : ∃ u, exec x s = (.ok a, u) := ⟨_, Prod.ext hok rfl⟩
    obtain ⟨v, hv⟩ : ∃ v, exec x t = (.ok a, v) := ⟨_, Prod.ext hok' rfl⟩
    rw [hu] at htrace hpace
    rw [hv] at htrace' hpace
    rw [exec_bind, exec_bind, hu, hv]
    dsimp only at htrace htrace' ⊢
    obtain ⟨later, hlater', ⟨a₂, hok₂, hok₂', hlater, hgood₂, hpace₂⟩ |
      ⟨e, good, last, rest, hfalters⟩⟩ := hf a u v hpace
    · refine ⟨script ++ later, ?_, Or.inl ⟨a₂, hok₂, hok₂', ?_, ?_, hpace₂⟩⟩
      · rw [hlater', htrace', List.append_assoc]
      · rw [hlater, htrace, List.append_assoc]
      · intro e he
        rcases List.mem_append.mp he with he | he
        · exact hgood e he
        · exact hgood₂ e he
    · refine ⟨script ++ later, ?_, Or.inr ⟨e, script ++ good, last, rest, ?_⟩⟩
      · rw [hlater', htrace', List.append_assoc]
      · refine ⟨hfalters.error, ?_, ?_, ?_, hfalters.last⟩
        · rw [hfalters.trace, htrace, List.append_assoc, List.append_assoc]
        · rw [hfalters.script, List.append_assoc]
        · intro x hx
          rcases List.mem_append.mp hx with hx | hx
          · exact hgood x hx
          · exact hfalters.good x hx
  · obtain ⟨more, hmore⟩ := exists_trace_bind x f t
    obtain ⟨u, hu⟩ : ∃ u, exec x s = (.error e, u) := ⟨_, Prod.ext hfalters.error rfl⟩
    have htrace := hfalters.trace
    rw [hu] at htrace
    refine ⟨script ++ more, ?_, Or.inr ⟨e, good, last, rest ++ more, ?_⟩⟩
    · rw [hmore, htrace', List.append_assoc]
    · rw [exec_bind, hu]
      refine ⟨rfl, htrace, ?_, hfalters.good, hfalters.last⟩
      rw [hfalters.script, List.append_assoc]
      rfl

/-- A driver keeps pace if one does that gives the same. -/
theorem KeepsPace.congr {x y : Driver α} (hx : KeepsPace b chip x) (h : ∀ s, exec y s = exec x s) :
    KeepsPace b chip y := by
  intro s t hst
  rw [h s, h t]
  exact hx s t hst

/-- After a step that succeeded the driver has got as far as it would have where nothing fails. -/
theorem KeepsPace.inPace {x : Driver α} (hx : KeepsPace b chip x) (hst : System.InPace b chip s t)
    {a : α} {u : System} (hu : exec x s = (.ok a, u)) :
    System.InPace b chip u (exec x t).2 := by
  obtain ⟨_, _, ⟨_, _, _, _, _, hpace⟩ | ⟨_, _, _, _, hfalters⟩⟩ := hx s t hst
  · rw [hu] at hpace
    exact hpace
  · have herror := hfalters.error
    rw [hu] at herror
    cases herror

/-! ## Steps that are no accesses -/

/-- Doing nothing keeps pace. -/
theorem keepsPace_pure (a : α) : KeepsPace b chip (pure a) := by
  intro s t hst
  exact ⟨[], (List.append_nil _).symm,
    Or.inl ⟨a, rfl, rfl, (List.append_nil _).symm, by simp, hst⟩⟩

/-- The record has no part in the pace. -/
theorem keepsPace_modifyCore (f : Core → Core) : KeepsPace b chip (modifyCore f) := by
  intro s t hst
  exact ⟨[], (List.append_nil _).symm, Or.inl ⟨(), rfl, rfl, (List.append_nil _).symm, by simp,
    ⟨hst.inStep, hst.inStep', hst.bus, hst.isFlat, hst.neverFails, hst.memory⟩⟩⟩

/-- A wait is the same in both runs. -/
theorem keepsPace_sleep (d : Delay) : KeepsPace b chip (sleep d) := by
  intro s t hst
  exact ⟨[.delay d, .woke], List.append_assoc t.bench.trace [_] [_],
    Or.inl ⟨(), rfl, rfl, List.append_assoc s.bench.trace [_] [_], by simp [Bench.failure?],
      ⟨hst.inStep, hst.inStep', hst.bus, hst.isFlat, hst.neverFails.congr rfl, hst.memory⟩⟩⟩

/-- A switch succeeds where nothing fails, and otherwise it is the failure. -/
theorem keepsPace_switch (r : Rail) (on : Bool) : KeepsPace b chip (switch r on) := by
  intro s t hst
  have hswitched := hst.neverFails.switch_fst r on
  have htrace : (s.bench.switch r on).2.trace =
      s.bench.trace ++ [.switch r on (s.bench.switch r on).1] := rfl
  have htrace' : (t.bench.switch r on).2.trace = t.bench.trace ++ [.switch r on true] := by
    rw [← hswitched]
    rfl
  have hpace : ∀ rails rails' : Rails, System.InPace b chip
      { s with bench := (s.bench.switch r on).2, core := { s.core with rails } }
      { t with bench := (t.bench.switch r on).2, core := { t.core with rails := rails' } } := by
    intro rails rails'
    exact ⟨hst.inStep, hst.inStep', hst.bus, hst.isFlat, hst.neverFails.congr rfl, hst.memory⟩
  rw [exec_switch, exec_switch]
  rcases hx : t.bench.switch r on with ⟨ok, bench'⟩
  rw [hx] at hswitched htrace' hpace
  dsimp only at hswitched
  subst hswitched
  rcases hy : s.bench.switch r on with ⟨_ | _, bench⟩
  · rw [hy] at htrace
    exact ⟨_, htrace', Or.inr ⟨_, [], .switch r on false, [], rfl, htrace, rfl, by simp, rfl⟩⟩
  · rw [hy] at htrace hpace
    exact ⟨_, htrace', Or.inl ⟨(), rfl, rfl, htrace, by simp [Bench.failure?], hpace _ _⟩⟩

/-! ## Accesses -/

/-- A read or a write succeeds where nothing fails. Where something may fail it does the same, or it
fails as one of its accesses does. -/
theorem register_inPace (op : RegisterOp) (hop : op.IsRegular) (x : Bus → Access)
    (hplays : ∀ c : Bench, Bus.Plays (c.bus.selecting op.address ++ [x c.bus]) op.perform c)
    (hmemory : ∀ m m' : Memory, m.Shows b chip m' →
      (op.onMemory m).2.Shows b chip (op.onMemory m').2)
    (hst : System.InPace b chip s t) :
    let script := s.bench.bus.accessing op.address (x s.bench.bus)
    ∃ v, exec (register op) t = (.ok (op.onMemory t.bench.chip.memory).1, v) ∧
      v.bench.trace = t.bench.trace ++ script ∧
      ((∃ u, exec (register op) s = (.ok (op.onMemory s.bench.chip.memory).1, u) ∧
          u.bench.trace = s.bench.trace ++ script ∧ System.InPace b chip u v) ∨
        ∃ e good last rest,
          System.Falters b chip s script (exec (register op) s) e good last rest) := by
  obtain ⟨events, hs⟩ := RegisterOp.refines_of_inStep hst.inStep hop
  obtain ⟨events', ht⟩ := RegisterOp.refines_of_inStep hst.inStep' hop
  obtain ⟨a', hok', htrace'⟩ := (hplays t.bench).of_neverFails hst.neverFails
  obtain ⟨_, hreached', rfl, hmem'⟩ := ht.of_ok a' hok'
  rw [hst.bus, List.map_append] at htrace'
  -- The run without failures is known from the script; the other one has to be split.
  refine ⟨{ t with bench := (op.perform.exec t.bench).2 }, ?_, htrace', ?_⟩
  · rw [exec_register]
    rcases hx : op.perform.exec t.bench with ⟨_ | _, bench⟩ <;> rw [hx] at hok' <;> cases hok'
    rfl
  obtain ⟨a, hok, htrace⟩ | ⟨good, last, rest, hscript, herror, htrace⟩ := hplays s.bench
  · obtain ⟨_, hreached, rfl, hmem⟩ := hs.of_ok a hok
    rw [List.map_append] at htrace
    refine Or.inl ⟨{ s with bench := (op.perform.exec s.bench).2 }, ?_, htrace, ?_⟩
    · rw [exec_register]
      rcases hx : op.perform.exec s.bench with ⟨_ | _, bench⟩ <;> rw [hx] at hok <;> cases hok
      rfl
    · have hflat : (op.perform.exec t.bench).2.bus.isFlat =
          (op.perform.exec s.bench).2.bus.isFlat := by
        rw [ht.isFlat, hs.isFlat, hst.bus]
      refine ⟨hs.inStep, ht.inStep, Bus.eq_of_selections hflat hreached' hreached,
        hs.isFlat.trans hst.isFlat, hst.neverFails.congr ht.uses.plan, ?_⟩
      dsimp only
      rw [hmem, hmem']
      exact hmemory _ _ hst.memory
  · -- The accesses before the one that failed are selections.
    have hselecting : ∀ y ∈ good, y ∈ s.bench.bus.selecting op.address := by
      intro y hy
      have hinit := congrArg List.dropLast hscript
      rw [List.dropLast_concat, List.dropLast_append_of_ne_nil (List.cons_ne_nil _ _)] at hinit
      rw [hinit]
      exact List.mem_append_left _ hy
    refine Or.inr ⟨.bus last.fault, good.map (.access · true), .access last false,
      rest.map (.access · true), ?_, ?_, ?_, ?_, rfl⟩
    · rw [exec_register]
      rcases hx : op.perform.exec s.bench with ⟨_ | _, bench⟩ <;> rw [hx] at herror <;>
        cases herror
      rfl
    · rw [exec_register]
      rcases hx : op.perform.exec s.bench with ⟨_ | _, bench⟩ <;> rw [hx] at htrace <;>
        exact htrace
    · have hevents := congrArg (List.map (Event.access · true)) hscript
      rw [List.map_append, List.map_append] at hevents
      exact hevents
    · intro e he
      obtain ⟨y, hy, rfl⟩ := List.mem_map.mp he
      exact Bench.failure?_selecting (hselecting y hy)

/-- Reading changes no register. -/
theorem read_inPace {a : Address} (ha : Register.IsReachable a)
    (hst : System.InPace b chip s t) :
    let script := s.bench.bus.accessing a (s.bench.bus.readAccess a)
    ∃ v, exec (read a) t = (.ok (t.bench.chip.memory a), v) ∧
      v.bench.trace = t.bench.trace ++ script ∧
      ((∃ u, exec (read a) s = (.ok (s.bench.chip.memory a), u) ∧
          u.bench.trace = s.bench.trace ++ script ∧ System.InPace b chip u v) ∨
        ∃ e good last rest, System.Falters b chip s script (exec (read a) s) e good last rest) :=
  register_inPace (.read a) ha (fun bus => bus.readAccess a) (Bus.plays_read a)
    (fun _ _ h => h) hst

/-- The accesses at a register stand for no failure if the last of them does not. -/
theorem failure?_accessing {bus : Bus} {a : Address} {x : Access}
    (hx : b.failure? chip (.access x true) = none) :
    ∀ e ∈ bus.accessing a x, b.failure? chip e = none := by
  intro e he
  rcases List.mem_append.mp he with he | he
  · obtain ⟨y, hy, rfl⟩ := List.mem_map.mp he
    exact Bench.failure?_selecting hy
  · rw [List.mem_singleton.mp he]
    exact hx

/-- A write goes by the script in the run without failures. In the other run it does the same or
falters within it. -/
theorem write_inPace {a : Address} (ha : Register.IsOrdinary a) (v : Byte)
    (hst : System.InPace b chip s t) :
    let script := s.bench.bus.accessing a (s.bench.bus.writeAccess a v)
    ∃ t', exec (write a v) t = (.ok (), t') ∧ t'.bench.trace = t.bench.trace ++ script ∧
      ((∃ s', exec (write a v) s = (.ok (), s') ∧ s'.bench.trace = s.bench.trace ++ script ∧
          System.InPace b chip s' t') ∨
        ∃ e good last rest, System.Falters b chip s script (exec (write a v) s) e good last rest) :=
  register_inPace (.write a v) ⟨ha.isReachable, ha.not_bankSelect⟩
    (fun bus => bus.writeAccess a v) (Bus.plays_write a v)
    (fun _ _ h => h.write ha.not_isChecked v) hst

/-- A write of a register that is not checked keeps pace. -/
theorem keepsPace_write {a : Address} (ha : Register.IsOrdinary a) (v : Byte) :
    KeepsPace b chip (write a v) := by
  intro s t hst
  obtain ⟨t', ht', htrace', ⟨s', hs', htrace, hpace⟩ | hfalters⟩ := write_inPace ha v hst
  · rw [hs', ht']
    refine ⟨_, htrace', Or.inl ⟨(), rfl, rfl, htrace, failure?_accessing ?_, hpace⟩⟩
    exact Bench.failure?_of_ne fun _ _ => Bus.writeAccess_ne_readAccess _ _ _ _ _
  · rw [ht']
    exact ⟨_, htrace', Or.inr hfalters⟩

/-- Reading what is not checked gives the same on both sides. -/
theorem keepsPace_read {a : Address} (ha : Register.IsOrdinary a) :
    KeepsPace b chip (read a) := by
  intro s t hst
  obtain ⟨v, hv, htrace', ⟨u, hu, htrace, hpace⟩ | hfalters⟩ := read_inPace ha.isReachable hst
  · rw [hst.memory.same a ha.not_isChecked] at hv
    rw [hu, hv]
    refine ⟨_, htrace', Or.inl ⟨_, rfl, rfl, htrace, failure?_accessing ?_, hpace⟩⟩
    exact Bench.failure?_of_ne fun c hc => Bus.readAccess_ne _ _ (ha.not_checked c hc)
  · rw [hv]
    exact ⟨_, htrace', Or.inr hfalters⟩

/-- An update is a read and, if it changes something, a write. -/
theorem exec_update (a : Address) (mask value : Byte) (s : System) :
    exec (update a mask value) s =
      exec (do
        let old ← read a
        if Bus.merge old mask value ≠ old then
          write a (Bus.merge old mask value)) s := by
  rw [update, exec_register, RegisterOp.perform, Bus.update, BusM.exec_bind, exec_bind, read,
    exec_register, RegisterOp.perform]
  rcases (Bus.read a).exec s.bench with ⟨_ | old, bench⟩
  · rfl
  · dsimp only
    by_cases hnew : Bus.merge old mask value ≠ old
    · rw [if_pos hnew, if_pos hnew, write, exec_register, RegisterOp.perform]
      dsimp only
      rcases (Bus.write a (Bus.merge old mask value)).exec bench with ⟨_ | _, _⟩ <;> rfl
    · rw [if_neg hnew, if_neg hnew]
      rfl

/-- An update reads the same in both runs, and so it writes in both or in neither. -/
theorem keepsPace_update {a : Address} (ha : Register.IsOrdinary a) (mask value : Byte) :
    KeepsPace b chip (update a mask value) := by
  refine KeepsPace.congr ((keepsPace_read ha).bind fun old => ?_) (exec_update a mask value)
  split
  · exact keepsPace_write ha _
  · exact keepsPace_pure ()

/-- Where nothing fails a check passes. Elsewhere it fails if its read does, and otherwise if what
was read stands for a failure. -/
theorem keepsPace_check {a : Address} (ha : Register.IsChecked a) {fails : Byte → Prop}
    [DecidablePred fails] {error : Byte → DriverError}
    (hpasses : ∀ m m' : Memory, m.Shows b chip m' → ¬ fails (m' a))
    (hfailure : b.failure? chip (.access (b.bus.readAccess a) true) =
      if fails (b.chip.memory a) then some (error (b.chip.memory a)) else none) :
    KeepsPace b chip (check a fails error) := by
  intro s t hst
  rw [← Bus.readAccess_congr hst.isFlat, ← hst.memory.kept a ha] at hfailure
  obtain ⟨v, hv, htrace', ⟨u, hu, htrace, hpace⟩ | ⟨e, good, last, rest, hfalters⟩⟩ :=
    read_inPace ha.isReachable hst
  · rw [check, exec_bind, exec_bind, hu, hv]
    dsimp only
    rw [if_neg (hpasses _ _ hst.memory)]
    refine ⟨_, htrace', ?_⟩
    by_cases hfails : fails (s.bench.chip.memory a)
    · rw [if_pos hfails] at hfailure ⊢
      refine Or.inr ⟨_, (s.bench.bus.selecting a).map (.access · true),
        .access (s.bench.bus.readAccess a) true, [], rfl, htrace, rfl, ?_, hfailure⟩
      intro x hx
      obtain ⟨y, hy, rfl⟩ := List.mem_map.mp hx
      exact Bench.failure?_selecting hy
    · rw [if_neg hfails] at hfailure ⊢
      exact Or.inl ⟨(), rfl, rfl, htrace, failure?_accessing hfailure, hpace⟩
  · rw [check, exec_bind, exec_bind, hv]
    dsimp only
    rw [if_neg (hpasses _ _ hst.memory)]
    refine ⟨_, htrace', Or.inr ⟨e, good, last, rest, ?_⟩⟩
    obtain ⟨u, hu⟩ : ∃ u, exec (read a) s = (.error e, u) := ⟨_, Prod.ext hfalters.error rfl⟩
    rw [hu] at hfalters ⊢
    exact ⟨rfl, hfalters.trace, hfalters.script, hfalters.good, hfalters.last⟩

/-! ## From steps to drivers -/

/-- What keeps pace step by step keeps pace. -/
theorem sequential_keepsPace : Sequential fun _ x => KeepsPace b chip x where
  pure := keepsPace_pure
  bind := KeepsPace.bind

/-- Where the chip is not the expected one, identifying it is the failure. -/
theorem keepsPace_identify : KeepsPace b chip (identify chip) := by
  refine keepsPace_check (Or.inl rfl) (fun m m' h => not_not_intro h.identified) ?_
  have hother : b.bus.readAccess Register.whoAmI ≠ b.bus.readAccess Register.intStatus :=
    Bus.readAccess_ne _ _ (by decide)
  unfold Bench.failure?
  simp only [true_and, hother, false_and, if_false]

/-- Where the chip does not say that it was reset, confirming that is the failure. -/
theorem keepsPace_confirm : KeepsPace b chip
    (check Register.intStatus (fun v => StatusRegister.resetDone.get v = 0)
      fun _ => .resetNotConfirmed) := by
  refine keepsPace_check (Or.inr rfl) (fun m m' h => h.confirmed) ?_
  have hother : b.bus.readAccess Register.intStatus ≠ b.bus.readAccess Register.whoAmI :=
    Bus.readAccess_ne _ _ (by decide)
  unfold Bench.failure?
  simp only [true_and, hother, false_and, if_false]

/-- Every step of a set-up keeps pace. -/
theorem SetUpStep.keepsPace {x : Driver Unit} (hx : SetUpStep chip x) : KeepsPace b chip x := by
  cases hx with
  | write ha _ v => exact keepsPace_write ha v
  | update ha _ mask value => exact keepsPace_update ha mask value
  | sleep d => exact keepsPace_sleep d
  | identify => exact keepsPace_identify
  | confirm => exact keepsPace_confirm
  | record config => exact keepsPace_modifyCore _

/-- The steps of a power-up keep pace. -/
theorem StartStep.keepsPace {x : Driver Unit} (hx : StartStep chip x) : KeepsPace b chip x := by
  cases hx with
  | setUp hx => exact hx.keepsPace
  | switch r => exact keepsPace_switch r true
  | activate => exact keepsPace_modifyCore _

/-- A straight line of such steps keeps pace. -/
theorem Straight.keepsPace {x : Driver Unit} (hx : Straight (StartStep chip) x) :
    KeepsPace b chip x :=
  hx.holds sequential_keepsPace StartStep.keepsPace

end Driver

end Inertial
