import Inertial.Proofs.Driver.Interruption

/-!
# Agreement of the record with the registers

Much of what the driver promises is a relation between its record of the device and the registers of
the chip. A driver keeps such a relation `J` if, begun where it holds, it holds at every wait and at
the end, whether the driver fails or not (`Driver.Keeps`).

What this asks of `J` is stated without mention of runs: that a write that succeeds together with
what is recorded after it leads from `J` to `J`. Reading and waiting keep every relation, and so
does an access that fails. What only a success brings about is stated by `Driver.Leads`.
-/

set_option autoImplicit false

namespace Inertial

/-! ## Keeping a relation -/

/-- The bus is in step, and the record of the device is in a relation with the registers. -/
def System.Agrees (J : Core → Memory → Prop) (s : System) : Prop :=
  s.bench.InStep ∧ J s.core s.bench.chip.memory

/-- Begun where `J` holds, the routine has it hold at every wait and at its end. -/
def Routine.Keeps {α : Type} (J : Core → Memory → Prop) (x : Routine α) : Prop :=
  ∀ s : System, s.Agrees J → x.Upholds (System.Agrees J) (fun _ t => t.Agrees J) s

namespace Driver

variable {α β : Type} {J : Core → Memory → Prop}

/-- Begun where `J` holds, the driver has it hold at every wait and at its end. -/
def Keeps (J : Core → Memory → Prop) (x : Driver α) : Prop :=
  ∀ s : System, s.Agrees J → x.Upholds (System.Agrees J) (fun _ t => t.Agrees J) s

/-- A driver that only answers keeps every relation. -/
theorem keeps_pure (a : α) : Keeps J (pure a : Driver α) := by
  intro s hs
  exact hs

/-- So does one that only fails. -/
theorem keeps_throw (e : DriverError) : Keeps J (throw e : Driver α) := by
  intro s hs
  exact hs

/-- A relation that both parts keep is kept by one after the other. -/
theorem Keeps.bind {x : Driver α} {f : α → Driver β} (hx : Keeps J x) (hf : ∀ a, Keeps J (f a)) :
    Keeps J (x >>= f) := by
  intro s hs
  rw [upholds_bind]
  refine (hx s hs).mono ?_
  intro r t ht
  cases r with
  | ok a => exact hf a t ht
  | error e => exact ht

/-- A look at the record keeps every relation. -/
theorem keeps_getCore : Keeps J getCore := by
  intro s hs
  exact hs

/-- So does a wait. -/
theorem keeps_sleep (d : Delay) : Keeps J (sleep d) := by
  intro s hs
  rw [upholds_sleep]
  exact ⟨hs, fun _ => hs⟩

/-- A change of the record keeps what survives that change. -/
theorem keeps_modifyCore {f : Core → Core} (hf : ∀ core m, J core m → J (f core) m) :
    Keeps J (modifyCore f) := by
  intro s hs
  rw [upholds_modifyCore]
  exact ⟨hs.1, hf _ _ hs.2⟩

/-- A switch keeps what survives a note of the rail. -/
theorem keeps_switch (r : Rail) (on : Bool)
    (hrails : ∀ core m, J core m → J { core with rails := core.rails.set on r } m) :
    Keeps J (switch r on) := by
  intro s hs
  rw [upholds_switch]
  have hbench : (s.bench.switch r on).2.bus = s.bench.bus ∧
      (s.bench.switch r on).2.chip = s.bench.chip := ⟨rfl, rfl⟩
  rcases hx : s.bench.switch r on with ⟨ok, bench⟩
  rw [hx] at hbench
  have hin : bench.InStep := by
    unfold Bench.InStep
    rw [hbench.1, hbench.2]
    exact hs.1
  have hJ : J s.core bench.chip.memory := by
    rw [hbench.2]
    exact hs.2
  cases ok with
  | false => exact ⟨hin, hJ⟩
  | true => exact ⟨hin, hrails _ _ hJ⟩

/-- An operation on registers keeps what its effect on plain memory keeps. -/
theorem keeps_register {op : RegisterOp} (hop : op.IsRegular)
    (hmem : ∀ core m, J core m → J core (op.onMemory m).2) : Keeps J (register op) := by
  intro s hs
  apply upholds_register hs.1 hop
  · intro bench events h
    obtain ⟨_, _, _, hm⟩ := h.of_ok _ rfl
    refine ⟨h.inStep, ?_⟩
    change J s.core bench.chip.memory
    rw [hm]
    exact hmem _ _ hs.2
  · intro fault bench events h
    obtain ⟨_, hm⟩ := h.of_error fault rfl
    refine ⟨h.inStep, ?_⟩
    change J s.core bench.chip.memory
    rw [hm]
    exact hs.2

/-- A write keeps what holds with the register replaced. -/
theorem upholds_write {s : System} (hs : s.Agrees J) {a : Address} {v : Byte}
    (hop : (RegisterOp.write a v).IsRegular) (hmem : J s.core (s.bench.chip.memory.write a v)) :
    Upholds (System.Agrees J) (fun _ t => t.Agrees J) (write a v) s := by
  apply upholds_register hs.1 hop
  · intro bench events h
    obtain ⟨_, _, _, hm⟩ := h.of_ok _ rfl
    refine ⟨h.inStep, ?_⟩
    change J s.core bench.chip.memory
    rw [hm]
    exact hmem
  · intro fault bench events h
    obtain ⟨_, hm⟩ := h.of_error fault rfl
    refine ⟨h.inStep, ?_⟩
    change J s.core bench.chip.memory
    rw [hm]
    exact hs.2

/-- A write that succeeds is recorded at once, so what it breaks the record mends. -/
theorem upholds_write_bind {s : System} (hs : s.Agrees J) {a : Address} {v : Byte}
    (hop : (RegisterOp.write a v).IsRegular) {f : Core → Core}
    (hmem : J (f s.core) (s.bench.chip.memory.write a v)) :
    Upholds (System.Agrees J) (fun _ t => t.Agrees J) (do write a v; modifyCore f) s := by
  rw [upholds_bind]
  apply upholds_register hs.1 hop
  · intro bench events h
    obtain ⟨_, _, _, hm⟩ := h.of_ok _ rfl
    dsimp only
    rw [upholds_modifyCore]
    refine ⟨h.inStep, ?_⟩
    change J (f s.core) bench.chip.memory
    rw [hm]
    exact hmem
  · intro fault bench events h
    obtain ⟨_, hm⟩ := h.of_error fault rfl
    refine ⟨h.inStep, ?_⟩
    change J s.core bench.chip.memory
    rw [hm]
    exact hs.2

/-! ## What a success brings about -/

/-- Begun where `J` holds, the driver has `K` hold if it succeeds. -/
def Leads (J K : Core → Memory → Prop) (x : Driver α) : Prop :=
  ∀ s : System, s.Agrees J → ∀ a t, exec x s = (.ok a, t) → t.Agrees K

variable {K L : Core → Memory → Prop}

/-- What is kept anyway holds after a success. -/
theorem Keeps.leads {x : Driver α} (hx : Keeps J x) : Leads J J x := by
  intro s hs a t hexec
  have hJ := upholds_exec (hx s hs)
  rw [hexec] at hJ
  exact hJ

/-- One success leads on from where the other led. -/
theorem Leads.bind {x : Driver α} {f : α → Driver β} (hx : Leads J K x)
    (hf : ∀ a, Leads K L (f a)) : Leads J L (x >>= f) := by
  intro s hs b t hexec
  rw [exec_bind] at hexec
  rcases hx' : exec x s with ⟨e | a, u⟩
  · rw [hx'] at hexec
    cases hexec
  · rw [hx'] at hexec
    exact hf a u (hx s hs a u hx') b t hexec

/-- A change of the record leads to what holds of the changed one. -/
theorem leads_modifyCore {f : Core → Core} (hf : ∀ core m, J core m → K (f core) m) :
    Leads J K (modifyCore f) := by
  intro s hs a t hexec
  cases hexec
  exact ⟨hs.1, hf _ _ hs.2⟩

/-- What follows a look at the record may count on it. -/
theorem leads_getCore_bind {f : Core → Driver α}
    (hf : ∀ core, Leads (fun core' m => core' = core ∧ J core m) K (f core)) :
    Leads J K (getCore >>= f) := by
  intro s hs a t hexec
  rw [exec_bind, exec_getCore] at hexec
  exact hf s.core s ⟨hs.1, rfl, hs.2⟩ a t hexec

/-- A switch leads to what holds once the rail is noted. -/
theorem leads_switch {r : Rail} {on : Bool}
    (hrails : ∀ core m, J core m → K { core with rails := core.rails.set on r } m) :
    Leads J K (switch r on) := by
  intro s hs a t hexec
  rw [exec_switch] at hexec
  rcases hx : s.bench.switch r on with ⟨ok, bench⟩
  rw [hx] at hexec
  cases ok with
  | false => cases hexec
  | true =>
    have hbench : bench = (s.bench.switch r on).2 := by rw [hx]
    subst hbench
    cases hexec
    exact ⟨hs.1, hrails _ _ hs.2⟩

/-- A write leads to what holds once the byte is in its place. -/
theorem leads_write {a : Address} {v : Byte} (hop : (RegisterOp.write a v).IsRegular)
    (hmem : ∀ core m, J core m → K core (m.write a v)) : Leads J K (write a v) := by
  intro s hs answer t hexec
  have h : Upholds (fun _ => True) (fun r t => ∀ a, r = .ok a → t.Agrees K) (write a v) s := by
    apply upholds_register hs.1 hop
    · intro bench events h _ _
      obtain ⟨_, _, _, hm⟩ := h.of_ok _ rfl
      refine ⟨h.inStep, ?_⟩
      change K s.core bench.chip.memory
      rw [hm]
      exact hmem _ _ hs.2
    · intro fault bench events _ a ha
      cases ha
  have hK := upholds_exec h
  rw [hexec] at hK
  exact hK answer rfl

end Driver

end Inertial
