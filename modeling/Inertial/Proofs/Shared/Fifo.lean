import Inertial.Proofs.Driver.Blindness
import Inertial.Proofs.Driver.Rails
import Inertial.Proofs.Shared.Covenant
import Inertial.Proofs.Shared.Sequence

/-!
# The FIFO and what is noted of it

Once the FIFO was told successfully whether to take samples, what it does is what is noted of it
until a call suspends the device. A suspend turns a FIFO that takes samples off without noting that,
and this is the first thing that it does. If something fails after that, the call fails, but the
FIFO stays off; a later resume that succeeds, or being told again, puts that right.

So what can be counted on is told by the answers that were given: whether the FIFO was told
(`FifoTold`), and whether every attempt to suspend the device since has been made up for
(`FifoRestored`), be the attempt one that succeeded or one that failed.
-/

set_option autoImplicit false

namespace Inertial

/-- The content of the FIFO register for a FIFO that takes samples or does not. -/
def fifoMode (stream : Bool) : Byte :=
  if stream then Register.fifoStream else Register.fifoBypass

/-- A call has told the FIFO whether to take samples, and has succeeded. -/
def FifoTold (answers : List (Operation × Reply)) : Prop :=
  ∃ on, (.setStreaming on, .ok) ∈ answers

/-- After each attempt to suspend the device a call that makes up for it has succeeded. -/
def FifoRestored (answers : List (Operation × Reply)) : Prop :=
  ∀ before r after, answers = before ++ (.suspend, r) :: after →
    (.resume, .ok) ∈ after ∨ FifoTold after

/-- If the last call told the FIFO nothing, an earlier one did. -/
theorem FifoTold.of_concat {answers : List (Operation × Reply)} {x : Operation × Reply}
    (hx : ∀ on, x ≠ (.setStreaming on, .ok)) (h : FifoTold (answers ++ [x])) :
    FifoTold answers := by
  obtain ⟨on, hmem⟩ := h
  rcases List.mem_append.mp hmem with hmem | hmem
  · exact ⟨on, hmem⟩
  · exact absurd (List.mem_singleton.mp hmem).symm (hx on)

/-- If the last call made up for nothing, each attempt before it was made up for already. -/
theorem FifoRestored.of_concat {answers : List (Operation × Reply)} {x : Operation × Reply}
    (hresume : x ≠ (.resume, .ok)) (hset : ∀ on, x ≠ (.setStreaming on, .ok))
    (h : FifoRestored (answers ++ [x])) : FifoRestored answers := by
  rintro before r after rfl
  rcases h before r (after ++ [x]) (by rw [List.append_assoc]; rfl) with hmem | htold
  · rcases List.mem_append.mp hmem with hmem | hmem
    · exact Or.inl hmem
    · exact absurd (List.mem_singleton.mp hmem).symm hresume
  · exact Or.inr (htold.of_concat hset)

/-- Nothing has made up yet for an attempt that was the last call. -/
theorem not_fifoRestored_suspend (answers : List (Operation × Reply)) (r : Reply) :
    ¬ FifoRestored (answers ++ [(.suspend, r)]) := by
  intro h
  rcases h answers r [] rfl with hmem | ⟨on, hmem⟩
  · cases hmem
  · cases hmem

/-- If the FIFO was told, it does nothing or takes samples as noted. If it was also restored, it
does what is noted. -/
def FifoAgrees (told restored : Prop) (core : Core) (m : Memory) : Prop :=
  told →
    (m Register.fifoConfig = fifoMode false ∨
      core.streaming = true ∧ m Register.fifoConfig = fifoMode true) ∧
    (restored → m Register.fifoConfig = fifoMode core.streaming)

namespace FifoAgrees

variable {told restored told' restored' : Prop} {core : Core} {m : Memory}

/-- Fewer promises are kept too. -/
theorem imp (h : FifoAgrees told restored core m) (htold : told' → told)
    (hrestored : restored' → restored) : FifoAgrees told' restored' core m :=
  fun ht => ⟨(h (htold ht)).1, fun hr => (h (htold ht)).2 (hrestored hr)⟩

/-- Other registers and other parts of the record do not matter. -/
theorem congr {core' : Core} {m' : Memory} (h : FifoAgrees told restored core m)
    (hcore : core'.streaming = core.streaming)
    (hm : m' Register.fifoConfig = m Register.fifoConfig) :
    FifoAgrees told restored core' m' := by
  unfold FifoAgrees
  rw [hcore, hm]
  exact h

/-- A register that does what is noted agrees with every promise. -/
theorem of_fifoConfig (hm : m Register.fifoConfig = fifoMode core.streaming) :
    FifoAgrees told restored core m := by
  refine fun _ => ⟨?_, fun _ => hm⟩
  cases hon : core.streaming with
  | false =>
    rw [hon] at hm
    exact Or.inl hm
  | true =>
    rw [hon] at hm
    exact Or.inr ⟨rfl, hm⟩

/-- Storing a configuration does not touch the FIFO. -/
theorem storeStable : Driver.StoreStable (FifoAgrees told restored) :=
  fun _ m r _ h _ => h.congr rfl (m.write_of_ne _ r.address_ne_fifoConfig.symm)

/-- Nor does any change of power. -/
theorem powerStable : Driver.PowerStable (FifoAgrees told restored) where
  modes := storeStable.modes
  rails := fun _ _ _ h => h
  runtime := fun _ _ _ h => h

end FifoAgrees

namespace Driver

variable {told restored : Prop} {s : System}

/-- After a suspend a FIFO that was told is off or takes samples as noted. -/
theorem upholds_suspend_fifo (hs : s.Agrees (FifoAgrees told restored)) :
    suspend.Upholds (System.Agrees (FifoAgrees told False))
      (fun _ t => t.Agrees (FifoAgrees told False)) s := by
  refine upholds_suspend FifoAgrees.powerStable ?_ hs.1
    ((FifoAgrees.imp hs.2 id False.elim).congr rfl rfl)
  intro core m _ _ _
  exact ⟨Or.inl (m.write_same _ _), False.elim⟩

/-- A step that keeps a relation goes on to the next with it, unless it fails. -/
theorem Keeps.upholds_bind {α β : Type} {J : Core → Memory → Prop} {x : Driver α}
    {f : α → Driver β} {Q : Except DriverError β → System → Prop} (hx : x.Keeps J)
    (hs : s.Agrees J) (hok : ∀ a t, t.Agrees J → (f a).Upholds (fun _ => True) Q t)
    (herror : ∀ e t, t.Agrees J → Q (.error e) t) :
    (x >>= f).Upholds (fun _ => True) Q s := by
  rw [Driver.upholds_bind]
  refine Routine.Upholds.imp (hx s hs) (fun _ _ => trivial) ?_
  rintro (e | a) t ht
  · exact herror e t ht
  · exact hok a t ht

/-- A write goes on with the register written, or it fails and leaves all registers alone. -/
theorem upholds_write_then {α : Type} {J : Core → Memory → Prop} {a : Address} {v : Byte}
    (hop : (RegisterOp.write a v).IsRegular) {f : Unit → Driver α}
    {Q : Except DriverError α → System → Prop} (hs : s.Agrees J)
    (hok : ∀ t : System, t.bench.InStep → t.core = s.core →
      t.bench.chip.memory = s.bench.chip.memory.write a v → (f ()).Upholds (fun _ => True) Q t)
    (herror : ∀ e t, t.Agrees J → Q (.error e) t) :
    (write a v >>= f).Upholds (fun _ => True) Q s := by
  rw [Driver.upholds_bind]
  apply upholds_register hs.1 hop
  · intro bench events h
    obtain ⟨_, _, _, hm⟩ := h.of_ok _ rfl
    exact hok { s with bench } h.inStep rfl hm
  · intro fault bench events h
    obtain ⟨_, hm⟩ := h.of_error fault rfl
    refine herror _ _ ⟨h.inStep, ?_⟩
    change J s.core bench.chip.memory
    rw [hm]
    exact hs.2

/-- Writing the FIFO register goes on with the register written, or it fails and leaves it alone. -/
theorem upholds_setFifo_then {α : Type} {J : Core → Memory → Prop} (stream : Bool)
    {f : Unit → Driver α} {Q : Except DriverError α → System → Prop} (hs : s.Agrees J)
    (hok : ∀ t : System, t.bench.InStep → t.core = s.core →
      t.bench.chip.memory Register.fifoConfig = fifoMode stream →
      (f ()).Upholds (fun _ => True) Q t)
    (herror : ∀ e t, t.Agrees J → Q (.error e) t) :
    (setFifo stream >>= f).Upholds (fun _ => True) Q s := by
  have hop : (RegisterOp.write Register.fifoConfig (fifoMode stream)).IsRegular :=
    Register.isRegular_write_bank0 (by decide : (0x16 : Byte) < 0x80) (by decide) _
  refine upholds_write_then hop hs ?_ herror
  intro t hin hcore hm
  refine hok t hin hcore ?_
  rw [hm]
  exact s.bench.chip.memory.write_same _ _

/-- After a resume that succeeds a FIFO that was told does what is noted. -/
theorem upholds_resume_fifo (hs : s.Agrees (FifoAgrees told restored)) :
    resume.Upholds (fun _ => True) (fun r t => t.Agrees (FifoAgrees told restored) ∧
      (r = .ok () → t.Agrees (FifoAgrees told True))) s := by
  have hpower : PowerStable (FifoAgrees told restored) := FifoAgrees.powerStable
  unfold resume
  refine (keeps_interfaceOn hpower).upholds_bind hs ?_ fun e t ht => ⟨ht, fun h => nomatch h⟩
  intro _ t ht
  refine (keeps_modifyCore fun core m h => hpower.runtime core m _ h).upholds_bind ht ?_
    fun e t ht => ⟨ht, fun h => nomatch h⟩
  intro _ t ht
  refine keeps_getCore.upholds_bind ht ?_ fun e t ht => ⟨ht, fun h => nomatch h⟩
  intro core t ht
  refine (keeps_setPowerAndWait hpower.modes core.saved).upholds_bind ht ?_
    fun e t ht => ⟨ht, fun h => nomatch h⟩
  intro _ t ht
  rw [Driver.upholds_bind, upholds_getCore]
  dsimp only
  split
  · rename_i hon
    have hwritten : ∀ {told' restored' : Prop} (u : System), u.bench.InStep → u.core = t.core →
        u.bench.chip.memory Register.fifoConfig = fifoMode true →
        u.Agrees (FifoAgrees told' restored') := by
      intro told' restored' u hin hcore hm
      refine ⟨hin, .of_fifoConfig ?_⟩
      rw [hm, hcore, hon]
    rw [← bind_pure (setFifo true)]
    refine upholds_setFifo_then true ht ?_ fun e u hu => ⟨hu, fun h => nomatch h⟩
    exact fun u hin hcore hm => ⟨hwritten u hin hcore hm, fun _ => hwritten u hin hcore hm⟩
  · -- A FIFO that is not to take samples is off, so nothing has to be put right.
    rename_i hoff
    refine ⟨ht, fun _ => ⟨ht.1, fun htold => ⟨(ht.2 htold).1, fun _ => ?_⟩⟩⟩
    rcases (ht.2 htold).1 with hm | ⟨hon, _⟩
    · rw [hm, Bool.eq_false_iff.mpr hoff]
    · exact absurd hon hoff

/-- Telling the FIFO is noted if it succeeds. -/
theorem upholds_setStreaming_fifo (on : Bool) (hs : s.Agrees (FifoAgrees told restored)) :
    (setStreaming on).Upholds (fun _ => True) (fun r t => t.Agrees (FifoAgrees told restored) ∧
      (r = .ok () → t.Agrees (FifoAgrees True True))) s := by
  refine upholds_setFifo_then on hs ?_ fun e t ht => ⟨ht, fun h => nomatch h⟩
  intro t hin _ hm
  rw [upholds_modifyCore]
  exact ⟨⟨hin, .of_fifoConfig hm⟩, fun _ => ⟨hin, .of_fifoConfig hm⟩⟩

end Driver

/-! ## What every call leaves behind -/

/-- The FIFO agrees with what is noted of it as far as the answers that were given tell. -/
def fifoCovenant : Covenant where
  rest answers := System.Agrees (FifoAgrees (FifoTold answers) (FifoRestored answers))
  seen _ := True

namespace Operation

variable {J K : Core → Memory → Prop} {s : System}

/-- What a success of a driver brings about is what the answer tells. -/
theorem upholds_reply {x : Driver Unit}
    (hx : x.Upholds (fun _ => True) (fun r t => t.Agrees J ∧ (r = .ok () → t.Agrees K)) s) :
    (reply x fun _ => .ok).Upholds (fun _ => True)
      (fun r t => t.Agrees J ∧ (r = .ok → t.Agrees K)) s := by
  unfold reply
  rw [Routine.upholds_bind]
  refine Routine.Upholds.mono hx ?_
  rintro (e | _) t ⟨hJ, hK⟩
  · exact ⟨hJ, fun h => nomatch h⟩
  · exact ⟨hJ, fun _ => hK rfl⟩

/-- Operations that have nothing to do with the FIFO leave it to what is noted of it. -/
theorem upholds_fifo_of_keeps {op : Operation} {answers : List (Operation × Reply)}
    (hresume : op ≠ .resume) (hset : ∀ on, op ≠ .setStreaming on)
    (hop : op.body.Keeps (FifoAgrees (FifoTold answers) (FifoRestored answers)))
    (hs : fifoCovenant.rest answers s) :
    op.body.Upholds (fun _ => True) (fun r t => fifoCovenant.rest (answers ++ [(op, r)]) t) s := by
  refine (hop s hs).imp (fun _ _ => trivial) ?_
  intro r t ht
  have hr : (op, r) ≠ (.resume, .ok) := fun h => hresume (congrArg Prod.fst h)
  have hr' : ∀ on, (op, r) ≠ (.setStreaming on, .ok) := fun on h => hset on (congrArg Prod.fst h)
  exact ⟨ht.1, ht.2.imp (.of_concat hr') (.of_concat hr hr')⟩

/-- Every operation leaves the FIFO as the covenant says. -/
theorem upholds_fifo (op : Operation) {answers : List (Operation × Reply)}
    (hs : fifoCovenant.rest answers s) :
    op.body.Upholds (fun _ => True) (fun r t => fifoCovenant.rest (answers ++ [(op, r)]) t) s := by
  have hpower : Driver.PowerStable (FifoAgrees (FifoTold answers) (FifoRestored answers)) :=
    FifoAgrees.powerStable
  have hstore : Driver.StoreStable (FifoAgrees (FifoTold answers) (FifoRestored answers)) :=
    FifoAgrees.storeStable
  have hother {op : Operation} (hop : op.body.Keeps _) (hresume : op ≠ .resume)
      (hset : ∀ on, op ≠ .setStreaming on) :=
    upholds_fifo_of_keeps hresume hset hop hs
  cases op with
  -- After a suspend nothing is known to be restored, however it ended.
  | suspend =>
    have hsuspend : (reply Driver.suspend fun _ => .ok).Upholds (fun _ => True)
        (fun _ t => t.Agrees (FifoAgrees (FifoTold answers) False)) s := by
      unfold reply
      rw [Routine.upholds_bind]
      refine Routine.Upholds.imp (Driver.upholds_suspend_fifo hs) (fun _ _ => trivial) ?_
      rintro (e | _) t ht <;> exact ht
    refine Routine.Upholds.mono hsuspend ?_
    intro r t ht
    exact ⟨ht.1, ht.2.imp (.of_concat (by simp)) (not_fifoRestored_suspend answers r)⟩
  -- Only a resume that succeeded restores; any other answer leaves what was promised before.
  | resume =>
    refine (upholds_reply (Driver.upholds_resume_fifo hs)).mono ?_
    intro r t ⟨ht, hok⟩
    by_cases hr : r = .ok
    · exact ⟨ht.1, (hok hr).2.imp (.of_concat (by simp)) fun _ => trivial⟩
    · exact ⟨ht.1, ht.2.imp (.of_concat (by simp)) (.of_concat (by simpa using hr) (by simp))⟩
  | setStreaming on =>
    refine (upholds_reply (Driver.upholds_setStreaming_fifo on hs)).mono ?_
    intro r t ⟨ht, hok⟩
    by_cases hr : r = .ok
    · exact ⟨ht.1, (hok hr).2.imp (fun _ => trivial) fun _ => trivial⟩
    · have hnot : ∀ on', (Operation.setStreaming on, r) ≠ (.setStreaming on', .ok) :=
        fun on' h => hr (congrArg Prod.snd h)
      exact ⟨ht.1, ht.2.imp (.of_concat hnot) (.of_concat (by simp) hnot)⟩
  -- The other operations do not touch the FIFO.
  | grant request wait =>
    exact hother (keeps_settling ((Driver.composed_grant request).keeps_of_settings hstore) wait)
      (by simp) (by simp)
  | setTemperature on wait =>
    exact hother
      (keeps_settling ((Driver.composed_setTemperature on).keeps_of_settings hstore) wait)
      (by simp) (by simp)
  | setPower p wait =>
    exact hother (keeps_settling (Driver.keeps_setPower hpower.modes p) wait) (by simp) (by simp)
  | runtimeSuspend =>
    exact hother (keeps_reply (Driver.keeps_runtimeSuspend hpower) _) (by simp) (by simp)
  | runtimeResume =>
    exact hother (keeps_reply (Driver.keeps_runtimeResume hpower) _) (by simp) (by simp)
  | getConfig => exact hother (keeps_reply Driver.keeps_getCore _) (by simp) (by simp)
  | getPower => exact hother (keeps_reply Driver.keeps_getCore _) (by simp) (by simp)
  | isSuspended => exact hother (keeps_reply Driver.keeps_getCore _) (by simp) (by simp)

end Operation

/-- Every call keeps what the FIFO was promised. -/
theorem isKept_fifoCovenant : fifoCovenant.IsKept where
  seen_of_rest := fun _ => trivial
  rest_around := fun _ _ h => h
  seen_around := fun _ _ h => h
  seen_woke := fun h => h
  operation := fun _ op _ hs => op.upholds_fifo hs
  sample := fun _ time sink s hs =>
    (Driver.keeps_takeSample time sink s hs).imp (fun _ _ => trivial) fun _ _ h => h

/-! ## What can be observed -/

/-- A suspend of an active device whose FIFO takes samples begins with turning that off. It stays
off if that access succeeded, whatever becomes of the suspend, and otherwise it is left alone. -/
theorem Driver.exec_suspend_streaming {s : System} (hin : s.bench.InStep)
    (hbank : s.bench.AtFirstBank) (hactive : s.core.power.active = true)
    (hon : s.core.streaming = true) :
    ∃ ok events,
      (suspend.exec s).2.bench.trace = s.bench.trace ++
        .access (s.bench.bus.writeAccess Register.fifoConfig Register.fifoBypass) ok :: events ∧
      (suspend.exec s).2.bench.chip.memory Register.fifoConfig =
        if ok then fifoMode false else s.bench.chip.memory Register.fifoConfig := by
  let note : System := { s with core := { s.core with saved := s.core.config.power } }
  let rest : Unit → Driver Unit := fun _ => do setPowerAndWait .off; interfaceOff
  have hexec : suspend.exec s = (setFifo false >>= rest).exec note := by
    rw [suspend, exec_bind, exec_modifyCore]
    dsimp only
    rw [exec_bind, exec_getCore]
    dsimp only
    rw [if_neg (by rw [RuntimePower.suspended, hactive]; decide), if_pos hon]
  have hwrite : (setFifo false >>= pure).Upholds (fun _ => True) (fun r t => t.bench.InStep ∧
      t.bench.chip.memory Register.fifoConfig =
        if r.isOk then fifoMode false else s.bench.chip.memory Register.fifoConfig) note :=
    upholds_setFifo_then (J := fun _ m => m Register.fifoConfig =
      s.bench.chip.memory Register.fifoConfig) false ⟨hin, rfl⟩
      (fun t hin _ hm => ⟨hin, hm⟩) fun e t ht => ⟨ht.1, ht.2⟩
  have htrace := trace_write (s := note) hbank
    (by decide : Register.bankOf Register.fifoConfig = _) Register.fifoBypass
  have hafter := upholds_exec hwrite
  rw [bind_pure] at hafter
  rw [hexec, exec_bind]
  have hsame : write Register.fifoConfig Register.fifoBypass = setFifo false := rfl
  rw [hsame] at htrace
  rcases hx : exec (setFifo false) note with ⟨e | _, t⟩
  · rw [hx] at htrace hafter
    exact ⟨false, [], htrace, hafter.2⟩
  · -- What is done after that does not touch the FIFO.
    rw [hx] at htrace hafter
    let J : Core → Memory → Prop := fun _ m => m Register.fifoConfig = fifoMode false
    have hJ : PowerStable J := {
      modes := fun _ m p h => (m.write_of_ne _ (by decide)).trans h
      rails := fun _ _ _ h => h
      runtime := fun _ _ _ h => h }
    have hrest : (rest ()).Keeps J :=
      (keeps_setPowerAndWait hJ.modes .off).bind fun _ => keeps_interfaceOff hJ
    obtain ⟨_, hend⟩ := upholds_exec (hrest t hafter)
    obtain ⟨events, hevents⟩ := (rest ()).run.exists_trace_run t
    refine ⟨true, events, ?_, hend⟩
    change (exec (rest ()) t).2.bench.trace = _ at hevents
    rw [hevents, htrace, List.append_assoc]
    rfl

namespace System

variable {past : List Event} {answers : List (Operation × Reply)} {s : System}

/-- Wherever the lock is free the promises are kept. -/
theorem IsReachableBy.fifoAgrees (hs : s.IsReachableBy past answers) (hfree : s.locked = false) :
    fifoCovenant.rest answers s := by
  refine (isKept_fifoCovenant.holds ?_ hs).2 hfree
  intro bench chip interrupt t hin _ hexec
  have hagrees := Driver.leads_powerUp chip interrupt { bench, core := .fresh chip }
    ⟨hin, trivial⟩ () t hexec
  refine ⟨hagrees.1, ?_⟩
  rintro ⟨_, hmem⟩
  cases hmem

/-- Once a call has told the FIFO whether to take samples, its register holds, whenever nobody has
the lock, that it does not, or that it does and this is noted. It holds what is noted if after each
attempt to suspend the device, successful or not, a resume has succeeded or the FIFO was told again.

From there a suspend of an active device whose FIFO takes samples begins with turning that off, and
whether this access succeeds decides what the register holds after it, not what the suspend answers.
-/
theorem IsReachableBy.fifoConfig_eq (hs : s.IsReachableBy past answers) (hfree : s.locked = false)
    (htold : FifoTold answers) :
    (s.bench.chip.memory Register.fifoConfig = Register.fifoBypass ∨
      s.core.streaming = true ∧ s.bench.chip.memory Register.fifoConfig = Register.fifoStream) ∧
    (FifoRestored answers →
      s.bench.chip.memory Register.fifoConfig = fifoMode s.core.streaming ∧
      (s.core.power.active = true → s.core.streaming = true →
        let t := (Operation.suspend.body.run s).2
        ∃ ok events,
          t.bench.trace = s.bench.trace ++
            .access (s.bench.bus.writeAccess Register.fifoConfig Register.fifoBypass) ok ::
              events ∧
          t.core.streaming = true ∧
          t.bench.chip.memory Register.fifoConfig =
            if ok then Register.fifoBypass else Register.fifoStream)) := by
  obtain ⟨hin, hfifo⟩ := hs.fifoAgrees hfree
  refine ⟨(hfifo htold).1, ?_⟩
  intro hrestored
  have hmode := (hfifo htold).2 hrestored
  refine ⟨hmode, ?_⟩
  intro hactive hon
  obtain ⟨ok, events, htrace, hend⟩ :=
    Driver.exec_suspend_streaming hin hs.atFirstBank hactive hon
  rw [hmode, hon] at hend
  have hstreaming : Driver.PowerStable fun core _ => core.streaming = true := {
    modes := fun _ _ _ h => h
    rails := fun _ _ _ h => h
    runtime := fun _ _ _ h => h }
  obtain ⟨_, hstill⟩ := Driver.upholds_exec
    (Driver.upholds_suspend hstreaming (fun _ _ h _ => h) hin hon)
  intro t
  have ht : t = (Driver.suspend.exec s).2 := Operation.run_reply_snd _ _ s
  rw [ht]
  exact ⟨ok, events, htrace, hstill, hend⟩

/-- The FIFO takes samples when a suspend is refused by the supply. The resume after that puts the
FIFO right, and the next suspend turns it off again. -/
theorem IsReachableBy.fifoConfig_eq_past_refused_supply :
    let bench : Bench := {
      chip := {
        memory := Memory.zero.writeAll [(Register.whoAmI, 0x42), (Register.intStatus, 0x10)] }
      bus := .serial Register.bank0
      supply := .switched
      plan := { failsSwitch := fun k _ _ => k == 2 } }
    let start :=
      ((Driver.powerUp .icm42605 {}).exec { bench, core := .fresh .icm42605 }).2.withInbox {}
    let calls : List (Call ScriptedSink) :=
      [.operation (.setStreaming true), .operation .suspend, .operation .resume]
    let p := (Pool.ofCalls calls start).follow 0 [0, 1, 2, 2]
    let answers := [] ++ p.answered calls
    p.system.IsReachableBy [] answers ∧
      answers = [(.setStreaming true, .ok), (.suspend, .failed (.rail .vddio)), (.resume, .ok)] ∧
      p.system.bench.chip.memory Register.fifoConfig = fifoMode p.system.core.streaming ∧
      ∃ ok : Bool, (Operation.suspend.body.run p.system).2.bench.chip.memory Register.fifoConfig =
        if ok then Register.fifoBypass else Register.fifoStream := by
  intro bench start calls p answers
  have hstart : start.IsReachableBy [] [] :=
    .powerUp rfl rfl (Except.eq_ok_of_toOption (by decide +kernel))
  have hp : p.system.IsReachableBy [] answers :=
    hstart.follow (by decide +kernel) calls 0 [0, 1, 2, 2]
  have hanswers : answers =
      [(.setStreaming true, .ok), (.suspend, .failed (.rail .vddio)), (.resume, .ok)] := by
    decide +kernel
  have htold : FifoTold answers := by
    rw [hanswers]
    exact ⟨true, List.mem_cons_self⟩
  have hrestored : FifoRestored answers := by
    rw [hanswers]
    rintro (_ | ⟨a, _ | ⟨b, _ | ⟨c, before⟩⟩⟩) r after h <;> simp at h
    obtain ⟨_, _, rfl⟩ := h
    exact Or.inl List.mem_cons_self
  obtain ⟨_, hmode⟩ := IsReachableBy.fifoConfig_eq hp (by decide +kernel) htold
  obtain ⟨hmode, hsuspend⟩ := hmode hrestored
  obtain ⟨ok, _, _, _, hend⟩ := hsuspend (by decide +kernel) (by decide +kernel)
  exact ⟨hp, hanswers, hmode, ok, hend⟩

/-- The FIFO takes samples when a suspend is refused by the supply, and after that it does not. No
suspend has succeeded, and that the FIFO is to take samples is still noted. -/
theorem IsReachableBy.fifo_off_after_refused_supply :
    let bench : Bench := {
      chip := {
        memory := Memory.zero.writeAll [(Register.whoAmI, 0x40), (Register.intStatus, 0x10)] }
      supply := .switched
      plan := { failsSwitch := fun k _ _ => k == 2 } }
    let start :=
      ((Driver.powerUp .icm42600 {}).exec { bench, core := .fresh .icm42600 }).2.withInbox {}
    let calls : List (Call ScriptedSink) :=
      [.operation (.setStreaming true), .operation .suspend]
    let p := (Pool.ofCalls calls start).follow 0 [0, 1]
    let answers := [] ++ p.answered calls
    p.system.IsReachableBy [] answers ∧ p.system.locked = false ∧
      answers = [(.setStreaming true, .ok), (.suspend, .failed (.rail .vddio))] ∧
      p.system.core.streaming = true ∧
      p.system.bench.chip.memory Register.fifoConfig = Register.fifoBypass ∧
      Register.fifoBypass ≠ fifoMode p.system.core.streaming := by
  intro bench start calls p answers
  have hstart : start.IsReachableBy [] [] :=
    .powerUp trivial rfl (Except.eq_ok_of_toOption (by decide +kernel))
  have hp : p.system.IsReachableBy [] answers :=
    hstart.follow (by decide +kernel) calls 0 [0, 1]
  refine ⟨hp, ?_, ?_, ?_, ?_, ?_⟩ <;> decide +kernel

end System

end Inertial
