import Inertial.Proofs.Driver.Blindness
import Inertial.Proofs.Driver.Stability

/-!
# Calls one after the other

When nobody else uses the device, calls are made from end to end. `Call.performAll` gives what each
of them answers and adds to the trace, and the trace after all of them is put together from that. A
relation between the record of the device and the registers that every call keeps holds after all of
them.
-/

set_option autoImplicit false

namespace Inertial

namespace Operation

/-- An operation answers what its driver comes to. -/
theorem run_reply {α : Type} (x : Driver α) (f : α → Reply) (s : System) :
    (reply x f).run s =
      match x.exec s with
      | (.ok a, t) => (f a, t)
      | (.error e, t) => (.failed e, t) := by
  unfold reply Driver.exec
  rw [Routine.run_bind]
  rcases x.run.run s with ⟨_ | _, t⟩ <;> rfl

/-- Reporting a result changes nothing. -/
theorem run_reply_snd {α : Type} (x : Driver α) (f : α → Reply) (s : System) :
    ((reply x f).run s).2 = (x.exec s).2 := by
  rw [run_reply]
  rcases x.exec s with ⟨_ | _, t⟩ <;> rfl

/-- Only a driver that succeeds is answered as a success. -/
theorem exec_of_run_reply {x : Driver Unit} {s t : System}
    (h : (reply x fun _ => .ok).run s = (.ok, t)) : x.exec s = (.ok (), t) := by
  rw [run_reply] at h
  rcases hx : x.exec s with ⟨e | _, u⟩
  · rw [hx] at h
    cases h
  · rw [hx] at h
    cases h
    rfl

end Operation

namespace Routine

variable {J : Core → Memory → Prop} {α : Type}

/-- What a routine keeps at its waits it keeps without any. -/
theorem Keeps.agrees_run {x : Routine α} (hx : x.Keeps J) {s : System} (hs : s.Agrees J) :
    (x.run s).2.Agrees J :=
  upholds_run (hx s hs)

end Routine

/-- A worker keeps every relation of record and registers. -/
theorem System.agrees_serve {J : Core → Memory → Prop} {σ : Type} [Sink σ] (wakeUps : Nat)
    (sink : σ) {s : System} (hs : s.Agrees J) : (s.serve wakeUps sink).Agrees J := by
  induction wakeUps generalizing sink s with
  | zero => exact hs
  | succ n ih =>
    unfold serve
    cases hx : s.takeWakeUp? with
    | none => exact hs
    | some t =>
      obtain ⟨i, rfl⟩ := System.takeWakeUp?_eq_some hx
      have ht : (s.withInbox i).Agrees J := hs
      exact ih _ ((Driver.keeps_takeSample _ sink).agrees_run ht)

namespace Call

variable {J : Core → Memory → Prop} {σ : Type} [Sink σ]

/-- A call keeps what its operation keeps, if it is one. -/
theorem agrees_perform {c : Call σ} (hop : ∀ op, c = .operation op → op.body.Keeps J)
    (wakeUps : Nat) {s : System} (hs : s.Agrees J) : (c.perform wakeUps s).2.Agrees J := by
  cases c with
  | operation op => exact (hop op rfl).agrees_run hs
  | identity => exact hs
  | interrupt now => exact hs
  | awaitInterrupt =>
    rw [perform]
    cases hx : s.takeWakeUp? with
    | none => exact hs
    | some t =>
      obtain ⟨i, rfl⟩ := System.takeWakeUp?_eq_some hx
      exact hs
  | process sink => exact (Driver.keeps_takeSample s.stamp sink).agrees_run hs
  | serve sink => exact System.agrees_serve wakeUps sink hs

/-- Makes calls one after the other. Gives for each what it answers and what it adds to the trace,
and the system after all of them. -/
def performAll (wakeUps : Nat) : List (Call σ) → System →
    List (Option Reply × List Event) × System
  | [], s => ([], s)
  | c :: calls, s =>
    let (reply, t) := c.perform wakeUps s
    let (rest, u) := performAll wakeUps calls t
    ((reply, t.bench.trace.drop s.bench.trace.length) :: rest, u)

/-- Calls in a row keep what each of their operations does. -/
theorem agrees_performAll {calls : List (Call σ)}
    (hops : ∀ op, .operation op ∈ calls → op.body.Keeps J) (wakeUps : Nat) {s : System}
    (hs : s.Agrees J) : (performAll wakeUps calls s).2.Agrees J := by
  induction calls generalizing s with
  | nil => exact hs
  | cons c calls ih =>
    have hc : (c.perform wakeUps s).2.Agrees J := by
      refine agrees_perform ?_ wakeUps hs
      intro op h
      exact hops op (h ▸ List.mem_cons_self)
    exact ih (fun op h => hops op (List.mem_cons_of_mem c h)) hc

/-- One more call is made where the others have ended. -/
theorem performAll_concat (wakeUps : Nat) (calls : List (Call σ)) (c : Call σ) (s : System) :
    performAll wakeUps (calls ++ [c]) s =
      let (rest, t) := performAll wakeUps calls s
      let (reply, u) := c.perform wakeUps t
      (rest ++ [(reply, u.bench.trace.drop t.bench.trace.length)], u) := by
  induction calls generalizing s with
  | nil => rfl
  | cons first calls ih =>
    change ((_ : Option Reply × List Event) :: (performAll wakeUps (calls ++ [c]) _).1,
      (performAll wakeUps (calls ++ [c]) _).2) = _
    rw [ih]
    rfl

end Call

/-! ## The trace -/

/-- A worker only adds to the trace. -/
theorem System.exists_trace_serve {σ : Type} [Sink σ] (wakeUps : Nat) (sink : σ) (s : System) :
    ∃ events, (s.serve wakeUps sink).bench.trace = s.bench.trace ++ events := by
  induction wakeUps generalizing sink s with
  | zero => exact ⟨[], (List.append_nil _).symm⟩
  | succ n ih =>
    unfold serve
    cases hx : s.takeWakeUp? with
    | none => exact ⟨[], (List.append_nil _).symm⟩
    | some t =>
      obtain ⟨i, rfl⟩ := takeWakeUp?_eq_some hx
      obtain ⟨first, hfirst⟩ :=
        (Driver.takeSample (s.withInbox i).stamp sink).exists_trace_run (s.withInbox i)
      obtain ⟨rest, hrest⟩ := ih ((Driver.takeSample (s.withInbox i).stamp sink).run
        (s.withInbox i)).1.2 ((Driver.takeSample (s.withInbox i).stamp sink).run (s.withInbox i)).2
      refine ⟨first ++ rest, hrest.trans ?_⟩
      rw [hfirst, List.append_assoc]
      rfl

namespace Call

variable {σ : Type} [Sink σ]

/-- A call only adds to the trace. -/
theorem exists_trace_perform (c : Call σ) (wakeUps : Nat) (s : System) :
    ∃ events, (c.perform wakeUps s).2.bench.trace = s.bench.trace ++ events := by
  cases c with
  | operation op => exact op.body.exists_trace_run s
  | identity => exact ⟨[], (List.append_nil _).symm⟩
  | interrupt now => exact ⟨[], (List.append_nil _).symm⟩
  | awaitInterrupt =>
    refine ⟨[], ?_⟩
    rw [perform, List.append_nil]
    cases hx : s.takeWakeUp? with
    | none => rfl
    | some t =>
      obtain ⟨i, rfl⟩ := System.takeWakeUp?_eq_some hx
      rfl
  | process sink => exact (Driver.takeSample s.stamp sink).exists_trace_run s
  | serve sink => exact System.exists_trace_serve wakeUps sink s

/-- The trace after calls one after the other is the one from before with what each call added. -/
theorem trace_performAll (wakeUps : Nat) (calls : List (Call σ)) (s : System) :
    (performAll wakeUps calls s).2.bench.trace =
      s.bench.trace ++ ((performAll wakeUps calls s).1.map Prod.snd).flatten := by
  induction calls generalizing s with
  | nil => exact (List.append_nil _).symm
  | cons c calls ih =>
    obtain ⟨events, hevents⟩ := c.exists_trace_perform wakeUps s
    have hrest := ih (c.perform wakeUps s).2
    have hfirst : (c.perform wakeUps s).2.bench.trace.drop s.bench.trace.length = events := by
      rw [hevents, List.drop_left]
    change (performAll wakeUps calls (c.perform wakeUps s).2).2.bench.trace = s.bench.trace ++
      ((c.perform wakeUps s).2.bench.trace.drop s.bench.trace.length ++
        ((performAll wakeUps calls (c.perform wakeUps s).2).1.map Prod.snd).flatten)
    rw [hrest, hfirst, hevents, List.append_assoc]

end Call

end Inertial
