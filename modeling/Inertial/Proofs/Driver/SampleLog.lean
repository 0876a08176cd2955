import Inertial.Driver.Sampling
import Inertial.Proofs.Bus.Replay
import Inertial.Proofs.Driver.Interruption

/-!
# What taking a sample logs

Taking a sample reads registers and hands the sample to the sink. So all that is logged is accesses
that change no register and, if the sink wants it, the sample with the time that was asked for
(`Driver.upholds_takeSample`).
-/

set_option autoImplicit false

namespace Inertial

/-- What is logged while a sample with the given time is taken. -/
inductive Event.OfSample (time : Int64) : Event → Prop where
  | read {x : Access} {ok : Bool} (hharmless : (Event.access x ok).IsHarmless) :
    OfSample time (.access x ok)
  | push {sample : Sample} (htime : sample.timestamp = time) : OfSample time (.push sample)

namespace Driver

variable {I : System → Prop}

/-- The trace has grown by events of taking a sample. -/
def SampleLogged (time : Int64) (s t : System) : Prop :=
  ∃ events, t.bench.trace = s.bench.trace ++ events ∧ ∀ e ∈ events, e.OfSample time

/-- Nothing is logged while nothing is done. -/
theorem SampleLogged.refl (time : Int64) (s : System) : SampleLogged time s s :=
  ⟨[], (List.append_nil _).symm, by simp⟩

/-- What is logged in two stretches is logged in one. -/
theorem SampleLogged.trans {time : Int64} {s t u : System} (h : SampleLogged time s t)
    (h' : SampleLogged time t u) : SampleLogged time s u := by
  obtain ⟨events, hevents, hall⟩ := h
  obtain ⟨later, hlater, hall'⟩ := h'
  refine ⟨events ++ later, by rw [hlater, hevents, List.append_assoc], ?_⟩
  intro e he
  rcases List.mem_append.mp he with he | he
  · exact hall e he
  · exact hall' e he

/-- An operation that reads logs nothing but reading. -/
theorem upholds_reading (op : RegisterOp) (time : Int64) (s : System)
    (hop : ∃ events, s.bench.Logged (op.perform.exec s.bench).2 events ∧
      ∀ e ∈ events, e.IsHarmless) :
    Upholds I (fun _ t => SampleLogged time s t) (register op) s := by
  obtain ⟨events, hlogged, hharmless⟩ := hop
  have hread : ∀ e ∈ events, e.OfSample time := by
    intro e he
    obtain ⟨x, ok, rfl⟩ := hlogged.isAccess e he
    exact .read (hharmless _ he)
  unfold register
  rw [upholds_bind, upholds_perform, Action.perform]
  rcases hx : op.perform.exec s.bench with ⟨fault | answer, bench⟩
  · rw [hx] at hlogged
    exact ⟨events, hlogged.trace, hread⟩
  · rw [hx] at hlogged
    exact ⟨events, hlogged.trace, hread⟩

/-- Reading the data logs nothing but reading. -/
theorem upholds_readData (time : Int64) (s : System) :
    Upholds I (fun _ t => SampleLogged time s t) readData s := by
  unfold readData
  rw [upholds_bind]
  refine (upholds_reading (.read Register.intStatus) time s (Bus.logged_read _ s.bench)).mono ?_
  intro r t ht
  cases r with
  | error e => exact ht
  | ok status =>
    dsimp only
    split
    · exact ht
    · rw [upholds_bind]
      refine (upholds_reading (.readBlock Register.accelData RawBlock.size) time t
        (Bus.logged_readBlock _ _ t.bench)).mono ?_
      intro r u hu
      cases r <;> exact ht.trans hu

/-- Edges that come meanwhile are not logged. -/
theorem upholds_raise {Q : PUnit → System → Prop} (edges : List Int64) {s : System}
    (hQ : ∀ i, Q () (s.withInbox i)) :
    Routine.Upholds I Q (edges.forM fun now => act (.raise now)) s := by
  induction edges generalizing s with
  | nil => exact hQ s.bench.inbox
  | cons now edges ih =>
    change Routine.Upholds I Q (act (.raise now) >>= fun _ => edges.forM fun now =>
      act (.raise now)) s
    rw [Routine.upholds_bind]
    exact ih hQ

/-- Taking a sample logs reading and the sample, and the sample has the time that was asked for. -/
theorem upholds_takeSample {σ : Type} [Sink σ] (time : Int64) (sink : σ) (s : System) :
    (takeSample time sink).Upholds I
      (fun r t => SampleLogged time s t ∧ ∀ sample, r.1 = some sample → sample.timestamp = time)
      s := by
  unfold takeSample
  rw [Routine.upholds_bind]
  refine Routine.Upholds.mono (upholds_readData time s) ?_
  intro r t ht
  rcases r with e | _ | raw
  · exact ⟨ht, by simp⟩
  · exact ⟨ht, by simp⟩
  · have htime : ∀ sample, some (Sample.ofRaw raw time) = some sample →
        sample.timestamp = time := by
      rintro _ ⟨⟩
      rfl
    dsimp only
    split
    · rw [Routine.upholds_bind]
      have hpush : SampleLogged time s (t.log (.push (.ofRaw raw time))) := by
        refine ht.trans ⟨[.push (.ofRaw raw time)], rfl, ?_⟩
        intro e he
        rw [List.mem_singleton.mp he]
        exact .push rfl
      change Routine.Upholds I _ (((Sink.push (.ofRaw raw time) sink).1.forM fun now =>
        act (.raise now)) >>= fun _ => pure _) (t.log (.push (.ofRaw raw time)))
      rw [Routine.upholds_bind]
      exact upholds_raise _ fun _ => ⟨hpush, htime⟩
    · exact ⟨ht, htime⟩

end Driver

end Inertial
