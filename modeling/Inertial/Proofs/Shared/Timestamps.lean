import Inertial.Proofs.Driver.SampleLog
import Inertial.Proofs.Shared.Progress
import Inertial.Proofs.Shared.Reachable
import Inertial.Proofs.Shared.Turns

/-!
# The time of a sample

A call that takes a sample looks up the time of the newest edge when it begins, which is before it
asks for the lock. The sample has that time, whatever happens until the lock is free. So an edge
that comes while the call waits for the lock is not the one that the sample is told to be from,
although its data is read after that edge.
-/

set_option autoImplicit false

namespace Inertial

/-- The trace only gets longer, also if a routine is interrupted. -/
theorem Routine.upholds_prefix {α : Type} (x : Routine α) {past : List Event} {s : System}
    (hs : past <+: s.bench.trace) :
    x.Upholds (fun t => past <+: t.bench.trace) (fun _ t => past <+: t.bench.trace) s := by
  induction x generalizing s with
  | done a => exact hs
  | act x next ih =>
    obtain ⟨events, hevents⟩ := x.exists_logged_perform s
    exact ih _ (hs.trans ⟨events, hevents.trace.symm⟩)
  | sleep d rest ih =>
    have hdelay : past <+: (s.log (.delay d)).bench.trace := hs.trans (List.prefix_append _ _)
    refine ⟨hdelay, fun i => ih ?_⟩
    exact hdelay.trans (List.prefix_append _ [Event.woke])

/-- What a task goes on to is not a sample with another time, nor serving on. -/
def After.HasTime {σ : Type} (time : Int64) : After σ → Prop
  | .reply (.sample (some x)) => x.timestamp = time
  | .reply _ => True
  | .serve _ => False

/-- The samples of one task have a given time; of the other tasks nothing is asked. -/
def Regime.timing (σ : Type) (start : SerialChip) (i : Nat) (time : Int64) : Regime σ where
  start := start
  agree := Core.Mirrored
  rest h := ∀ x, (i, .push x) ∈ h → x.timestamp = time
  seen _ := True
  fresh _ _ := True
  answers j a := j = i → a.HasTime time
  seen_of_rest := fun _ => trivial
  seen_woke := fun _ _ => trivial
  fresh_append := fun _ _ _ _ => trivial

namespace Regime

variable {σ : Type} [Sink σ] {start : SerialChip} {i j : Nat} {time : Int64}

omit [Sink σ] in
/-- Another task may do anything. -/
theorem upholds_timing_of_ne (hj : j ≠ i) {h : History} (hrest : (timing σ start i time).rest h)
    (x : Routine (After σ)) {past : List Event} {s : System} (hs : past <+: s.bench.trace) :
    x.Upholds ((timing σ start i time).Pauses j past h) ((timing σ start i time).Concludes j past h)
      s := by
  refine (x.upholds_prefix hs).imp ?_ ?_
  · rintro t ⟨events, hevents⟩
    exact ⟨events, hevents.symm, trivial⟩
  · rintro a t ⟨events, hevents⟩
    refine ⟨events, hevents.symm, ?_, fun hji => absurd hji hj, fun _ _ => trivial⟩
    intro x hx
    rcases List.mem_append.mp hx with hx | hx
    · exact hrest x hx
    · obtain ⟨_, _, he⟩ := List.mem_map.mp hx
      exact absurd (congrArg Prod.fst he) hj

omit [Sink σ] in
/-- Whatever another task does is none of the sample's time. -/
theorem abides_timing_of_ne (hj : j ≠ i) (x : Routine (After σ)) :
    (timing σ start i time).Abides j x :=
  fun _ _ _ _ hrest _ => upholds_timing_of_ne hj hrest x List.prefix_rfl

/-- So it is wherever the other task stands. -/
theorem follows_timing_of_ne (hj : j ≠ i) {h : History} (hrest : (timing σ start i time).rest h)
    (t : Task σ) (s : System) : t.Follows (timing σ start i time) j h s := by
  have habides : ∀ x : Routine (After σ), (timing σ start i time).Abides j x :=
    abides_timing_of_ne hj
  have hanswers : ∀ a, (timing σ start i time).answers j a := fun a hji => absurd hji hj
  cases t with
  | ready call =>
    cases call with
    | operation op => exact ⟨trivial, habides _⟩
    | process sink => exact ⟨trivial, fun _ => habides _⟩
    | serve sink => exact ⟨trivial, fun _ => habides _⟩
    | _ => exact fun r => hanswers (.reply r)
  | listening sink => exact ⟨trivial, fun _ => habides _⟩
  | queued body => exact ⟨trivial, habides body⟩
  | holding body =>
    refine ⟨s.bench.trace, h, [], (List.append_nil h).symm, (List.append_nil _).symm, ?_⟩
    exact fun _ => upholds_timing_of_ne hj hrest body List.prefix_rfl
  | asleep body =>
    refine ⟨s.bench.trace, h, [], (List.append_nil h).symm, (List.append_nil _).symm, ?_⟩
    exact fun _ => upholds_timing_of_ne hj hrest body (List.prefix_append _ _)
  | finished r => exact hanswers (.reply r)

/-- The work of a sample call gives its sample the time it was told. -/
theorem abides_timing_processBody (sink : σ) :
    (timing σ start i time).Abides i (Task.processBody time sink) := by
  intro h s _ _ hrest _
  unfold Task.processBody
  rw [Routine.upholds_bind]
  refine Routine.Upholds.mono (Driver.upholds_takeSample time sink s) ?_
  rintro ⟨sample, sink'⟩ t ⟨⟨events, hevents, hall⟩, htime⟩
  refine ⟨events, hevents, ?_, ?_, by simp⟩
  · intro x hx
    rcases List.mem_append.mp hx with hx | hx
    · exact hrest x hx
    · obtain ⟨e, he, heq⟩ := List.mem_map.mp hx
      cases heq
      cases hall _ he with
      | push hx => exact hx
  · intro _
    cases sample with
    | none => trivial
    | some x => exact htime x rfl

end Regime

namespace Pool

variable {σ : Type} [Sink σ]

/-- A task that is not resumed stays as it is. -/
theorem getElem?_follow_of_not_mem (p : Pool σ) (wakeUps : Nat) {schedule : List Nat} {i : Nat}
    (hi : i ∉ schedule) : (p.follow wakeUps schedule).tasks[i]? = p.tasks[i]? := by
  induction schedule generalizing p with
  | nil => rfl
  | cons j schedule ih =>
    rw [List.mem_cons, not_or] at hi
    have hrest := ih (p.resume wakeUps j) hi.2
    rw [getElem?_resume_of_ne p wakeUps (Ne.symm hi.1)] at hrest
    exact hrest

/-- A call that takes a sample is first resumed at some point of a schedule. Then the sample that it
answers, and the one that it hands to its sink, have the time of the edge that was the newest at
that point. -/
theorem timestamp_of_sample {s : System} (hs : s.IsReachable) {calls : List (Call σ)} {i : Nat}
    {sink : σ} (hi : calls[i]? = some (.process sink)) (wakeUps : Nat) {before : List Nat}
    (hbefore : i ∉ before) (after : List Nat) :
    let made := (ofCalls calls s).follow wakeUps before
    let p := (ofCalls calls s).follow wakeUps (before ++ i :: after)
    (∀ x, p.tasks[i]? = some (.finished (.sample (some x))) → x.timestamp = made.system.stamp) ∧
      ∀ x, (i, .push x) ∈ (ofCalls calls s).history wakeUps (before ++ i :: after) →
        x.timestamp = made.system.stamp := by
  intro made p
  let D := Regime.timing σ made.system.bench.chip i made.system.stamp
  have hready : made.tasks[i]? = some (.ready (.process sink)) := by
    rw [getElem?_follow_of_not_mem _ wakeUps hbefore]
    change (calls.map Task.ready)[i]? = _
    rw [List.getElem?_map, hi]
    rfl
  have hguarded : Guarded Core.Mirrored made.system made.tasks :=
    guarded_follow hs.agrees (fun op _ => op.keeps_mirrored) wakeUps before
  -- The call looks up the time and then asks for the lock; the regime holds from there on.
  let body := Task.processBody made.system.stamp sink
  let queued := made.tasks.set i (.queued body)
  have hqueued : queued[i]? = some (.queued body) := by
    obtain ⟨hlt, _⟩ := List.getElem?_eq_some_iff.mp hready
    exact List.getElem?_set_self hlt
  have hnone : D.rest [] := fun x hx => nomatch hx
  have hbegin : D.Governs [] made.system queued := by
    refine ⟨hguarded.step hready rfl, rfl, fun _ => hnone, trivial, ⟨[], hnone⟩, ?_⟩
    intro j t hj
    rcases getElem?_set_cases hj with ⟨rfl, rfl⟩ | ⟨hji, _⟩
    · exact ⟨trivial, Regime.abides_timing_processBody sink⟩
    · exact Regime.follows_timing_of_ne hji hnone t made.system
  have hserve : ∀ j sink', D.answers j (.serve sink') →
      ∀ time, D.Abides j (Task.serveBody time sink') := by
    intro j sink' hanswers time
    by_cases hji : j = i
    · exact (hanswers hji).elim
    · exact Regime.abides_timing_of_ne hji _
  obtain ⟨events, hevents, hD⟩ := resume_history_induction (Regime.Governs.step hserve)
    (3 * wakeUps + 3) hbegin hqueued
  let q := made.resume wakeUps i
  obtain ⟨hsystem, htasks⟩ := resume_eq hready wakeUps
  have hsystem' : q.system = ((Task.queued body).resume (3 * wakeUps + 3) made.system).2 := hsystem
  have htasks' : q.tasks = made.tasks.set i
    ((Task.queued body).resume (3 * wakeUps + 3) made.system).1 := htasks
  rw [List.set_set, ← hsystem', ← htasks'] at hD
  rw [← hsystem'] at hevents
  have hend := governs_follow hserve hD wakeUps after
  have hp : p = q.follow wakeUps after := List.foldl_append
  have hhistory : (ofCalls calls s).history wakeUps (before ++ i :: after) =
      (ofCalls calls s).history wakeUps before ++
        (History.of i events ++ q.history wakeUps after) := by
    rw [history_append]
    change _ ++ (History.of i (q.system.bench.trace.drop made.system.bench.trace.length) ++ _) = _
    rw [hevents.trace, List.drop_left]
  rw [← hp] at hend
  constructor
  · intro x hx
    exact hend.2.follows i _ hx rfl
  · intro x hx
    rw [hhistory] at hx
    rcases List.mem_append.mp hx with hx | hx
    · exact absurd (mem_of_mem_history hx) hbefore
    · obtain ⟨later, hlater⟩ := hend.2.exists_rest
      exact hlater x (List.mem_append_left later hx)

/-- One edge comes before a sample call and another while it waits for the lock; the sample has the
time of the first, also where it is handed to the sink. -/
theorem timestamp_of_sample_between_edges :
    let bench : Bench := {
      chip := {
        memory := Memory.zero.writeAll [(Register.whoAmI, 0x42), (Register.intStatus, 0x18)] } }
    let s := ((Driver.powerUp .icm42605 {}).exec { bench, core := .fresh .icm42605 }).2.withInbox {}
    let calls : List (Call ScriptedSink) :=
      [.operation (.setPower ⟨.lowNoise, .off, false⟩ true), .interrupt 3, .process {},
        .interrupt 5]
    let schedule := [0, 1, 2, 3, 0, 0, 2]
    let p := (ofCalls calls s).follow 0 schedule
    s.IsReachable ∧ (p.replies[2]?).join.isSome ∧
      (∀ x, p.tasks[2]? = some (.finished (.sample (some x))) → x.timestamp = 3) ∧
      ∀ x, (2, .push x) ∈ (ofCalls calls s).history 0 schedule → x.timestamp = 3 := by
  intro bench s calls schedule p
  have hs : s.IsReachable := .powerUp trivial (Except.eq_ok_of_toOption (by decide +kernel))
  have htime := timestamp_of_sample hs (show calls[2]? = _ from rfl) 0
    (by decide : 2 ∉ [0, 1]) [3, 0, 0, 2]
  have hmade : ((ofCalls calls s).follow 0 [0, 1]).system.stamp = 3 := by decide +kernel
  dsimp only at htime
  rw [hmade] at htime
  exact ⟨hs, by decide +kernel, htime⟩

/-- An edge comes while a sample call waits for the lock, and it is the newest one when the lock is
free. The sample that is taken then has the time of no edge at all. -/
theorem timestamp_older_than_edge :
    let bench : Bench := {
      chip := {
        memory := Memory.zero.writeAll [(Register.whoAmI, 0x42), (Register.intStatus, 0x18)] } }
    let s := ((Driver.powerUp .icm42605 {}).exec { bench, core := .fresh .icm42605 }).2.withInbox {}
    let calls : List (Call ScriptedSink) :=
      [.operation (.setPower ⟨.lowNoise, .off, false⟩ true), .process {}, .interrupt 5]
    let free := (ofCalls calls s).follow 0 [0, 1, 2, 0, 0]
    let p := (ofCalls calls s).follow 0 [0, 1, 2, 0, 0, 1]
    let sample : Sample := {
      channels := .replicate 6 0, padding := .replicate 4 0, timestamp := 0 }
    s.IsReachable ∧ free.system.locked = false ∧ free.system.stamp = 5 ∧
      free.replies = [some .ok, none, some .ok] ∧
      p.replies = [some .ok, some (.sample (some sample)), some .ok] := by
  intro bench s calls free p sample
  have hs : s.IsReachable := .powerUp trivial (Except.eq_ok_of_toOption (by decide +kernel))
  refine ⟨hs, ?_, ?_, ?_, ?_⟩ <;> decide +kernel

end Pool

end Inertial
