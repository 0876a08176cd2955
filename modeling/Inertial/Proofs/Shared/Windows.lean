import Inertial.Proofs.Shared.History

/-!
# Windows of silence

Some events have to be followed by a wait at once, and some may not come before a wait.
`History.KeepsWindows` says so of a history as a whole: it names the event and what comes before and
after it.

To prove it of what tasks do, event by event, a `Watch` goes along with the history. It knows which
task owes a wait, which task waits, and who has stopped the gyroscope and not waited for it since;
an event that breaks a window breaks the watch for good. `Watch.keepsWindows` says that a history
after which the watch is not broken keeps all windows.
-/

set_option autoImplicit false

namespace Inertial

/-! ## Events that open a window -/

namespace PowerRegister

open Setting

/-- A sensor leaves its off mode when the power register changes like this. -/
def startsSensor (old new : Byte) : Bool :=
  (accelMode.get old == code SensorMode.off && accelMode.get new != code SensorMode.off) ||
    (gyroMode.get old == code SensorMode.off && gyroMode.get new != code SensorMode.off)

/-- The gyroscope enters its off mode when the power register changes like this. -/
def stopsGyro (old new : Byte) : Bool :=
  gyroMode.get old != code SensorMode.off && gyroMode.get new == code SensorMode.off

/-- Writing what is there starts no sensor. -/
@[simp] theorem startsSensor_self (b : Byte) : startsSensor b b = false := by
  simp [startsSensor]

/-- Nor does it stop the gyroscope. -/
@[simp] theorem stopsGyro_self (b : Byte) : stopsGyro b b = false := by
  simp [stopsGyro]

/-- The encoding of a power state starts a sensor just if one leaves its off mode. -/
theorem startsSensor_encode (p q : PowerState) :
    startsSensor (encode p) (encode q) =
      (p.accel.leavesOff q.accel || p.gyro.leavesOff q.gyro) := by
  have hmode : ∀ m n : SensorMode, (code m == code SensorMode.off && code n != code SensorMode.off)
      = m.leavesOff n := by
    intro m n
    cases m <;> cases n <;> rfl
  simp only [startsSensor, accelMode_encode, gyroMode_encode, hmode]

/-- It stops the gyroscope just if that enters its off mode. -/
theorem stopsGyro_encode (p q : PowerState) :
    stopsGyro (encode p) (encode q) = p.gyro.entersOff q.gyro := by
  have hmode : ∀ m n : SensorMode, (code m != code SensorMode.off && code n == code SensorMode.off)
      = m.entersOff n := by
    intro m n
    cases m <;> cases n <;> rfl
  simp only [stopsGyro, gyroMode_encode, hmode]

end PowerRegister

namespace Event

/-- The event takes a sensor of the chip out of its off mode. -/
def startsSensor (e : Event) (c : SerialChip) : Bool :=
  PowerRegister.startsSensor (c.memory Register.pwrMgmt0) ((e.effect c).memory Register.pwrMgmt0)

/-- The event takes the gyroscope of the chip to its off mode. -/
def stopsGyro (e : Event) (c : SerialChip) : Bool :=
  PowerRegister.stopsGyro (c.memory Register.pwrMgmt0) ((e.effect c).memory Register.pwrMgmt0)

end Event

/-! ## Windows -/

namespace History

/-- First the task at a position waits, and until that is over nobody does anything. The wait is not
repeated. -/
def BeginsWithWait (i : Nat) (d : Delay) (later : History) : Prop :=
  later = [(i, .delay d)] ∨
    ∃ rest, later = (i, .delay d) :: (i, .woke) :: rest ∧ ∀ j, rest.head? ≠ some (j, .delay d)

/-- The task at a position has waited at least for some time. -/
def HasWait (i : Nat) (time : Duration) (h : History) : Prop :=
  ∃ before d after, h = before ++ (i, .delay d) :: (i, .woke) :: after ∧
    time.micros ≤ d.duration.micros

/-- The windows of a chip are kept: after a sensor was started nobody does anything for 200 µs,
after the interface supply was switched on nobody does anything for 3 ms, and a task that has stopped
the gyroscope does not switch off a rail before it has waited 150 ms. -/
structure KeepsWindows (start : SerialChip) (h : History) : Prop where
  pause : ∀ before i e after, h = before ++ (i, e) :: after →
    e.startsSensor (replay (before.map Prod.snd) start) = true →
    BeginsWithWait i (.micros 200) after
  supply : ∀ before i after, h = before ++ (i, .switch .vddio true true) :: after →
    BeginsWithWait i (.micros 3000) after
  stop : ∀ before i e between r ok after,
    h = before ++ (i, e) :: (between ++ (i, .switch r false ok) :: after) →
    e.stopsGyro (replay (before.map Prod.snd) start) = true →
    HasWait i (.ofMillis 150) between

end History

/-! ## The watch -/

namespace Watch

/-- What has to happen next. -/
inductive Phase where
  /-- Anything but a pause. -/
  | open
  /-- The task at a position has to pause. -/
  | owing (i : Nat) (d : Delay)
  /-- The wait of the task at a position has to end. -/
  | waiting (i : Nat) (d : Delay)
  /-- What happened should not have. -/
  | broken
deriving DecidableEq

end Watch

/-- What is to be known of a history to tell whether the next event is in order. -/
structure Watch where
  chip : SerialChip
  phase : Watch.Phase := .open
  /-- The task has stopped the gyroscope and not waited for it since. -/
  stopping : Nat → Bool := fun _ => false

namespace Watch

/-- The gyroscope has stopped after a wait. -/
def endsStop (d : Delay) : Bool :=
  (Duration.ofMillis Timing.gyroStop).micros ≤ d.duration.micros

/-- What has to happen after an event of the task at position `i`. -/
def nextPhase (w : Watch) (i : Nat) (e : Event) : Phase :=
  match w.phase, e with
  | .open, .access .. =>
    if e.startsSensor w.chip then .owing i (.micros Timing.accessPause) else .open
  | .open, .switch r true ok =>
    if r = .vddio ∧ ok = true then .owing i (.micros Timing.interfaceSupply) else .open
  | .open, .switch _ false _ => if w.stopping i then .broken else .open
  | .open, .push _ => .open
  | .open, .delay (.millis n) => .waiting i (.millis n)
  | .owing j d, .delay d' => if i = j ∧ d' = d then .waiting i d else .broken
  | .waiting j _, .woke => if i = j then .open else .broken
  | _, _ => .broken

/-- The note about the task at position `i` after an event of it. -/
def nextNote (w : Watch) (i : Nat) (e : Event) : Bool :=
  match w.phase, e with
  | .waiting _ d, .woke => w.stopping i && !endsStop d
  | _, _ => w.stopping i || e.stopsGyro w.chip

/-- The watch after an event of a task. -/
def step (w : Watch) (x : Nat × Event) : Watch where
  chip := x.2.effect w.chip
  phase := w.nextPhase x.1 x.2
  stopping := fun j => if j = x.1 then w.nextNote x.1 x.2 else w.stopping j

/-- The watch after a history. -/
def follow (w : Watch) (h : History) : Watch :=
  h.foldl step w

/-- A watch that begins with a chip. -/
def on (start : SerialChip) : Watch where
  chip := start

variable {w : Watch} {i j : Nat} {d : Delay} {e : Event} {h later : History}

/-- Where nothing happens the watch stays as it is. -/
@[simp] theorem follow_nil (w : Watch) : w.follow [] = w := rfl

/-- The watch follows one history after the other. -/
theorem follow_append (w : Watch) (h later : History) :
    w.follow (h ++ later) = (w.follow h).follow later :=
  List.foldl_append

/-- The watch knows the chip. -/
theorem chip_follow (w : Watch) (h : History) :
    (w.follow h).chip = replay (h.map Prod.snd) w.chip := by
  induction h generalizing w with
  | nil => rfl
  | cons x h ih => exact ih (w.step x)

/-- What a task does changes no note about another. -/
theorem stopping_follow_of_ne (w : Watch) (events : List Event) (hj : j ≠ i) :
    (w.follow (History.of i events)).stopping j = w.stopping j := by
  induction events generalizing w with
  | nil => rfl
  | cons e events ih =>
    refine (ih (w.step (i, e))).trans ?_
    exact if_neg hj

/-- A watch that is broken stays so. -/
theorem phase_follow_broken (hw : w.phase = .broken) (h : History) :
    (w.follow h).phase = .broken := by
  induction h generalizing w with
  | nil => exact hw
  | cons x h ih =>
    refine ih ?_
    change w.nextPhase x.1 x.2 = .broken
    unfold nextPhase
    rw [hw]

/-- A watch that ends unbroken never was broken. -/
theorem unbroken_of_follow (hw : (w.follow h).phase ≠ .broken) : w.phase ≠ .broken :=
  fun hbroken => hw (phase_follow_broken hbroken h)

/-- The first event of a history that ends unbroken does not break the watch. -/
theorem nextPhase_ne_broken (hw : (w.follow ((i, e) :: h)).phase ≠ .broken) :
    w.nextPhase i e ≠ .broken :=
  unbroken_of_follow (w := w.step (i, e)) hw

/-! ## What one event can do to the watch -/

/-- Only an access starts a sensor or stops the gyroscope. -/
theorem exists_access (hchange : e.startsSensor w.chip = true ∨ e.stopsGyro w.chip = true) :
    ∃ x ok, e = .access x ok := by
  cases e with
  | access x ok => exact ⟨x, ok, rfl⟩
  | _ => simp [Event.startsSensor, Event.stopsGyro, Event.effect] at hchange

/-- Where an access is in order, nobody owes a wait and nobody waits. -/
theorem phase_of_access {x : Access} {ok : Bool}
    (hnext : w.nextPhase i (.access x ok) ≠ .broken) : w.phase = .open := by
  unfold nextPhase at hnext
  cases hw : w.phase <;> simp_all

/-- A wait begins with its delay. -/
theorem eq_delay_of_waiting (hnext : w.nextPhase i e = .waiting j d) : i = j ∧ e = .delay d := by
  unfold nextPhase at hnext
  split at hnext <;> (try split at hnext) <;> simp_all

/-- Who owes a wait is the next to do something, and that is to wait. -/
theorem eq_delay_of_owing (hw : w.phase = .owing j d) (hnext : w.nextPhase i e ≠ .broken) :
    i = j ∧ e = .delay d ∧ w.nextPhase i e = .waiting j d := by
  unfold nextPhase at hnext ⊢
  rw [hw] at hnext ⊢
  cases e with
  | delay d' =>
    dsimp only at hnext ⊢
    split at hnext
    · rename_i h
      obtain ⟨rfl, rfl⟩ := h
      simp
    · exact absurd rfl hnext
  | _ => exact absurd rfl hnext

/-- While a task waits, the next event is that it has woken. -/
theorem eq_woke_of_waiting (hw : w.phase = .waiting j d) (hnext : w.nextPhase i e ≠ .broken) :
    i = j ∧ e = .woke ∧ w.nextPhase i e = .open := by
  unfold nextPhase at hnext ⊢
  rw [hw] at hnext ⊢
  cases e with
  | woke =>
    dsimp only at hnext ⊢
    split at hnext
    · rename_i h
      exact ⟨h, rfl, if_pos h⟩
    · exact absurd rfl hnext
  | _ => exact absurd rfl hnext

/-! ## A watch that is not broken -/

/-- Nobody owes a wait. -/
def Phase.isSettled : Phase → Bool
  | .owing .. | .broken => false
  | _ => true

/-- A watch that has come to rest is not broken. -/
theorem unbroken_of_isSettled (hw : (w.follow h).phase.isSettled = true) :
    (w.follow h).phase ≠ .broken := by
  intro hbroken
  rw [hbroken] at hw
  cases hw

/-- A pause that is owed follows at once, and once only. -/
theorem beginsWithWait_of_owing {n : Nat} (hw : w.phase = .owing i (.micros n))
    (hend : (w.follow later).phase.isSettled = true) :
    History.BeginsWithWait i (.micros n) later := by
  have hunbroken := unbroken_of_isSettled hend
  cases later with
  | nil =>
    rw [follow_nil, hw] at hend
    cases hend
  | cons x later =>
    obtain ⟨j, e⟩ := x
    obtain ⟨rfl, rfl, hwaiting⟩ := eq_delay_of_owing hw (nextPhase_ne_broken hunbroken)
    cases later with
    | nil => exact Or.inl rfl
    | cons y later =>
      obtain ⟨k, f⟩ := y
      let w' := w.step (j, .delay (.micros n))
      have hunbroken' : (w'.follow ((k, f) :: later)).phase ≠ .broken := hunbroken
      obtain ⟨rfl, rfl, hopen⟩ :=
        eq_woke_of_waiting (w := w') hwaiting (nextPhase_ne_broken hunbroken')
      refine Or.inr ⟨later, rfl, ?_⟩
      intro l hl
      cases later with
      | nil => cases hl
      | cons z later =>
        cases hl
        -- Nobody owes a pause any more, so one would break the watch.
        have hunbroken'' : ((w'.step (k, .woke)).follow ((l, .delay (.micros n)) :: later)).phase ≠
            .broken := hunbroken
        refine nextPhase_ne_broken hunbroken'' ?_
        unfold nextPhase
        rw [show (w'.step (k, .woke)).phase = .open from hopen]

/-- A note that the gyroscope has been stopped goes away with a wait that is long enough. `past` is
what came before: a task that waits has begun to wait with its last event. -/
theorem hasWait_of_stopping (past : History) (hstopping : w.stopping i = true)
    (hpast : ∀ j d, w.phase = .waiting j d → ∃ before, past = before ++ [(j, .delay d)])
    (hunbroken : (w.follow h).phase ≠ .broken) (hdone : (w.follow h).stopping i = false) :
    History.HasWait i (.ofMillis Timing.gyroStop) (past ++ h) := by
  induction h generalizing w past with
  | nil =>
    rw [follow_nil, hstopping] at hdone
    cases hdone
  | cons x h ih =>
    obtain ⟨j, e⟩ := x
    have hnext := nextPhase_ne_broken hunbroken
    by_cases hkept : (w.step (j, e)).stopping i = true
    · have hrest := ih (past ++ [(j, e)]) hkept ?_ hunbroken hdone
      · rwa [List.append_assoc] at hrest
      · intro k d hwaiting
        obtain ⟨rfl, rfl⟩ := eq_delay_of_waiting hwaiting
        exact ⟨past, rfl⟩
    · -- Only the end of a long wait of the task itself takes the note away.
      have hji : i = j := Decidable.byContradiction fun hne =>
        hkept ((if_neg hne).trans hstopping)
      subst hji
      have hnote : w.nextNote i e = false := by
        refine Bool.eq_false_iff.mpr ?_
        intro hnote
        exact hkept ((if_pos rfl).trans hnote)
      cases hw : w.phase with
      | waiting k d =>
        obtain ⟨rfl, rfl, _⟩ := eq_woke_of_waiting hw hnext
        obtain ⟨before, rfl⟩ := hpast _ _ hw
        have hlong : endsStop d = true := by
          simpa [nextNote, hw, hstopping] using hnote
        refine ⟨before, d, h, ?_, of_decide_eq_true hlong⟩
        rw [List.append_assoc]
        rfl
      | _ => simp [nextNote, hw, hstopping] at hnote

/-- A history that a watch gets through keeps all windows. -/
theorem keepsWindows {start : SerialChip}
    (hend : ((on start).follow h).phase.isSettled = true) : h.KeepsWindows start := by
  have hafter : ∀ before x after, h = before ++ x :: after →
      (((on start).follow before).step x |>.follow after).phase.isSettled = true := by
    rintro before x after rfl
    rw [follow_append] at hend
    exact hend
  have hchip : ∀ before, ((on start).follow before).chip = replay (before.map Prod.snd) start :=
    fun before => chip_follow _ before
  refine ⟨?_, ?_, ?_⟩
  · intro before i e after hsplit hstarts
    rw [← hchip] at hstarts
    have hend' := hafter before (i, e) after hsplit
    obtain ⟨x, ok, rfl⟩ := exists_access (Or.inl hstarts)
    have hopen := phase_of_access (nextPhase_ne_broken (unbroken_of_isSettled hend'))
    refine beginsWithWait_of_owing ?_ hend'
    change nextPhase _ i _ = _
    unfold nextPhase
    rw [hopen]
    exact if_pos hstarts
  · intro before i after hsplit
    have hend' := hafter before _ after hsplit
    have hunbroken := nextPhase_ne_broken (unbroken_of_isSettled hend')
    refine beginsWithWait_of_owing ?_ hend'
    change nextPhase _ i _ = .owing i (.micros Timing.interfaceSupply)
    unfold nextPhase at hunbroken ⊢
    cases hw : ((on start).follow before).phase <;> simp_all
  · intro before i e between r ok after hsplit hstops
    rw [← hchip] at hstops
    have hend' := hafter before (i, e) _ hsplit
    obtain ⟨x, ok', rfl⟩ := exists_access (Or.inr hstops)
    have hunbroken := unbroken_of_isSettled hend'
    have hopen := phase_of_access (nextPhase_ne_broken hunbroken)
    let w := ((on start).follow before).step (i, .access x ok')
    have hsplit' : (w.follow between).follow ((i, .switch r false ok) :: after) =
        w.follow (between ++ (i, .switch r false ok) :: after) := (follow_append ..).symm
    change (w.follow (between ++ (i, .switch r false ok) :: after)).phase ≠ .broken at hunbroken
    rw [← hsplit'] at hunbroken
    have hswitch := nextPhase_ne_broken hunbroken
    have hfree : (w.follow between).stopping i = false := by
      unfold nextPhase at hswitch
      cases hw : (w.follow between).phase <;> simp_all
    have hnoted : w.stopping i = true := by
      refine (if_pos rfl).trans ?_
      unfold nextNote
      rw [hopen]
      simp [hstops]
    refine hasWait_of_stopping [] hnoted ?_ (unbroken_of_follow hunbroken) hfree
    intro j d hwaiting
    cases (eq_delay_of_waiting hwaiting).2

end Watch

end Inertial
