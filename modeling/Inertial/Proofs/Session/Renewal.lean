import Inertial.Proofs.Bus.OutOfStep
import Inertial.Proofs.Shared.Reachable
import Inertial.Session.Run

/-!
# Buses that are renewed

A bus can be replaced by a new one of its kind, which takes the first bank for selected. The chip
keeps the bank that was selected before. So after a renewal a serial bus is in step only if that was
the first bank, and until it selects a bank again it looks for the registers of the first bank in
the one that was selected before; a register of any other bank it reaches.

The main statement, `BusStep.acts_at_place_since_renewal`, says where each operation of a sequence
with renewals is carried out, whatever transactions fail, and `BusStep.reads_stale_bank` is a read
that succeeds with what another register holds.
-/

set_option autoImplicit false

namespace Inertial

/-- A use of a bus, or its replacement by a new one. -/
inductive BusStep where
  | use (op : RegisterOp)
  | renew

/-- The bench with a new bus of the same kind. -/
def Bench.renewBus (b : Bench) : Bench :=
  { b with bus := b.bus.renew }

namespace BusStep

/-- The bench after a step, whether it succeeds or fails. -/
def perform : BusStep → Bench → Bench
  | use op, b => (op.perform.exec b).2
  | renew, b => b.renewBus

/-- The bench after steps one after another, whether they succeed or fail. -/
def performAll (steps : List BusStep) (b : Bench) : Bench :=
  steps.foldl (fun c step => step.perform c) b

/-- An operation is one at a register that a serial bus reaches. -/
def IsBanked : BusStep → Prop
  | use op => op.IsBanked
  | renew => True

/-- The operations that succeed, each with the register at which it is carried out. -/
def carriedOut : List BusStep → Bench → List (RegisterOp × Address)
  | [], _ => []
  | use op :: steps, b =>
    match op.perform.exec b with
    | (.ok _, c) => (op, b.place op.address) :: carriedOut steps c
    | (.error _, c) => carriedOut steps c
  | renew :: steps, b => carriedOut steps b.renewBus

/-- The memory after operations that were carried out at registers. -/
def actAll (done : List (RegisterOp × Address)) (m : Memory) : Memory :=
  done.foldl (fun m d => (d.1.actAt d.2 m).2) m

variable {b : Bench} {known : Byte}

/-- A serial bus stays one, the chip has the bank selected that was selected last, and its registers
go through the operations where they are carried out. -/
structure Proceeds (b c : Bench) (done : List (RegisterOp × Address)) (events : List Event) :
    Prop where
  trace : c.trace = b.trace ++ events
  bus : ∃ known, c.bus = .serial known
  bank : c.chip.bank = (lastSelected events).getD b.chip.bank
  memory : c.chip.memory = actAll done b.chip.memory

/-- What is done in two stretches is done in one. -/
theorem Proceeds.trans {c d : Bench} {done done' : List (RegisterOp × Address)}
    {events later : List Event} (h : Proceeds b c done events) (h' : Proceeds c d done' later) :
    Proceeds b d (done ++ done') (events ++ later) where
  trace := by rw [h'.trace, h.trace, List.append_assoc]
  bus := h'.bus
  bank := by rw [h'.bank, h.bank, Bench.Tracks.getD_lastSelected_append]
  memory := by
    rw [h'.memory, h.memory]
    exact List.foldl_append.symm

/-- Later steps go on from where earlier ones have led. -/
theorem performAll_append (steps later : List BusStep) (b : Bench) :
    performAll (steps ++ later) b = performAll later (performAll steps b) :=
  List.foldl_append

/-- The first step is carried out before the others, which go on from there. -/
theorem carriedOut_cons (step : BusStep) (steps : List BusStep) (b : Bench) :
    carriedOut (step :: steps) b = carriedOut [step] b ++ carriedOut steps (step.perform b) := by
  cases step with
  | renew => rfl
  | use op =>
    simp only [carriedOut, perform]
    rcases op.perform.exec b with ⟨_ | _, c⟩ <;> simp

/-- A use of the bus is followed by both sides and acts at its place. -/
theorem exists_tracks_use (hbus : b.bus = .serial known) {op : RegisterOp} (hop : op.IsBanked) :
    ∃ events, b.Tracks ((use op).perform b) events ∧
      ((use op).perform b).chip.memory = actAll (carriedOut [use op] b) b.chip.memory := by
  obtain ⟨events, h⟩ := op.acts_of_serial hbus hop
  refine ⟨events, h.tracks, ?_⟩
  simp only [carriedOut, perform]
  rcases hx : op.perform.exec b with ⟨fault | answer, c⟩ <;> rw [hx] at h
  · exact (h.of_error fault rfl).2
  · exact congrArg Prod.snd (h.of_ok answer rfl).2.2.2

/-- Each step proceeds, whether it uses the bus or renews the port. -/
theorem exists_proceeds_step (hbus : b.bus = .serial known) {step : BusStep}
    (hstep : step.IsBanked) :
    ∃ events, Proceeds b (step.perform b) (carriedOut [step] b) events := by
  cases step with
  | use op =>
    obtain ⟨events, htracks, hmemory⟩ := exists_tracks_use hbus hstep
    exact ⟨events, htracks.trace, ⟨_, htracks.bus known hbus⟩, htracks.bank, hmemory⟩
  | renew =>
    have hfresh : (renew.perform b).bus = .serial Register.bank0 := congrArg Bus.renew hbus
    exact ⟨[], (List.append_nil _).symm, ⟨_, hfresh⟩, rfl, rfl⟩

/-- However often the bus is renewed. -/
theorem exists_proceeds {steps : List BusStep} (hbus : b.bus = .serial known)
    (hsteps : ∀ step ∈ steps, step.IsBanked) :
    ∃ events, Proceeds b (performAll steps b) (carriedOut steps b) events := by
  induction steps generalizing b known with
  | nil => exact ⟨[], (List.append_nil _).symm, ⟨known, hbus⟩, rfl, rfl⟩
  | cons step steps ih =>
    obtain ⟨events, hfirst⟩ := exists_proceeds_step hbus (hsteps step List.mem_cons_self)
    obtain ⟨known', hbus'⟩ := hfirst.bus
    obtain ⟨later, hrest⟩ := ih hbus' fun step h => hsteps step (List.mem_cons_of_mem _ h)
    rw [carriedOut_cons]
    exact ⟨events ++ later, hfirst.trans hrest⟩

/-- While the bus is not renewed, both of its sides follow what is selected. -/
theorem exists_tracks_uses {ops : List RegisterOp} (hbus : b.bus = .serial known)
    (hops : ∀ op ∈ ops, op.IsBanked) :
    ∃ events, b.Tracks (performAll (ops.map use) b) events := by
  induction ops generalizing b known with
  | nil => exact ⟨[], .refl b⟩
  | cons op ops ih =>
    obtain ⟨events, hfirst, _⟩ := exists_tracks_use hbus (hops op List.mem_cons_self)
    obtain ⟨later, hrest⟩ :=
      ih (hfirst.bus known hbus) fun op h => hops op (List.mem_cons_of_mem _ h)
    exact ⟨events ++ later, hfirst.trans hrest⟩

/-- Since a renewal both sides have the bank selected that was selected last. If none was, the bus
takes the first bank for selected, and the chip has the one that it had at the renewal. -/
theorem place_since_renewal {start c : Bench} {since : List Event}
    (hstart : start.bus = .serial Register.bank0) (h : start.Tracks c since) {a : Address}
    (ha : Register.IsReachable a) :
    c.place a =
      if lastSelected since = none ∧ Register.bankOf a = Register.bank0 then
        Register.address start.chip.bank (Register.offsetOf a)
      else a := by
  rw [c.place_of_serial (h.bus _ hstart), h.bank]
  cases hlast : lastSelected since with
  | none => simp
  | some bank =>
    have hsome : ¬ (some bank = none ∧ Register.bankOf a = Register.bank0) := nofun
    rw [if_neg hsome, Option.getD_some]
    split
    · rename_i hbank
      rw [← hbank]
      exact ha.address_eq
    · rfl

/-- On a serial bus and a chip that start in the first bank, after operations and renewals of the
bus in any order, whatever transactions fail: the registers of the chip have gone through the
operations that succeeded, each where it was carried out. The next operation fails and changes no
register just when one of its transactions fails, and otherwise it is carried out at one register.
That is the register that it names, unless nothing has been selected since the bus was renewed last
and the register lies in the first bank. Then it is the one at the same offset of the bank that the
chip had selected at the renewal. -/
theorem acts_at_place_since_renewal (hbus : b.bus = .serial Register.bank0)
    (hbank : b.chip.bank = Register.bank0) {before : List BusStep}
    (hbefore : ∀ step ∈ before, step.IsBanked) {ops : List RegisterOp}
    (hops : ∀ op ∈ ops, op.IsBanked) {op : RegisterOp} (hop : op.IsBanked) :
    let start := (performAll before b).renewBus
    let steps := before ++ renew :: ops.map use
    let c := performAll steps b
    let d := (op.perform.exec c).2
    c.chip.memory = actAll (carriedOut steps b) b.chip.memory ∧
    ∃ past since events,
      start.trace = b.trace ++ past ∧ c.trace = start.trace ++ since ∧
      d.trace = c.trace ++ events ∧
      start.chip.bank = (lastSelected past).getD Register.bank0 ∧
      c.bus = .serial ((lastSelected since).getD Register.bank0) ∧
      c.chip.bank = (lastSelected since).getD start.chip.bank ∧
      c.place op.address =
        (if lastSelected since = none ∧ Register.bankOf op.address = Register.bank0 then
          Register.address start.chip.bank (Register.offsetOf op.address)
        else op.address) ∧
      match (op.perform.exec c).1 with
      | .error _ => (∃ e ∈ events, e.succeeded = false) ∧ d.chip.memory = c.chip.memory
      | .ok answer => (∀ e ∈ events, e.succeeded = true) ∧
          (answer, d.chip.memory) = op.actAt (c.place op.address) c.chip.memory := by
  intro start steps c d
  have hc : c = performAll (ops.map use) start := performAll_append before _ b
  have hsteps : ∀ step ∈ steps, step.IsBanked := by
    intro step hstep
    rcases List.mem_append.mp hstep with hstep | hstep
    · exact hbefore step hstep
    · rcases List.mem_cons.mp hstep with rfl | hstep
      · trivial
      · obtain ⟨op, hmem, rfl⟩ := List.mem_map.mp hstep
        exact hops op hmem
  -- The memory is followed from the beginning, the selections from the renewal on.
  obtain ⟨_, hall⟩ := exists_proceeds hbus hsteps
  obtain ⟨past, hpast⟩ := exists_proceeds hbus hbefore
  obtain ⟨known, hknown⟩ := hpast.bus
  have hstart : start.bus = .serial Register.bank0 := congrArg Bus.renew hknown
  obtain ⟨since, hsince⟩ := exists_tracks_uses hstart hops
  rw [← hc] at hsince
  obtain ⟨events, hlast⟩ := op.acts_of_serial (hsince.bus _ hstart) hop
  have hreach : Register.IsReachable op.address := hop.isReachable
  refine ⟨hall.memory, past, since, events, hpast.trace, hsince.trace, hlast.tracks.trace, ?_,
    hsince.bus _ hstart, hsince.bank, place_since_renewal hstart hsince hreach, ?_⟩
  · rw [← hbank]
    exact hpast.bank
  · rcases hx : (op.perform.exec c).1 with fault | answer
    · exact hlast.of_error fault hx
    · obtain ⟨hsucceeded, _, _, hdone⟩ := hlast.of_ok answer hx
      exact ⟨hsucceeded, hdone⟩

/-- A write in the second bank, a renewal, and a read in the second bank, which selects it anew.
From then on the first bank is reached as well. -/
theorem acts_at_place_past_selection :
    let b : Bench := {
      chip := { memory := Memory.zero.writeAll [(Register.deviceConfig, 1)] }
      bus := .serial Register.bank0 }
    let a := Register.address Register.bank1 0x11
    let c := performAll [use (.write a 5), renew, use (.read a)] b
    b.bus = .serial Register.bank0 ∧ b.chip.bank = Register.bank0 ∧
      (∀ step ∈ [use (.write a 5)], step.IsBanked) ∧
      (∀ op ∈ [RegisterOp.read a], op.IsBanked) ∧
      (RegisterOp.read Register.deviceConfig).IsBanked ∧
      c.place Register.deviceConfig = Register.deviceConfig ∧
      ((RegisterOp.read Register.deviceConfig).perform.exec c).1 = .ok 1 := by
  intro b a c
  have ha : Register.IsReachable a := ⟨Register.bank1, 0x11, by decide, by decide, rfl⟩
  have hlast : (RegisterOp.read Register.deviceConfig).IsBanked :=
    ⟨Register.bank0, 0x11, by decide, by decide, rfl⟩
  have hbefore : ∀ step ∈ [use (.write a 5)], step.IsBanked := by
    intro step hstep
    rw [List.mem_singleton.mp hstep]
    exact ⟨ha, by decide⟩
  have hops : ∀ op ∈ [RegisterOp.read a], op.IsBanked := by
    intro op hop
    rw [List.mem_singleton.mp hop]
    exact ha
  obtain ⟨_, _, since, _, _, _, _, _, hbus, _, hplace, _⟩ :=
    acts_at_place_since_renewal (b := b) rfl rfl hbefore hops hlast
  refine ⟨rfl, rfl, hbefore, hops, hlast, ?_, Except.eq_ok_of_toOption (by decide +kernel)⟩
  have hselected : ((lastSelected since).getD Register.bank0) = Register.bank1 := by
    have hc : c.bus = .serial Register.bank1 := by decide +kernel
    exact Bus.serial.inj (hbus.symm.trans hc)
  have hsome : ¬ (lastSelected since = none ∧
      Register.bankOf Register.deviceConfig = Register.bank0) := by
    rintro ⟨hnone, -⟩
    rw [hnone] at hselected
    exact absurd hselected (by decide)
  exact hplace.trans (if_neg hsome)

/-- After a write in the second bank and a renewal, a read of a register of the first bank succeeds
with the value that was written in the second one. -/
theorem reads_stale_bank :
    let b : Bench := {
      chip := { memory := Memory.zero.writeAll [(Register.deviceConfig, 1)] }
      bus := .serial Register.bank0 }
    let a := Register.address Register.bank1 0x11
    let c := performAll [use (.write a 5), renew] b
    b.bus = .serial Register.bank0 ∧ b.chip.bank = Register.bank0 ∧
      (∀ step ∈ [use (.write a 5), renew], step.IsBanked) ∧
      (RegisterOp.read Register.deviceConfig).IsBanked ∧
      c.chip.memory Register.deviceConfig = 1 ∧
      ((RegisterOp.read Register.deviceConfig).perform.exec c).1 = .ok 5 := by
  intro b a c
  have ha : Register.IsReachable a := ⟨Register.bank1, 0x11, by decide, by decide, rfl⟩
  refine ⟨rfl, rfl, ?_, ⟨Register.bank0, 0x11, by decide, by decide, rfl⟩, by decide +kernel,
    Except.eq_ok_of_toOption (by decide +kernel)⟩
  intro step hstep
  rcases List.mem_cons.mp hstep with rfl | hstep
  · exact ⟨ha, by decide⟩
  · rw [List.mem_singleton.mp hstep]
    trivial

end BusStep

end Inertial
