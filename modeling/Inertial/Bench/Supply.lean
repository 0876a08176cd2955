import Inertial.Power

/-!
# What feeds the rails

The rails are always on, or they are switched by a call, or each of them is fed through a load
switch that is closed while a pin of its own is high. Switching such a rail on drives its pin high,
and switching it off drives it low. A pin may refuse to be driven, and it then stays as it is.
-/

set_option autoImplicit false

namespace Inertial

/-- The level of a digital output. -/
inductive Level where
  | low
  | high
deriving DecidableEq, Repr

/-- A digital output, with the levels that it has been driven to, the newest last. -/
structure OutputPin where
  driven : List Level := []
deriving DecidableEq, Repr

namespace OutputPin

/-- Drives the pin to a level unless it refuses that, and says whether it was driven. -/
def drive (refuses : Bool) (level : Level) (p : OutputPin) : Bool × OutputPin :=
  if refuses then (false, p) else (true, { p with driven := p.driven ++ [level] })

/-- The pin is driven unless it refuses. -/
theorem drive_fst (refuses : Bool) (level : Level) (p : OutputPin) :
    (p.drive refuses level).1 = !refuses := by
  cases refuses <;> rfl

/-- A pin that refuses stays as it is. -/
theorem driven_drive (refuses : Bool) (level : Level) (p : OutputPin) :
    (p.drive refuses level).2.driven =
      if (p.drive refuses level).1 then p.driven ++ [level] else p.driven := by
  cases refuses <;> rfl

/-- Drives the pin high. -/
def setHigh (refuses : Level → Bool) (p : OutputPin) : Bool × OutputPin :=
  p.drive (refuses .high) .high

/-- Drives the pin low. -/
def setLow (refuses : Level → Bool) (p : OutputPin) : Bool × OutputPin :=
  p.drive (refuses .low) .low

end OutputPin

/-- The pins that close the load switches of the rails, active high. -/
structure SupplyPins where
  vdd : OutputPin := {}
  vddio : OutputPin := {}
deriving DecidableEq, Repr

namespace SupplyPins

/-- The pin that switches a rail. -/
def pin (p : SupplyPins) : Rail → OutputPin
  | .vdd => p.vdd
  | .vddio => p.vddio

/-- Switches a rail on unless its pin refuses to be driven high. -/
def enable (refuses : Rail → Level → Bool) (p : SupplyPins) : Rail → Bool × SupplyPins
  | .vdd =>
    let (ok, vdd) := p.vdd.setHigh (refuses .vdd)
    (ok, { p with vdd })
  | .vddio =>
    let (ok, vddio) := p.vddio.setHigh (refuses .vddio)
    (ok, { p with vddio })

/-- Switches a rail off unless its pin refuses to be driven low. -/
def disable (refuses : Rail → Level → Bool) (p : SupplyPins) : Rail → Bool × SupplyPins
  | .vdd =>
    let (ok, vdd) := p.vdd.setLow (refuses .vdd)
    (ok, { p with vdd })
  | .vddio =>
    let (ok, vddio) := p.vddio.setLow (refuses .vddio)
    (ok, { p with vddio })

/-- Switches a rail on or off. -/
def switch (refuses : Rail → Level → Bool) (r : Rail) (on : Bool) (p : SupplyPins) :
    Bool × SupplyPins :=
  if on then p.enable refuses r else p.disable refuses r

/-- The level that switches a rail on or off. -/
def levelOf (on : Bool) : Level :=
  if on then .high else .low

variable (refuses : Rail → Level → Bool) (r : Rail) (on : Bool) (p : SupplyPins)

/-- A rail is switched just if its pin does not refuse the level that this takes. -/
theorem switch_fst : (p.switch refuses r on).1 = !refuses r (levelOf on) := by
  cases r <;> cases on <;> exact OutputPin.drive_fst _ _ _

/-- Switching a rail drives its own pin, unless that refuses. -/
theorem driven_switch :
    ((p.switch refuses r on).2.pin r).driven =
      if (p.switch refuses r on).1 then (p.pin r).driven ++ [levelOf on]
      else (p.pin r).driven := by
  cases r <;> cases on <;> exact OutputPin.driven_drive _ _ _

/-- Switching a rail leaves the pin of the other alone. -/
theorem pin_switch_of_ne {t : Rail} (ht : t ≠ r) :
    (p.switch refuses r on).2.pin t = p.pin t := by
  cases r <;> cases t <;> cases on <;> first
    | rfl
    | exact absurd rfl ht

/-- Switching a rail depends on one refusal only. -/
theorem switch_congr {refuses' : Rail → Level → Bool}
    (h : refuses r (levelOf on) = refuses' r (levelOf on)) :
    p.switch refuses r on = p.switch refuses' r on := by
  unfold switch levelOf at *
  cases r <;> cases on <;>
    simp_all [enable, disable, OutputPin.setHigh, OutputPin.setLow]

end SupplyPins

/-- What feeds the rails. -/
inductive Supply where
  /-- Rails that are always on; switching them does nothing and never fails. -/
  | alwaysOn
  /-- Rails that are switched by a call. -/
  | switched
  /-- Rails that are switched by a pin each. -/
  | pins
deriving DecidableEq, Repr

namespace Supply

/-- Has a rail switched on or off, unless that is refused. Says whether it was, and how the pins are
then. -/
def switch (refuses : Rail → Bool → Bool) (r : Rail) (on : Bool) (pins : SupplyPins) :
    Supply → Bool × SupplyPins
  | .alwaysOn => (true, pins)
  | .switched => (!refuses r on, pins)
  | .pins => pins.switch (fun r level => refuses r (level = .high)) r on

/-- Only rails that are always on do not mind a refusal. -/
theorem switch_fst (refuses : Rail → Bool → Bool) (r : Rail) (on : Bool) (pins : SupplyPins)
    (supply : Supply) :
    (supply.switch refuses r on pins).1 = (supply == .alwaysOn || !refuses r on) := by
  cases supply with
  | alwaysOn => rfl
  | switched => rfl
  | pins => cases on <;> exact SupplyPins.switch_fst _ _ _ _

/-- A switch that happens is the same as where nothing is refused. -/
theorem switch_of_fst {refuses : Rail → Bool → Bool} {r : Rail} {on : Bool} {pins : SupplyPins}
    {supply : Supply} (h : (supply.switch refuses r on pins).1 = true) :
    supply.switch refuses r on pins = supply.switch (fun _ _ => false) r on pins := by
  rw [switch_fst] at h
  cases supply with
  | alwaysOn => rfl
  | switched =>
    have haccepted : refuses r on = false := by simpa using h
    simp only [switch, haccepted]
  | pins =>
    have haccepted : refuses r on = false := by simpa using h
    apply SupplyPins.switch_congr
    cases on <;> exact haccepted

end Supply

end Inertial
