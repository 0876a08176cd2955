import Inertial.Proofs.Driver.Mirror
import Inertial.Proofs.Register.Reserved
import Inertial.Proofs.Shared.Guarded

/-!
# What can be observed of a device

A system can be reached if a power-up on a bench in step succeeded in it, and if tasks then made
calls on the device in whatever order, with whatever failing meanwhile. Since a schedule may end
anywhere, these are the systems that others find at any wait and between any two calls.

In all of them the configuration on record is the one that the registers hold.
-/

set_option autoImplicit false

namespace Inertial

/-- A result that comes to something can be told by evaluation to be a success. -/
theorem Except.eq_ok_of_toOption {ε α : Type} {r : Except ε α} {a : α} (h : r.toOption = some a) :
    r = .ok a := by
  cases r with
  | error e => cases h
  | ok b => exact congrArg Except.ok (Option.some.inj h)

/-- The systems in which a device can be found after it was powered up. -/
inductive System.IsReachable : System → Prop where
  | powerUp {bench : Bench} {chip : Chip} {interrupt : PinSetup} (hin : bench.InStep)
      (hok : ((Driver.powerUp chip interrupt).exec { bench, core := .fresh chip }).1 = .ok ()) :
      IsReachable
        (((Driver.powerUp chip interrupt).exec { bench, core := .fresh chip }).2.withInbox {})
  | follow {σ : Type} [Sink σ] {s : System} (hs : IsReachable s) (hfree : s.locked = false)
      (calls : List (Call σ)) (wakeUps : Nat) (schedule : List Nat) :
      IsReachable ((Pool.ofCalls calls s).follow wakeUps schedule).system

namespace System.IsReachable

/-- The bus stays in step and the registers mirror the record. -/
theorem agrees {s : System} (hs : s.IsReachable) : s.Agrees Core.Mirrored := by
  induction hs with
  | powerUp hin hok =>
    rename_i bench chip interrupt
    have h : ((Driver.powerUp chip interrupt).exec { bench, core := .fresh chip }).2.Agrees
        Core.Mirrored :=
      Driver.leads_powerUp chip interrupt { bench, core := .fresh chip } ⟨hin, trivial⟩ () _
        (Prod.ext hok rfl)
    exact h
  | follow hs hfree calls wakeUps schedule ih =>
    exact (Pool.guarded_follow ih (fun op _ => op.keeps_mirrored) wakeUps schedule).agrees

/-- Whenever others can look, the configuration registers read back as the configuration on record,
with every bit that no field covers clear. -/
theorem config_eq_registers {s : System} (hs : s.IsReachable) :
    DeviceConfig.ofMemory? s.bench.chip.memory = some s.core.config ∧
      (∀ r : ConfigRegister, s.bench.chip.memory r.address &&& r.layout.reserved = 0) ∧
      PowerRegister.idle.get (s.bench.chip.memory Register.pwrMgmt0) = 0 := by
  obtain ⟨_, hmirror⟩ := hs.agrees
  refine ⟨DeviceConfig.ofMemory?_eq_some hmirror, ?_, ?_⟩
  · intro r
    rw [hmirror r]
    exact DeviceConfig.encode_reserved s.core.config r
  · have hpower : s.bench.chip.memory Register.pwrMgmt0 = s.core.config.encode .power :=
      hmirror .power
    rw [hpower]
    exact DeviceConfig.idle_encode s.core.config

/-- A request whose filter cannot be written leaves the range that was, and the record says so. -/
theorem config_eq_registers_past_fault :
    let bench : Bench := {
      chip := {
        memory := Memory.zero.writeAll [(Register.whoAmI, 0x42), (Register.intStatus, 0x10)] }
      bus := .serial Register.bank0
      plan := { failsAccess := fun k _ => k == 15 } }
    let start :=
      ((Driver.powerUp .icm42605 {}).exec { bench, core := .fresh .icm42605 }).2.withInbox {}
    let wishes : SensorRequest GyroRange := {
      mode := some .lowNoise, range := some .dps250, filter := some .odrDiv4 }
    let calls : List (Call ScriptedSink) := [.operation (.grant (.gyro wishes) true), .interrupt 7]
    let p := (Pool.ofCalls calls start).follow 0 [0, 1]
    p.system.IsReachable ∧ p.replies = [some (.failed (.bus .transfer)), some .ok] ∧
      p.system.core.config.gyro = ⟨.off, .dps250, .hz50, .odrDiv2⟩ ∧
      DeviceConfig.ofMemory? p.system.bench.chip.memory = some p.system.core.config := by
  intro bench start wishes calls p
  have hstart : start.IsReachable :=
    .powerUp rfl (Except.eq_ok_of_toOption (by decide +kernel))
  have hp : p.system.IsReachable := hstart.follow (by decide +kernel) calls 0 [0, 1]
  refine ⟨hp, ?_, ?_, hp.config_eq_registers.1⟩
  · decide +kernel
  · decide +kernel

end System.IsReachable

end Inertial
