import Inertial.Sensor.Config

/-!
# Settling times

Turning a sensor on or off takes time. Two waits follow a change of the power state: right after
it no register may be accessed for a while if a sensor has left its off mode, and it takes longer
until the output is valid. Each part of the device that changed sets a lower bound on the second
wait, and the wait is the greatest of them.
-/

set_option autoImplicit false

namespace Inertial

/-- A length of time, in microseconds. -/
structure Duration where
  micros : Nat
deriving DecidableEq, Repr

namespace Duration

/-- No time at all. -/
def zero : Duration := ⟨0⟩

/-- A number of microseconds. -/
def ofMicros (n : Nat) : Duration := ⟨n⟩

/-- A number of milliseconds. -/
def ofMillis (n : Nat) : Duration := ⟨1000 * n⟩

/-- The whole milliseconds in a length of time. -/
def wholeMillis (d : Duration) : Nat := d.micros / 1000

instance : Max Duration := ⟨fun a b => ⟨max a.micros b.micros⟩⟩

/-- The longer of two times has the larger number of microseconds. -/
@[simp] theorem micros_max (a b : Duration) : (max a b).micros = max a.micros b.micros := rfl

/-- No time is never the longer one. -/
@[simp] theorem max_zero (d : Duration) : max d zero = d :=
  congrArg mk (Nat.max_zero d.micros)

/-- Nor is it if it comes first. -/
@[simp] theorem zero_max (d : Duration) : max zero d = d :=
  congrArg mk (Nat.zero_max d.micros)

/-- A number of milliseconds has as many whole ones. -/
@[simp] theorem wholeMillis_ofMillis (n : Nat) : (ofMillis n).wholeMillis = n := by
  simp [wholeMillis, ofMillis]

end Duration

/-- A wait as it is asked for: a count of milliseconds or of microseconds. -/
inductive Delay where
  | millis (n : Nat)
  | micros (n : Nat)
deriving DecidableEq, Repr

/-- How long a wait takes. -/
def Delay.duration : Delay → Duration
  | .millis n => .ofMillis n
  | .micros n => .ofMicros n

namespace Timing

/-- Milliseconds until the thermometer is valid. -/
def temperatureStart : Nat := 14

/-- Milliseconds until the accelerometer is valid. -/
def accelStart : Nat := 20

/-- Milliseconds until the gyroscope is valid. -/
def gyroStart : Nat := 60

/-- Milliseconds until the gyroscope has stopped. -/
def gyroStop : Nat := 150

/-- Microseconds without register access after a sensor left its off mode. -/
def accessPause : Nat := 200

end Timing

/-- The sensor changes from its off mode to another. -/
def SensorMode.leavesOff (old new : SensorMode) : Bool :=
  old == .off && new != .off

/-- The sensor changes from another mode to its off mode. -/
def SensorMode.entersOff (old new : SensorMode) : Bool :=
  old != .off && new == .off

/-- The waits that a change of the power state asks for. -/
structure Settling where
  /-- Until registers may be accessed again. -/
  pause : Duration := .zero
  /-- Until the output is valid. -/
  settle : Duration := .zero
deriving DecidableEq, Repr

namespace Settling

/-- What the thermometer asks for: only its start takes time. -/
def temperature (old new : Bool) : Duration :=
  if new && !old then .ofMillis Timing.temperatureStart else .zero

/-- What the accelerometer asks for: only its start takes time. -/
def accel (old new : SensorMode) : Duration :=
  if old.leavesOff new then .ofMillis Timing.accelStart else .zero

/-- What the gyroscope asks for: both its start and its stop take time. -/
def gyro (old new : SensorMode) : Duration :=
  if old.leavesOff new then .ofMillis Timing.gyroStart
  else if old.entersOff new then .ofMillis Timing.gyroStop
  else .zero

/-- The waits for a change from one power state to another. The pause is the same whether one
sensor leaves its off mode or both do. -/
def between (old new : PowerState) : Settling where
  pause :=
    if old.accel.leavesOff new.accel || old.gyro.leavesOff new.gyro then
      .ofMicros Timing.accessPause
    else .zero
  settle :=
    max (temperature old.temperature new.temperature)
      (max (accel old.accel new.accel) (gyro old.gyro new.gyro))

/-! A part of the device that stays as it is asks for no wait. -/

/-- A thermometer that stays as it is asks for no wait. -/
@[simp] theorem temperature_self (b : Bool) : temperature b b = .zero := by
  cases b <;> rfl

/-- Nor does an accelerometer. -/
@[simp] theorem accel_self (m : SensorMode) : accel m m = .zero := by
  cases m <;> rfl

/-- Nor does a gyroscope. -/
@[simp] theorem gyro_self (m : SensorMode) : gyro m m = .zero := by
  cases m <;> rfl

/-- A power state that stays as it is asks for no wait. -/
@[simp] theorem between_self (p : PowerState) : between p p = {} := by
  rcases p with ⟨_ | _ | _ | _, _ | _ | _ | _, _ | _⟩ <;> rfl

/-! A change of one part of the device asks for the wait that this part asks for. -/

/-- A change of the gyroscope alone asks for the wait of the gyroscope. -/
theorem settle_between_gyro (p : PowerState) (m : SensorMode) :
    (between p { p with gyro := m }).settle = gyro p.gyro m := by
  simp [between]

/-- A change of the accelerometer alone asks for the wait of the accelerometer. -/
theorem settle_between_accel (p : PowerState) (m : SensorMode) :
    (between p { p with accel := m }).settle = accel p.accel m := by
  simp [between]

/-- A change of the thermometer alone asks for the wait of the thermometer. -/
theorem settle_between_temperature (p : PowerState) (on : Bool) :
    (between p { p with temperature := on }).settle = temperature p.temperature on := by
  simp [between]

/-- A gyroscope that is stopped is given the time for it. -/
theorem gyroStop_le_settle {p q : PowerState} (h : p.gyro.entersOff q.gyro = true) :
    Timing.gyroStop ≤ (between p q).settle.wholeMillis := by
  have hgyro : gyro p.gyro q.gyro = .ofMillis Timing.gyroStop := by
    have hstays : p.gyro.leavesOff q.gyro = false := by
      rw [SensorMode.entersOff, Bool.and_eq_true, bne_iff_ne] at h
      rw [SensorMode.leavesOff, beq_eq_false_iff_ne.mpr h.1, Bool.false_and]
    rw [gyro, hstays, h]
    rfl
  have hbound : (Duration.ofMillis Timing.gyroStop).micros ≤ (between p q).settle.micros := by
    rw [← hgyro]
    exact Nat.le_trans (Nat.le_max_right _ _) (Nat.le_max_right _ _)
  exact (Nat.le_div_iff_mul_le (by decide)).mpr (Nat.mul_comm .. ▸ hbound)

/-- Output waits are a whole number of milliseconds, so waiting by the millisecond loses
nothing. -/
theorem settle_wholeMillis (old new : PowerState) :
    Duration.ofMillis (between old new).settle.wholeMillis = (between old new).settle := by
  unfold between temperature accel gyro
  dsimp only
  split <;> split <;> split <;> first
    | rfl
    | split <;> rfl

end Settling

end Inertial
