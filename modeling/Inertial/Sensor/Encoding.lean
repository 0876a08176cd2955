import Inertial.Register.Layout
import Inertial.Register.Address
import Inertial.Sensor.Config

/-!
# Configurations in registers

Four registers hold the configuration of the device: one for the power state, one for the range
and rate of each sensor, and one for both filters. Each has an encoder that leaves the bits outside
its fields clear, and a decoder beside it. The main statement, `DeviceConfig.ofMemory?_eq_some`, is
that a register file that holds the encoding of a configuration is read back as it.
-/

set_option autoImplicit false

namespace Inertial

open Setting

namespace PowerRegister

/-- The power register for a power state. -/
def encode (p : PowerState) : Byte :=
  tempDis.set (BitVec.ofBool !p.temperature)
    (accelMode.set (code p.accel) (gyroMode.set (code p.gyro) 0))

/-- The power state a power register stands for. -/
def decode? (b : Byte) : Option PowerState := do
  let gyro ← ofCode? (gyroMode.get b)
  let accel ← ofCode? (accelMode.get b)
  pure { gyro, accel, temperature := tempDis.get b == 0 }

/-- The encoding of a power state has the gyroscope's mode in its field. -/
theorem gyroMode_encode (p : PowerState) : gyroMode.get (encode p) = code p.gyro := by
  rw [encode, Field.get_set_of_disjoint (by decide), Field.get_set_of_disjoint (by decide),
    Field.get_set]

/-- It has the accelerometer's mode in its field. -/
theorem accelMode_encode (p : PowerState) : accelMode.get (encode p) = code p.accel := by
  rw [encode, Field.get_set_of_disjoint (by decide), Field.get_set]

/-- It has the bit by which the thermometer is disabled set if that is off. -/
theorem tempDis_encode (p : PowerState) :
    tempDis.get (encode p) = BitVec.ofBool !p.temperature := by
  rw [encode, Field.get_set]

/-- Decoding undoes encoding. -/
@[simp] theorem decode?_encode (p : PowerState) : decode? (encode p) = some p := by
  rw [decode?, gyroMode_encode, accelMode_encode, tempDis_encode]
  rcases p with ⟨gyro, accel, _ | _⟩ <;> simp

/-- Different power states have different registers. -/
theorem encode_injective {p q : PowerState} (h : encode p = encode q) : p = q :=
  Option.some.inj (by rw [← decode?_encode p, h, decode?_encode q])

end PowerRegister

namespace RangeRegister

variable {ρ : Type} [Setting ρ 3]

/-- The register for the range and rate of a sensor. -/
def encode (range : ρ) (rate : DataRate) : Byte :=
  odr.set (code rate) (fsSel.set (code range) 0)

/-- The range and rate a register stands for. -/
def decode? (b : Byte) : Option (ρ × DataRate) := do
  let range ← ofCode? (fsSel.get b)
  let rate ← ofCode? (odr.get b)
  pure (range, rate)

/-- Decoding undoes encoding. -/
@[simp] theorem decode?_encode (range : ρ) (rate : DataRate) :
    decode? (encode range rate) = some (range, rate) := by
  have hrange : fsSel.get (encode range rate) = code range := by
    rw [encode, Field.get_set_of_disjoint (by decide), Field.get_set]
  have hrate : odr.get (encode range rate) = code rate := by
    rw [encode, Field.get_set]
  rw [decode?, hrange, hrate]
  simp

/-- Different ranges or rates have different registers. -/
theorem encode_injective {r s : ρ} {d e : DataRate} (h : encode r d = encode s e) :
    r = s ∧ d = e := by
  have hpair : some (r, d) = some (s, e) := by rw [← decode?_encode r d, h, decode?_encode]
  simpa using hpair

end RangeRegister

namespace FilterRegister

/-- The register for the filters of both sensors. -/
def encode (gyro accel : Bandwidth) : Byte :=
  gyroFilter.set (code gyro) (accelFilter.set (code accel) 0)

/-- The filters a register stands for, that of the gyroscope first. -/
def decode? (b : Byte) : Option (Bandwidth × Bandwidth) := do
  let gyro ← ofCode? (gyroFilter.get b)
  let accel ← ofCode? (accelFilter.get b)
  pure (gyro, accel)

/-- Decoding undoes encoding. -/
@[simp] theorem decode?_encode (gyro accel : Bandwidth) :
    decode? (encode gyro accel) = some (gyro, accel) := by
  have hgyro : gyroFilter.get (encode gyro accel) = code gyro := by
    rw [encode, Field.get_set]
  have haccel : accelFilter.get (encode gyro accel) = code accel := by
    rw [encode, Field.get_set_of_disjoint (by decide), Field.get_set]
  rw [decode?, hgyro, haccel]
  simp

/-- Different filters have different registers. -/
theorem encode_injective {g h : Bandwidth} {a b : Bandwidth} (he : encode g a = encode h b) :
    g = h ∧ a = b := by
  have hpair : some (g, a) = some (h, b) := by rw [← decode?_encode g a, he, decode?_encode]
  simpa using hpair

end FilterRegister

/-! ## The whole configuration -/

/-- A register that holds a part of the configuration. -/
inductive ConfigRegister where
  | power
  | gyro
  | accel
  | filters
deriving DecidableEq, Repr

namespace ConfigRegister

/-- All of them, in the order in which a whole configuration is written. -/
def all : List ConfigRegister := [.power, .gyro, .accel, .filters]

def address : ConfigRegister → Address
  | .power => Register.pwrMgmt0
  | .gyro => Register.gyroConfig0
  | .accel => Register.accelConfig0
  | .filters => Register.gyroAccelConfig0

/-- The list of registers is complete. -/
theorem mem_all (r : ConfigRegister) : r ∈ all := by
  cases r <;> decide

/-- No two registers of the configuration share an address. -/
theorem address_injective {r t : ConfigRegister} (h : r.address = t.address) : r = t := by
  cases r <;> cases t <;> first
    | rfl
    | exact absurd h (by decide)

/-- All of them are in the first bank. -/
theorem bankOf_address (r : ConfigRegister) : Register.bankOf r.address = Register.bank0 := by
  cases r <;> decide

end ConfigRegister

namespace DeviceConfig

/-- What a register holds under a configuration. -/
def encode (c : DeviceConfig) : ConfigRegister → Byte
  | .power => PowerRegister.encode c.power
  | .gyro => RangeRegister.encode c.gyro.range c.gyro.rate
  | .accel => RangeRegister.encode c.accel.range c.accel.rate
  | .filters => FilterRegister.encode c.gyro.filter c.accel.filter

/-- The configuration that a register file holds, if it holds one. -/
def ofMemory? (m : Address → Byte) : Option DeviceConfig := do
  let power ← PowerRegister.decode? (m Register.pwrMgmt0)
  let (gyroRange, gyroRate) ← RangeRegister.decode? (m Register.gyroConfig0)
  let (accelRange, accelRate) ← RangeRegister.decode? (m Register.accelConfig0)
  let (gyroFilter, accelFilter) ← FilterRegister.decode? (m Register.gyroAccelConfig0)
  pure
    { gyro := ⟨power.gyro, gyroRange, gyroRate, gyroFilter⟩
      accel := ⟨power.accel, accelRange, accelRate, accelFilter⟩
      temperature := power.temperature }

/-- A register file that holds the encoding of a configuration is read back as it. -/
theorem ofMemory?_eq_some {m : Address → Byte} {c : DeviceConfig}
    (h : ∀ r : ConfigRegister, m r.address = c.encode r) : ofMemory? m = some c := by
  have hpower : m Register.pwrMgmt0 = c.encode .power := h .power
  have hgyro : m Register.gyroConfig0 = c.encode .gyro := h .gyro
  have haccel : m Register.accelConfig0 = c.encode .accel := h .accel
  have hfilters : m Register.gyroAccelConfig0 = c.encode .filters := h .filters
  rw [ofMemory?, hpower, hgyro, haccel, hfilters]
  simp [encode, power]

end DeviceConfig

/-! ## One sensor's part -/

/-- Where the configuration of one sensor is found, and the register for its range and rate. -/
structure Sensor (ρ : Type) where
  register : ConfigRegister
  get : DeviceConfig → SensorConfig ρ
  set : SensorConfig ρ → DeviceConfig → DeviceConfig

namespace Sensor

def gyro : Sensor GyroRange where
  register := .gyro
  get c := c.gyro
  set s c := { c with gyro := s }

def accel : Sensor AccelRange where
  register := .accel
  get c := c.accel
  set s c := { c with accel := s }

end Sensor

end Inertial
