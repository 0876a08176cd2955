import Inertial.Sensor.Encoding

/-!
# Reserved bits

The bits of a register that no field of its layout covers are reserved. Writing a field leaves them
alone, and so the encoding of a configuration has them clear.
-/

set_option autoImplicit false

namespace Inertial

namespace Layout

/-- The bits that no field covers. -/
def reserved (l : Layout) : Byte :=
  ~~~l.fields.foldl (fun b f => b ||| f.field.mask) 0

end Layout

namespace Field

variable {width : Nat}

/-- Writing a field changes no bit outside of it. -/
theorem set_and_of_disjoint {f : Field width} {bits : Byte} (h : f.mask &&& bits = 0)
    (v : BitVec width) (b : Byte) : f.set v b &&& bits = b &&& bits := by
  apply BitVec.eq_of_getLsbD_eq
  intro i _
  rw [BitVec.getLsbD_and, BitVec.getLsbD_and, getLsbD_set]
  split
  · rename_i hin
    have hbit : (f.mask &&& bits).getLsbD i = false := by
      rw [h]
      exact BitVec.getLsbD_zero
    rw [BitVec.getLsbD_and, getLsbD_mask, decide_eq_true hin, Bool.true_and] at hbit
    rw [hbit, Bool.and_false, Bool.and_false]
  · rfl

end Field

namespace ConfigRegister

/-- The fields of each register. -/
def layout : ConfigRegister → Layout
  | .power => PowerRegister.layout
  | .gyro | .accel => RangeRegister.layout
  | .filters => FilterRegister.layout

end ConfigRegister

namespace DeviceConfig

/-- The encoding of a configuration sets no reserved bit. -/
theorem encode_reserved (c : DeviceConfig) (r : ConfigRegister) :
    c.encode r &&& r.layout.reserved = 0 := by
  have hrange : ∀ {ρ : Type} [Setting ρ 3] (range : ρ) (rate : DataRate),
      RangeRegister.encode range rate &&& RangeRegister.layout.reserved = 0 := by
    intro ρ _ range rate
    rw [RangeRegister.encode, Field.set_and_of_disjoint (by decide),
      Field.set_and_of_disjoint (by decide)]
    rfl
  cases r with
  | power =>
    change PowerRegister.encode c.power &&& PowerRegister.layout.reserved = 0
    rw [PowerRegister.encode, Field.set_and_of_disjoint (by decide),
      Field.set_and_of_disjoint (by decide), Field.set_and_of_disjoint (by decide)]
    rfl
  | gyro => exact hrange c.gyro.range c.gyro.rate
  | accel => exact hrange c.accel.range c.accel.rate
  | filters =>
    change FilterRegister.encode c.gyro.filter c.accel.filter &&& FilterRegister.layout.reserved = 0
    rw [FilterRegister.encode, Field.set_and_of_disjoint (by decide),
      Field.set_and_of_disjoint (by decide)]
    rfl

/-- No configuration keeps the oscillator on while the sensors are off. -/
theorem idle_encode (c : DeviceConfig) : PowerRegister.idle.get (c.encode .power) = 0 := by
  change PowerRegister.idle.get (PowerRegister.encode c.power) = 0
  rw [PowerRegister.encode, Field.get_set_of_disjoint (by decide),
    Field.get_set_of_disjoint (by decide), Field.get_set_of_disjoint (by decide)]
  rfl

end DeviceConfig

end Inertial
