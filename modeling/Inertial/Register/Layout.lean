import Inertial.Register.Field

/-!
# Register layouts

A layout names the fields of one register; the bits that no field covers are reserved. That no
two fields of a layout overlap is part of the type. A list of assignments sets fields one after
the other, and an assignment whose number does not fit its field changes nothing.

The five layouts are those of the power, sensor, filter, interrupt status and interrupt pin
registers.
-/

set_option autoImplicit false

namespace Inertial

/-- A field with the name it has in its register's description. -/
structure NamedField where
  name : String
  {width : Nat}
  field : Field width

/-- The fields of a register, none of which overlap. -/
structure Layout where
  fields : List NamedField
  disjoint : fields.Pairwise fun f g => f.field.Disjoint g.field := by decide

namespace Layout

/-- The field of the given name. -/
def find? (l : Layout) (name : String) : Option NamedField :=
  l.fields.find? fun f => f.name == name

/-- Every field's name with its content in a register byte. -/
def contents (l : Layout) (b : Byte) : List (String × Nat) :=
  l.fields.map fun f => (f.name, (f.field.get b).toNat)

end Layout

/-- A number offered to a field. -/
structure Assignment where
  {width : Nat}
  field : Field width
  value : Nat
deriving Repr

namespace Assignment

/-- The field has enough bits for the number. -/
def Fits (a : Assignment) : Prop :=
  (BitVec.ofNat a.width a.value).toNat = a.value

instance (a : Assignment) : Decidable a.Fits :=
  inferInstanceAs (Decidable (_ = _))

/-- Sets the field if the number fits and keeps the byte otherwise. -/
def apply (a : Assignment) (b : Byte) : Byte :=
  (a.field.put? a.value b).getD b

/-- Applies a list of assignments in order. -/
def applyAll (as : List Assignment) (b : Byte) : Byte :=
  as.foldl (fun b a => a.apply b) b

/-- What each assignment of a list answers: the byte after it, or nothing if its number was
refused. -/
def answers : List Assignment → Byte → List (Option Byte)
  | [], _ => []
  | a :: as, b => a.field.put? a.value b :: answers as (a.apply b)

/-- No assignments leave the byte as it is. -/
@[simp] theorem applyAll_nil (b : Byte) : applyAll [] b = b := rfl

/-- Assignments are applied in their order. -/
@[simp] theorem applyAll_cons (a : Assignment) (as : List Assignment) (b : Byte) :
    applyAll (a :: as) b = applyAll as (a.apply b) := rfl

/-- A value that fits is put into its field. -/
theorem apply_of_fits {a : Assignment} (h : a.Fits) (b : Byte) :
    a.apply b = a.field.set (BitVec.ofNat _ a.value) b := by
  simp only [apply, Field.put?, if_pos (show (BitVec.ofNat a.width a.value).toNat = a.value from h),
    Option.getD_some]

/-- A value that does not fit leaves the byte as it is. -/
theorem apply_of_not_fits {a : Assignment} (h : ¬ a.Fits) (b : Byte) : a.apply b = b := by
  simp only [apply, Field.put?,
    if_neg (show ¬ (BitVec.ofNat a.width a.value).toNat = a.value from h), Option.getD_none]

/-- Each assignment is answered once. -/
@[simp] theorem length_answers (as : List Assignment) (b : Byte) :
    (answers as b).length = as.length := by
  induction as generalizing b with
  | nil => rfl
  | cons a as ih => simp [answers, ih]

end Assignment

/-! ## The power register -/

namespace PowerRegister

/-- Accelerometer mode. -/
def accelMode : Field 2 := { offset := 0 }

/-- Gyroscope mode. -/
def gyroMode : Field 2 := { offset := 2 }

/-- Keeps the RC oscillator on while the sensors are off. -/
def idle : Field 1 := { offset := 4 }

/-- Disables the temperature sensor. -/
def tempDis : Field 1 := { offset := 5 }

def layout : Layout where
  fields := [⟨"accel_mode", accelMode⟩, ⟨"gyro_mode", gyroMode⟩, ⟨"idle", idle⟩,
    ⟨"temp_dis", tempDis⟩]

end PowerRegister

/-! ## The range and rate register of one sensor -/

namespace RangeRegister

/-- Output data rate. -/
def odr : Field 4 := { offset := 0 }

/-- Full-scale range. -/
def fsSel : Field 3 := { offset := 5 }

def layout : Layout where
  fields := [⟨"odr", odr⟩, ⟨"fs_sel", fsSel⟩]

end RangeRegister

/-! ## The filter register both sensors share -/

namespace FilterRegister

/-- Gyroscope filter bandwidth. -/
def gyroFilter : Field 4 := { offset := 0 }

/-- Accelerometer filter bandwidth. -/
def accelFilter : Field 4 := { offset := 4 }

def layout : Layout where
  fields := [⟨"gyro_ui_filt_bw", gyroFilter⟩, ⟨"accel_ui_filt_bw", accelFilter⟩]

end FilterRegister

/-! ## The interrupt status register -/

namespace StatusRegister

def agcReady : Field 1 := { offset := 0 }

def fifoFull : Field 1 := { offset := 1 }

def fifoThreshold : Field 1 := { offset := 2 }

/-- A new sample is in the data registers. -/
def dataReady : Field 1 := { offset := 3 }

/-- A soft reset has completed. -/
def resetDone : Field 1 := { offset := 4 }

def pllReady : Field 1 := { offset := 5 }

def frameSync : Field 1 := { offset := 6 }

def layout : Layout where
  fields := [⟨"agc_rdy_int", agcReady⟩, ⟨"fifo_full_int", fifoFull⟩,
    ⟨"fifo_ths_int", fifoThreshold⟩, ⟨"data_rdy_int", dataReady⟩,
    ⟨"reset_done_int", resetDone⟩, ⟨"pll_rdy_int", pllReady⟩, ⟨"ui_fsync_int", frameSync⟩]

end StatusRegister

/-! ## The interrupt pin register -/

namespace PinRegister

/-- The first pin is active high. -/
def pin1ActiveHigh : Field 1 := { offset := 0 }

/-- The first pin drives both levels rather than pulling one way only. -/
def pin1PushPull : Field 1 := { offset := 1 }

/-- The first pin holds its level until it is served. -/
def pin1Latched : Field 1 := { offset := 2 }

def pin2ActiveHigh : Field 1 := { offset := 3 }

def pin2PushPull : Field 1 := { offset := 4 }

def pin2Latched : Field 1 := { offset := 5 }

def layout : Layout where
  fields := [⟨"int1_polarity", pin1ActiveHigh⟩, ⟨"int1_drive_circuit", pin1PushPull⟩,
    ⟨"int1_mode", pin1Latched⟩, ⟨"int2_polarity", pin2ActiveHigh⟩,
    ⟨"int2_drive_circuit", pin2PushPull⟩, ⟨"int2_mode", pin2Latched⟩]

end PinRegister

end Inertial
