import Inertial.Register.Field

/-!
# Register addresses

The chip has several banks of registers behind one selector. A flat address names a bank and an
offset in it at once: each bank has a window of the flat space, and the offset counts from the
start of the window. The statements say that `bankOf` and `offsetOf` undo `address` for every bank
the selector can hold.
-/

set_option autoImplicit false

namespace Inertial

/-- A register's place in the flat address space. -/
abbrev Address := Nat

namespace Register

/-- The bank with the control and data registers. -/
def bank0 : Byte := 0

def bank1 : Byte := 1

def bank4 : Byte := 4

/-- The offset of the bank selector, the same in every bank. -/
def bankSelect : Byte := 0x76

/-- The bits of the bank selector that count. -/
def bankMask : Byte := 0x07

/-- How much of the flat space one bank takes. -/
def windowLength : Nat := 0x1000

/-- The last register of the last bank. -/
def lastAddress : Address := 0x4FFF

/-- The flat address of an offset in a bank. -/
def address (bank offset : Byte) : Address :=
  bank.toNat * windowLength + offset.toNat

/-- The bank in whose window a flat address lies. -/
def bankOf (a : Address) : Byte :=
  BitVec.ofNat 8 (a / windowLength) &&& bankMask

/-- The offset of a flat address in its bank. -/
def offsetOf (a : Address) : Byte :=
  BitVec.ofNat 8 (a % windowLength)

/-- Whether a register can exist at a flat address. -/
def isValid (a : Address) : Bool :=
  a ≤ lastAddress

/-- The offset of an address is the one it was made from. -/
@[simp] theorem offsetOf_address (bank offset : Byte) :
    offsetOf (address bank offset) = offset := by
  have hb := offset.isLt
  apply BitVec.eq_of_toNat_eq
  simp only [offsetOf, address, windowLength, BitVec.toNat_ofNat]
  omega

/-- The bank of an address is the one it was made from, up to the bits the selector keeps. -/
theorem bankOf_address (bank offset : Byte) : bankOf (address bank offset) = bank &&& bankMask := by
  have ho := offset.isLt
  have hdiv : (bank.toNat * 0x1000 + offset.toNat) / 0x1000 = bank.toNat := by omega
  simp [bankOf, address, windowLength, hdiv]

/-! ## The registers the driver uses -/

def deviceConfig : Address := address bank0 0x11

def intConfig : Address := address bank0 0x14

def fifoConfig : Address := address bank0 0x16

/-- The first of the twelve data registers, accelerometer before gyroscope. -/
def accelData : Address := address bank0 0x1F

/-- The first of the six gyroscope data registers. -/
def gyroData : Address := address bank0 0x25

def intStatus : Address := address bank0 0x2D

def intfConfig0 : Address := address bank0 0x4C

def pwrMgmt0 : Address := address bank0 0x4E

def gyroConfig0 : Address := address bank0 0x4F

def accelConfig0 : Address := address bank0 0x50

def gyroAccelConfig0 : Address := address bank0 0x52

def tmstConfig : Address := address bank0 0x54

def intConfig1 : Address := address bank0 0x64

def intSource0 : Address := address bank0 0x65

def whoAmI : Address := address bank0 0x75

/-! ## Bits of registers that have no layout -/

/-- Starts a soft reset. -/
def softReset : Byte := 0x01

/-- The FIFO takes no samples. -/
def fifoBypass : Byte := 0x00

/-- The FIFO takes every sample. -/
def fifoStream : Byte := 0x40

/-- Sensor data has its high byte first. -/
def bigEndianData : Byte := 0x10

/-- All bits of the timestamp setting. -/
def timestampMask : Byte := 0x1F

/-- Lets timestamps be read from registers. -/
def timestampToRegisters : Byte := 0x10

/-- Turns the chip's own clock on. -/
def timestampEnable : Byte := 0x01

/-- Must be clear for the interrupt pins to work. -/
def asyncReset : Byte := 0x10

/-- Routes new data to the first interrupt pin. -/
def dataReadyToPin1 : Byte := 0x08

end Register

end Inertial
