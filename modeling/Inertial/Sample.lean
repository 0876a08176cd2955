import Inertial.LittleEndian

/-!
# Samples

The data registers hold twelve bytes: two for each axis of the accelerometer, then two for each
axis of the gyroscope, low byte first. A sample joins the six numbers with the time at which they
were ready. In memory a sample takes 24 bytes: the numbers, four bytes of padding and the time.
The padding is part of a sample, so samples are equal just when their images are.
-/

set_option autoImplicit false

namespace Inertial

/-- The number of data registers. -/
def RawBlock.size : Nat := 12

/-- The content of the data registers. -/
abbrev RawBlock := Vector Byte RawBlock.size

/-- The signed number of two bytes. -/
def channelOf (low high : Byte) : Int16 :=
  Int16.ofBitVec (BitVec.ofNat 16 (LittleEndian.toNat [low, high]))

namespace RawBlock

/-- The block that a list of bytes forms, if it has the right length. -/
def ofList? (bytes : List Byte) : Option RawBlock :=
  if h : bytes.length = size then some ⟨bytes.toArray, by simpa using h⟩ else none

/-- The number of each axis, the accelerometer's three before the gyroscope's. -/
def channels (raw : RawBlock) : Vector Int16 6 :=
  Vector.ofFn fun i =>
    channelOf (raw.get ⟨2 * i, by simp only [size]; omega⟩)
      (raw.get ⟨2 * i + 1, by simp only [size]; omega⟩)

end RawBlock

/-- The six numbers of one moment. -/
structure Sample where
  channels : Vector Int16 6
  padding : Vector Byte 4
  timestamp : Int64
deriving DecidableEq, Repr

/-- The first three of six channels. -/
def accelOf (channels : Vector Int16 6) : Vector Int16 3 :=
  Vector.ofFn fun i => channels.get (i.castLE (by decide))

/-- The last three of six channels. -/
def gyroOf (channels : Vector Int16 6) : Vector Int16 3 :=
  Vector.ofFn fun i => channels.get (i.natAdd 3)

namespace RawBlock

def accel (raw : RawBlock) : Vector Int16 3 := accelOf raw.channels

def gyro (raw : RawBlock) : Vector Int16 3 := gyroOf raw.channels

end RawBlock

namespace Sample

/-- The number of bytes a sample takes in memory. -/
def size : Nat := 24

/-- The sample of a block of data at a time. -/
def ofRaw (raw : RawBlock) (timestamp : Int64) : Sample where
  channels := raw.channels
  padding := Vector.replicate 4 0
  timestamp := timestamp

def accel (s : Sample) : Vector Int16 3 := accelOf s.channels

def gyro (s : Sample) : Vector Int16 3 := gyroOf s.channels

/-- The bytes of a sample in memory. -/
def image (s : Sample) : List Byte :=
  s.channels.toList.flatMap (fun c => LittleEndian.ofNat 2 c.toBitVec.toNat)
    ++ s.padding.toList
    ++ LittleEndian.ofNat 8 s.timestamp.toBitVec.toNat

/-- The sample that a list of bytes is the image of, if it has the right length. -/
def ofImage? (bytes : List Byte) : Option Sample :=
  if bytes.length = size then
    some
      { channels := Vector.ofFn fun i =>
          channelOf (bytes.getD (2 * i) 0) (bytes.getD (2 * i + 1) 0)
        padding := Vector.ofFn fun i => bytes.getD (12 + i) 0
        timestamp :=
          Int64.ofBitVec (BitVec.ofNat 64 (LittleEndian.toNat (bytes.drop 16))) }
  else none

/-- Every image has the same length. -/
@[simp] theorem length_image (s : Sample) : s.image.length = size := by
  simp [image, size, List.length_flatMap, List.map_const']

end Sample

end Inertial
