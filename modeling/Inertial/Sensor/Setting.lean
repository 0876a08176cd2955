/-!
# Sensor settings

What can be chosen for a sensor: its mode, its full-scale range, its output data rate and its
filter bandwidth. Each is one of finitely many values, and each value has a name and the code that
a register field holds for it. Codes are read back by looking them up, and `ofCode?_code` says
that a value is found again under its own code.
-/

set_option autoImplicit false

namespace Inertial

/-- A choice among finitely many values, written to a field of `width` bits. -/
class Setting (α : Type) (width : outParam Nat) where
  values : List α
  name : α → String
  code : α → BitVec width
  mem_values : ∀ a, a ∈ values
  code_injective : ∀ a b, code a = code b → a = b

namespace Setting

variable {α : Type} {width : Nat} [Setting α width]

/-- The value a code stands for, if any does. -/
def ofCode? (c : BitVec width) : Option α :=
  (values : List α).find? fun a => code a == c

/-- The value of a given name, if there is one. -/
def ofName? (s : String) : Option α :=
  (values : List α).find? fun a => name a == s

/-- A value is found again under its code. -/
@[simp] theorem ofCode?_code (a : α) : ofCode? (code a) = some a := by
  cases h : (ofCode? (code a) : Option α) with
  | none =>
    have := List.find?_eq_none.mp h a (mem_values a)
    simp at this
  | some b =>
    have hb := List.find?_some h
    exact congrArg some (code_injective b a (by simpa using hb))

/-- A code read as a value is the code of that value. -/
theorem code_of_ofCode? {c : BitVec width} {a : α} (h : ofCode? c = some a) : code a = c := by
  have := List.find?_some h
  simpa using this

end Setting

/-! ## Modes -/

/-- Whether and how a sensor runs. -/
inductive SensorMode where
  | off
  | standby
  | lowPower
  | lowNoise
deriving DecidableEq, Repr

instance : Setting SensorMode 2 where
  values := [.off, .standby, .lowPower, .lowNoise]
  name
    | .off => "Off"
    | .standby => "Standby"
    | .lowPower => "LowPower"
    | .lowNoise => "LowNoise"
  code
    | .off => 0
    | .standby => 1
    | .lowPower => 2
    | .lowNoise => 3
  mem_values a := by cases a <;> decide
  code_injective a b := by cases a <;> cases b <;> decide

/-! ## Full-scale ranges -/

/-- Gyroscope range in degrees per second. -/
inductive GyroRange where
  | dps2000
  | dps1000
  | dps500
  | dps250
  | dps125
  | dps62_5
  | dps31_25
  | dps15_625
deriving DecidableEq, Repr

instance : Setting GyroRange 3 where
  values := [.dps2000, .dps1000, .dps500, .dps250, .dps125, .dps62_5, .dps31_25, .dps15_625]
  name
    | .dps2000 => "Dps2000"
    | .dps1000 => "Dps1000"
    | .dps500 => "Dps500"
    | .dps250 => "Dps250"
    | .dps125 => "Dps125"
    | .dps62_5 => "Dps62_5"
    | .dps31_25 => "Dps31_25"
    | .dps15_625 => "Dps15_625"
  code
    | .dps2000 => 0
    | .dps1000 => 1
    | .dps500 => 2
    | .dps250 => 3
    | .dps125 => 4
    | .dps62_5 => 5
    | .dps31_25 => 6
    | .dps15_625 => 7
  mem_values a := by cases a <;> decide
  code_injective a b := by cases a <;> cases b <;> decide

/-- Accelerometer range in multiples of standard gravity. -/
inductive AccelRange where
  | g16
  | g8
  | g4
  | g2
deriving DecidableEq, Repr

instance : Setting AccelRange 3 where
  values := [.g16, .g8, .g4, .g2]
  name
    | .g16 => "G16"
    | .g8 => "G8"
    | .g4 => "G4"
    | .g2 => "G2"
  code
    | .g16 => 0
    | .g8 => 1
    | .g4 => 2
    | .g2 => 3
  mem_values a := by cases a <;> decide
  code_injective a b := by cases a <;> cases b <;> decide

/-! ## Output data rates -/

/-- Samples per second. Codes below 3 are reserved, and 500 Hz has the highest one. -/
inductive DataRate where
  | hz8000
  | hz4000
  | hz2000
  | hz1000
  | hz200
  | hz100
  | hz50
  | hz25
  | hz12_5
  | hz6_25
  | hz3_125
  | hz1_5625
  | hz500
deriving DecidableEq, Repr

instance : Setting DataRate 4 where
  values := [.hz8000, .hz4000, .hz2000, .hz1000, .hz200, .hz100, .hz50, .hz25, .hz12_5, .hz6_25,
    .hz3_125, .hz1_5625, .hz500]
  name
    | .hz8000 => "Hz8000"
    | .hz4000 => "Hz4000"
    | .hz2000 => "Hz2000"
    | .hz1000 => "Hz1000"
    | .hz200 => "Hz200"
    | .hz100 => "Hz100"
    | .hz50 => "Hz50"
    | .hz25 => "Hz25"
    | .hz12_5 => "Hz12_5"
    | .hz6_25 => "Hz6_25"
    | .hz3_125 => "Hz3_125"
    | .hz1_5625 => "Hz1_5625"
    | .hz500 => "Hz500"
  code
    | .hz8000 => 3
    | .hz4000 => 4
    | .hz2000 => 5
    | .hz1000 => 6
    | .hz200 => 7
    | .hz100 => 8
    | .hz50 => 9
    | .hz25 => 10
    | .hz12_5 => 11
    | .hz6_25 => 12
    | .hz3_125 => 13
    | .hz1_5625 => 14
    | .hz500 => 15
  mem_values a := by cases a <;> decide
  code_injective a b := by cases a <;> cases b <;> decide

/-- Nanoseconds between two samples. -/
def DataRate.period : DataRate → Nat
  | .hz8000 => 125000
  | .hz4000 => 250000
  | .hz2000 => 500000
  | .hz1000 => 1000000
  | .hz200 => 5000000
  | .hz100 => 10000000
  | .hz50 => 20000000
  | .hz25 => 40000000
  | .hz12_5 => 80000000
  | .hz6_25 => 160000000
  | .hz3_125 => 320000000
  | .hz1_5625 => 640000000
  | .hz500 => 2000000

/-! ## Filter bandwidths -/

/-- Low-pass bandwidth, as a fraction of the data rate or with low latency. -/
inductive Bandwidth where
  | odrDiv2
  | odrDiv4
  | odrDiv5
  | odrDiv8
  | odrDiv10
  | odrDiv16
  | odrDiv20
  | odrDiv40
  /-- Decimates by two at the data rate. -/
  | lowLatency
  /-- Decimates by two at eight times the data rate. -/
  | lowLatency8x
deriving DecidableEq, Repr

instance : Setting Bandwidth 4 where
  values := [.odrDiv2, .odrDiv4, .odrDiv5, .odrDiv8, .odrDiv10, .odrDiv16, .odrDiv20, .odrDiv40,
    .lowLatency, .lowLatency8x]
  name
    | .odrDiv2 => "OdrDiv2"
    | .odrDiv4 => "OdrDiv4"
    | .odrDiv5 => "OdrDiv5"
    | .odrDiv8 => "OdrDiv8"
    | .odrDiv10 => "OdrDiv10"
    | .odrDiv16 => "OdrDiv16"
    | .odrDiv20 => "OdrDiv20"
    | .odrDiv40 => "OdrDiv40"
    | .lowLatency => "LowLatency"
    | .lowLatency8x => "LowLatency8x"
  code
    | .odrDiv2 => 0
    | .odrDiv4 => 1
    | .odrDiv5 => 2
    | .odrDiv8 => 3
    | .odrDiv10 => 4
    | .odrDiv16 => 5
    | .odrDiv20 => 6
    | .odrDiv40 => 7
    | .lowLatency => 14
    | .lowLatency8x => 15
  mem_values a := by cases a <;> decide
  code_injective a b := by cases a <;> cases b <;> decide

end Inertial
