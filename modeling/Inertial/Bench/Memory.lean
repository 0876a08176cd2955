import Inertial.Register.Address

/-!
# Register memory

The registers of the chip on the bench are plain memory: reading one clears nothing, and a soft
reset changes nothing.
-/

set_option autoImplicit false

namespace Inertial

/-- The content of every register. -/
abbrev Memory := Address → Byte

namespace Memory

/-- All registers hold zero. -/
def zero : Memory := fun _ => 0

/-- The memory with one register replaced. -/
def write (m : Memory) (a : Address) (v : Byte) : Memory :=
  fun b => if b = a then v else m b

/-- The memory with a list of registers replaced, the last wins. -/
def writeAll (m : Memory) (contents : List (Address × Byte)) : Memory :=
  contents.foldl (fun m c => m.write c.1 c.2) m

/-- A register that was written holds what was written. -/
@[simp] theorem write_same (m : Memory) (a : Address) (v : Byte) : m.write a v a = v := by
  simp [write]

/-- The other registers hold what they held. -/
theorem write_of_ne (m : Memory) {a b : Address} (v : Byte) (h : b ≠ a) :
    m.write a v b = m b := by
  simp [write, h]

/-- Writing what a register holds changes nothing. -/
@[simp] theorem write_self (m : Memory) (a : Address) : m.write a (m a) = m := by
  funext b
  by_cases h : b = a
  · rw [h, write_same]
  · rw [write_of_ne m _ h]

end Memory

end Inertial
