import Inertial.Register.Field

/-!
# Numbers as bytes, low byte first

A list of bytes is read as a number with the first byte counting least, and a number is written to
a given count of bytes. Reading and writing undo each other, up to the bits for which there are no
bytes.
-/

set_option autoImplicit false

namespace Inertial.LittleEndian

/-- The number a list of bytes stands for. -/
def toNat : List Byte → Nat
  | [] => 0
  | b :: bs => b.toNat + 256 * toNat bs

/-- The lowest `n` bytes of a number. -/
def ofNat : Nat → Nat → List Byte
  | 0, _ => []
  | n + 1, v => BitVec.ofNat 8 v :: ofNat n (v / 256)

/-- A number is put in as many bytes as asked for. -/
@[simp] theorem length_ofNat (n v : Nat) : (ofNat n v).length = n := by
  induction n generalizing v with
  | zero => rfl
  | succ n ih => simp [ofNat, ih]

/-- Writing the number that was read gives the bytes back. -/
@[simp] theorem ofNat_toNat (bs : List Byte) : ofNat bs.length (toNat bs) = bs := by
  induction bs with
  | nil => rfl
  | cons b bs ih =>
    have hb := b.isLt
    have hdiv : (b.toNat + 256 * toNat bs) / 256 = toNat bs := by omega
    have hlow : BitVec.ofNat 8 (b.toNat + 256 * toNat bs) = b := by
      apply BitVec.eq_of_toNat_eq
      rw [BitVec.toNat_ofNat]
      omega
    rw [List.length_cons, toNat, ofNat, hdiv, hlow, ih]

/-- Reading what was written gives the number back, up to the bits for which there are bytes. -/
@[simp] theorem toNat_ofNat (n v : Nat) : toNat (ofNat n v) = (BitVec.ofNat (8 * n) v).toNat := by
  induction n generalizing v with
  | zero => simp [ofNat, toNat, BitVec.toNat_ofNat, Nat.mod_one]
  | succ n ih =>
    have hlow : (BitVec.ofNat 8 v).toNat = v % 256 := BitVec.toNat_ofNat v 8
    have hpow : 2 ^ (8 * (n + 1)) = 256 * 2 ^ (8 * n) := by
      rw [Nat.mul_succ, Nat.pow_add, Nat.mul_comm]
    rw [ofNat, toNat, ih, hlow, BitVec.toNat_ofNat, BitVec.toNat_ofNat, hpow, Nat.mod_mul]

end Inertial.LittleEndian
