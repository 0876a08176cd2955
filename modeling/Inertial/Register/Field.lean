/-!
# Fields of a register byte

A register is one byte, and a field is a run of adjacent bits in it. Reading a field gives a
number of exactly as many bits as the field has, so a value too large for a field can only appear
where a plain number is offered; `Field.put?` is that place, and it refuses.

The statements below say that a field holds what was last written to it and that writing one
field leaves every disjoint one alone.
-/

set_option autoImplicit false

namespace Inertial

/-- One register byte. -/
abbrev Byte := BitVec 8

/-- A run of `width` adjacent bits of a register, the lowest at bit `offset`. -/
structure Field (width : Nat) where
  offset : Nat
  fits : offset + width ≤ 8 := by decide
deriving DecidableEq, Repr

namespace Field

variable {width width' : Nat}

/-- The bits of a register that belong to the field. -/
def mask (f : Field width) : Byte :=
  (BitVec.allOnes width).setWidth 8 <<< f.offset

/-- The content of the field in a register byte. -/
def get (f : Field width) (b : Byte) : BitVec width :=
  b.extractLsb' f.offset width

/-- The register byte with the field replaced and every other bit kept. -/
def set (f : Field width) (v : BitVec width) (b : Byte) : Byte :=
  (b &&& ~~~f.mask) ||| (v.setWidth 8 <<< f.offset)

/-- Writes a plain number into the field, or refuses one that would not be read back because the
field has too few bits for it. -/
def put? (f : Field width) (v : Nat) (b : Byte) : Option Byte :=
  let content := BitVec.ofNat width v
  if content.toNat = v then some (f.set content b) else none

/-- Two fields share no bit. -/
def Disjoint (f : Field width) (g : Field width') : Prop :=
  f.offset + width ≤ g.offset ∨ g.offset + width' ≤ f.offset

instance (f : Field width) (g : Field width') : Decidable (f.Disjoint g) :=
  inferInstanceAs (Decidable (_ ∨ _))

/-- Whether fields share a bit does not depend on their order. -/
theorem Disjoint.symm {f : Field width} {g : Field width'} (h : f.Disjoint g) : g.Disjoint f :=
  Or.symm h

/-- A bit belongs to the mask exactly when it lies in the field. -/
theorem getLsbD_mask (f : Field width) (i : Nat) :
    f.mask.getLsbD i = decide (f.offset ≤ i ∧ i < f.offset + width) := by
  have hf := f.fits
  rw [mask, BitVec.getLsbD_shiftLeft, BitVec.getLsbD_setWidth, BitVec.getLsbD_allOnes]
  by_cases hi : f.offset ≤ i ∧ i < f.offset + width
  · have hlow : ¬ i < f.offset := by omega
    simp only [hi, hlow]
    simp
    omega
  · by_cases hlow : i < f.offset
    · simp [hi, hlow]
    · have hhigh : ¬ i - f.offset < width := by omega
      simp [hi, hhigh]

/-- Bit `i` of a field is bit `offset + i` of its register. -/
theorem getLsbD_get (f : Field width) (b : Byte) (i : Nat) :
    (f.get b).getLsbD i = (decide (i < width) && b.getLsbD (f.offset + i)) := by
  simp [get, BitVec.getLsbD_extractLsb']

/-- Writing a field takes its bits from the value and all others from the old byte. -/
theorem getLsbD_set (f : Field width) (v : BitVec width) (b : Byte) (i : Nat) :
    (f.set v b).getLsbD i =
      if f.offset ≤ i ∧ i < f.offset + width then v.getLsbD (i - f.offset)
      else b.getLsbD i := by
  have hf := f.fits
  rw [set, BitVec.getLsbD_or, BitVec.getLsbD_and, BitVec.getLsbD_not, getLsbD_mask,
    BitVec.getLsbD_shiftLeft, BitVec.getLsbD_setWidth]
  by_cases hin : f.offset ≤ i ∧ i < f.offset + width
  · have hi : i < 8 := by omega
    have hlow : ¬ i < f.offset := by omega
    have hsub : i - f.offset < 8 := by omega
    simp [hin, hi, hlow, hsub]
  · rcases Nat.lt_or_ge i 8 with hi | hi
    · have hv : i < f.offset ∨ v.getLsbD (i - f.offset) = false := by
        by_cases hlow : i < f.offset
        · exact Or.inl hlow
        · exact Or.inr (BitVec.getLsbD_of_ge v _ (by omega))
      rcases hv with hv | hv <;> simp [hin, hi, hv]
    · simp [hin, BitVec.getLsbD_of_ge _ _ hi, show ¬ i < 8 by omega]

/-- A field holds what was written to it. -/
@[simp] theorem get_set (f : Field width) (v : BitVec width) (b : Byte) :
    f.get (f.set v b) = v := by
  apply BitVec.eq_of_getLsbD_eq
  intro i hi
  rw [getLsbD_get, getLsbD_set, if_pos (by omega)]
  simp [hi]

/-- Writing a field leaves a disjoint one alone. -/
theorem get_set_of_disjoint {f : Field width} {g : Field width'} (h : f.Disjoint g)
    (v : BitVec width) (b : Byte) :
    g.get (f.set v b) = g.get b := by
  apply BitVec.eq_of_getLsbD_eq
  intro i hi
  have hout : ¬ (f.offset ≤ g.offset + i ∧ g.offset + i < f.offset + width) := by
    rcases h with h | h <;> omega
  rw [getLsbD_get, getLsbD_get, getLsbD_set, if_neg hout]

/-- The numbers that a field takes are those of its contents. -/
theorem put?_eq_some_iff {f : Field width} {v : Nat} {b c : Byte} :
    f.put? v b = some c ↔ ∃ content : BitVec width, content.toNat = v ∧ f.set content b = c := by
  constructor
  · intro h
    by_cases hv : (BitVec.ofNat width v).toNat = v
    · rw [put?, if_pos hv] at h
      exact ⟨_, hv, Option.some.inj h⟩
    · rw [put?, if_neg hv] at h
      cases h
  · rintro ⟨content, rfl, rfl⟩
    simp [put?]

end Field

end Inertial
