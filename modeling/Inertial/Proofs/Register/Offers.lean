import Inertial.Proofs.Register.Reserved
import Mathlib.Algebra.Order.Ring.Int
import Mathlib.Data.List.Induction

/-!
# Numbers offered to the fields of a register

A field takes a number that it has enough bits for and refuses any other. After a list of offers
each field of a register holds the last number that it took, or what it held before if it took none
(`Layout.get_applyAll`), and no reserved bit has changed (`Layout.applyAll_and_reserved`). The
fields and the reserved bits make up the whole byte (`Layout.eq_of_get_eq`). So two lists of offers
do the same to every byte just if each field took the same number last (`Layout.applyAll_eq_iff`).

The main statement, `RegisterFormat.holds_last_taken`, says this of the five registers that have a
layout, and that their fields lie where packing their parts from the lowest bit upwards puts them.
-/

set_option autoImplicit false

namespace Inertial

namespace Layout

/-- What the field at a place of the layout holds. -/
def get (l : Layout) (i : Fin l.fields.length) (b : Byte) : Nat :=
  (l.fields[i].field.get b).toNat

/-- A number offered to the field at a place of the layout. -/
structure Offer (l : Layout) where
  place : Fin l.fields.length
  value : Nat

namespace Offer

variable {l : Layout}

/-- The field has enough bits for the number. -/
def IsTaken (o : l.Offer) : Prop :=
  o.value < 2 ^ l.fields[o.place].width

instance (o : l.Offer) : Decidable o.IsTaken :=
  inferInstanceAs (Decidable (_ < _))

/-- The assignment that an offer is. -/
def assignment (o : l.Offer) : Assignment where
  field := l.fields[o.place].field
  value := o.value

/-- An assignment fits just if the offer is one to be taken. -/
theorem fits_assignment {o : l.Offer} : o.assignment.Fits ↔ o.IsTaken := by
  rw [Assignment.Fits, BitVec.toNat_ofNat]
  constructor
  · intro h
    exact Nat.lt_of_le_of_lt (Nat.le_of_eq h.symm) (Nat.mod_lt _ (Nat.two_pow_pos _))
  · exact Nat.mod_eq_of_lt

/-- The field is set if the number is taken. -/
theorem apply_assignment (o : l.Offer) (b : Byte) :
    o.assignment.apply b =
      if o.IsTaken then l.fields[o.place].field.set (BitVec.ofNat _ o.value) b else b := by
  split
  · next h => exact Assignment.apply_of_fits (fits_assignment.mpr h) b
  · next h => exact Assignment.apply_of_not_fits (mt fits_assignment.mp h) b

/-- The answer is the byte after the offer if the number is taken. -/
theorem put?_assignment (o : l.Offer) (b : Byte) :
    o.assignment.field.put? o.value b =
      if o.IsTaken then some (o.assignment.apply b) else none := by
  rw [apply_assignment]
  split
  · next h => exact if_pos (fits_assignment.mpr h)
  · next h => exact if_neg (mt fits_assignment.mp h)

/-- The last number that the field at a place takes. -/
def lastTaken (offers : List l.Offer) (i : Fin l.fields.length) : Option Nat :=
  (offers.filter fun o => o.place = i ∧ o.IsTaken).getLast?.map Offer.value

/-- A further offer counts for its own field and only if it is taken. -/
theorem lastTaken_concat (offers : List l.Offer) (o : l.Offer) (i : Fin l.fields.length) :
    lastTaken (offers ++ [o]) i =
      if o.place = i ∧ o.IsTaken then some o.value else lastTaken offers i := by
  rw [lastTaken, lastTaken, List.filter_append, List.getLast?_append]
  by_cases h : o.place = i ∧ o.IsTaken <;> simp [h]

end Offer

variable {l : Layout}

/-- Makes a list of offers in order. -/
def applyAll (offers : List l.Offer) (b : Byte) : Byte :=
  Assignment.applyAll (offers.map Offer.assignment) b

/-- What each of a list of offers is answered: the byte after it, or nothing if it was refused. -/
def answers (offers : List l.Offer) (b : Byte) : List (Option Byte) :=
  Assignment.answers (offers.map Offer.assignment) b

/-- Offers are applied in their order. -/
theorem applyAll_concat (offers : List l.Offer) (o : l.Offer) (b : Byte) :
    applyAll (offers ++ [o]) b = o.assignment.apply (applyAll offers b) := by
  rw [applyAll, List.map_append, Assignment.applyAll, List.foldl_append]
  rfl

/-! ## One offer -/

/-- Different fields of a layout share no bit. -/
theorem disjoint_of_ne {i j : Fin l.fields.length} (h : i ≠ j) :
    l.fields[i].field.Disjoint l.fields[j].field := by
  have hall := List.pairwise_iff_getElem.mp l.disjoint
  rcases Nat.lt_or_gt_of_ne (Fin.val_ne_of_ne h) with hlt | hgt
  · exact hall i j i.isLt j.isLt hlt
  · exact (hall j i j.isLt i.isLt hgt).symm

/-- The number is held by its field if it is taken, and nothing else changes. -/
theorem get_apply (o : l.Offer) (i : Fin l.fields.length) (b : Byte) :
    l.get i (o.assignment.apply b) = if o.place = i ∧ o.IsTaken then o.value else l.get i b := by
  rw [Offer.apply_assignment]
  by_cases htaken : o.IsTaken
  · rw [if_pos htaken]
    by_cases hplace : o.place = i
    · subst hplace
      have hheld : (BitVec.ofNat l.fields[o.place].width o.value).toNat = o.value :=
        Offer.fits_assignment.mpr htaken
      rw [if_pos ⟨rfl, htaken⟩, get, Field.get_set, hheld]
    · rw [if_neg (fun h => hplace h.1)]
      exact congrArg BitVec.toNat (Field.get_set_of_disjoint (disjoint_of_ne hplace) _ _)
  · rw [if_neg htaken, if_neg (fun h => htaken h.2)]

/-! ## Reserved bits -/

/-- A bit is reserved if it lies in no field. -/
theorem getLsbD_reserved (l : Layout) (k : Nat) :
    l.reserved.getLsbD k =
      (decide (k < 8) && l.fields.all fun f => !f.field.mask.getLsbD k) := by
  have hcovered : ∀ (fields : List NamedField) (b : Byte),
      (fields.foldl (fun b f => b ||| f.field.mask) b).getLsbD k =
        (b.getLsbD k || fields.any fun f => f.field.mask.getLsbD k) := by
    intro fields
    induction fields with
    | nil => intro b; simp
    | cons f fields ih =>
      intro b
      rw [List.foldl_cons, ih, BitVec.getLsbD_or, List.any_cons, Bool.or_assoc]
  have hzero : (0 : Byte).getLsbD k = false := BitVec.getLsbD_zero
  rw [reserved, BitVec.getLsbD_not, hcovered, hzero, Bool.false_or, List.not_any_eq_all_not]

/-- No bit of a field is reserved. -/
theorem mask_and_reserved (i : Fin l.fields.length) :
    l.fields[i].field.mask &&& l.reserved = 0 := by
  apply BitVec.eq_of_getLsbD_eq
  intro k _
  have hzero : (0 : Byte).getLsbD k = false := BitVec.getLsbD_zero
  rw [BitVec.getLsbD_and, hzero, getLsbD_reserved]
  by_cases hin : l.fields[i].field.mask.getLsbD k = true
  · have hfree : (l.fields.all fun f => !f.field.mask.getLsbD k) = false := by
      rw [List.all_eq_false]
      exact ⟨l.fields[i], List.getElem_mem _, by simpa using hin⟩
    rw [hfree, Bool.and_false, Bool.and_false]
  · rw [eq_false_of_ne_true hin, Bool.false_and]

/-- An offer leaves the reserved bits as they were. -/
theorem apply_and_reserved (o : l.Offer) (b : Byte) :
    o.assignment.apply b &&& l.reserved = b &&& l.reserved := by
  rw [Offer.apply_assignment]
  split
  · exact Field.set_and_of_disjoint (mask_and_reserved o.place) _ _
  · rfl

/-- The fields and the reserved bits make up the whole byte. -/
theorem eq_of_get_eq {b c : Byte} (hget : ∀ i, l.get i b = l.get i c)
    (hreserved : b &&& l.reserved = c &&& l.reserved) : b = c := by
  apply BitVec.eq_of_getLsbD_eq
  intro k hk
  by_cases hfree : l.reserved.getLsbD k = true
  · have hbit := congrArg (·.getLsbD k) hreserved
    simpa only [BitVec.getLsbD_and, hfree, Bool.and_true] using hbit
  · rw [getLsbD_reserved, decide_eq_true hk, Bool.true_and] at hfree
    obtain ⟨f, hf, hin⟩ := List.all_eq_false.mp (eq_false_of_ne_true hfree)
    obtain ⟨i, hi, rfl⟩ := List.getElem_of_mem hf
    have hfield : l.fields[i].field.get b = l.fields[i].field.get c :=
      BitVec.eq_of_toNat_eq (hget ⟨i, hi⟩)
    have hbit := congrArg (·.getLsbD (k - l.fields[i].field.offset)) hfield
    simp only [Bool.not_eq_true, Bool.not_eq_false', Field.getLsbD_mask, decide_eq_true_eq] at hin
    simp only [Field.getLsbD_get] at hbit
    rwa [decide_eq_true (by omega), Bool.true_and, Bool.true_and,
      Nat.add_sub_cancel' hin.1] at hbit

/-! ## A list of offers -/

/-- Each field holds the last number that it took. -/
theorem get_applyAll (offers : List l.Offer) (i : Fin l.fields.length) (b : Byte) :
    l.get i (applyAll offers b) = (Offer.lastTaken offers i).getD (l.get i b) := by
  induction offers using List.reverseRecOn with
  | nil => rfl
  | append_singleton offers o ih =>
    rw [applyAll_concat, get_apply, Offer.lastTaken_concat, ih]
    split <;> rfl

/-- So does any number of offers. -/
theorem applyAll_and_reserved (offers : List l.Offer) (b : Byte) :
    applyAll offers b &&& l.reserved = b &&& l.reserved := by
  induction offers using List.reverseRecOn with
  | nil => rfl
  | append_singleton offers o ih => rw [applyAll_concat, apply_and_reserved, ih]

example :
    Assignment.applyAll [⟨PowerRegister.gyroMode, 3⟩, ⟨PowerRegister.accelMode, 2⟩,
      ⟨PowerRegister.gyroMode, 9⟩, ⟨PowerRegister.tempDis, 1⟩] 0xC0 = 0xEE := by decide

/-- The byte after a list of offers is told by what each field took last. -/
theorem applyAll_congr {offers others : List l.Offer}
    (h : ∀ i, Offer.lastTaken offers i = Offer.lastTaken others i) (b : Byte) :
    applyAll offers b = applyAll others b := by
  apply eq_of_get_eq
  · intro i
    rw [get_applyAll, get_applyAll, h]
  · rw [applyAll_and_reserved, applyAll_and_reserved]

/-- An option is told by its values for two different defaults. -/
theorem eq_of_getD : ∀ {v w : Option Nat}, v.getD 0 = w.getD 0 → v.getD 1 = w.getD 1 → v = w
  | none, none, _, _ => rfl
  | some _, some _, hzero, _ => congrArg some hzero
  | some _, none, hzero, hone => absurd (hzero.symm.trans hone) (by decide)
  | none, some _, hzero, hone => absurd (hzero.trans hone.symm) (by decide)

/-- Two lists of offers do the same to every byte just if each field took the same number last. For
a field that takes a number in only one of them, what it held before can be another number. -/
theorem applyAll_eq_iff (hwidth : ∀ f ∈ l.fields, 0 < f.width) (offers others : List l.Offer) :
    (∀ b, applyAll offers b = applyAll others b) ↔
      ∀ i, Offer.lastTaken offers i = Offer.lastTaken others i := by
  refine ⟨fun h i => ?_, applyAll_congr⟩
  have hheld : ∀ n < 2, (Offer.lastTaken offers i).getD n = (Offer.lastTaken others i).getD n := by
    intro n hn
    let before : Byte := l.fields[i].field.set (BitVec.ofNat _ n) 0
    have hbefore : l.get i before = n := by
      have hroom : 2 ^ 1 ≤ 2 ^ l.fields[i].width :=
        Nat.pow_le_pow_right (by decide) (hwidth _ (List.getElem_mem _))
      rw [get, Field.get_set, BitVec.toNat_ofNat, Nat.mod_eq_of_lt (by omega)]
    have hget := congrArg (l.get i) (h before)
    rwa [get_applyAll, get_applyAll, hbefore] at hget
  exact eq_of_getD (hheld 0 (by decide)) (hheld 1 (by decide))

/-- An offer that is refused has no effect. -/
theorem applyAll_filter (offers : List l.Offer) (b : Byte) :
    applyAll (offers.filter fun o => o.IsTaken) b = applyAll offers b := by
  induction offers using List.reverseRecOn with
  | nil => rfl
  | append_singleton offers o ih =>
    rw [List.filter_append, applyAll_concat, ← ih]
    by_cases htaken : o.IsTaken
    · rw [← applyAll_concat]
      simp [htaken]
    · rw [Offer.apply_assignment, if_neg htaken]
      simp [htaken]

/-- Each offer is answered with the byte after it, if it is taken. -/
theorem getElem?_answers (offers : List l.Offer) (b : Byte) (k : Nat) :
    (answers offers b)[k]? = offers[k]?.map fun o =>
      if o.IsTaken then some (applyAll (offers.take (k + 1)) b) else none := by
  induction offers generalizing b k with
  | nil => rfl
  | cons o offers ih =>
    cases k with
    | zero => exact congrArg some (o.put?_assignment b)
    | succ k => exact ih (o.assignment.apply b) k

end Layout

/-! ## The five registers -/

/-- A register that has a layout. -/
inductive RegisterFormat where
  | power
  | range
  | filters
  | status
  | pin
deriving DecidableEq, Repr

namespace RegisterFormat

/-- The fields of a register. -/
def layout : RegisterFormat → Layout
  | power => PowerRegister.layout
  | range => RangeRegister.layout
  | filters => FilterRegister.layout
  | status => StatusRegister.layout
  | pin => PinRegister.layout

/-- The parts of the register with their widths, from the lowest bit upwards. A part without a name
is reserved. -/
def parts : RegisterFormat → List (Option String × Nat)
  | power => [("accel_mode", 2), ("gyro_mode", 2), ("idle", 1), ("temp_dis", 1), (none, 2)]
  | range => [("odr", 4), (none, 1), ("fs_sel", 3)]
  | filters => [("gyro_ui_filt_bw", 4), ("accel_ui_filt_bw", 4)]
  | status => [("agc_rdy_int", 1), ("fifo_full_int", 1), ("fifo_ths_int", 1), ("data_rdy_int", 1),
      ("reset_done_int", 1), ("pll_rdy_int", 1), ("ui_fsync_int", 1), (none, 1)]
  | pin => [("int1_polarity", 1), ("int1_drive_circuit", 1), ("int1_mode", 1),
      ("int2_polarity", 1), ("int2_drive_circuit", 1), ("int2_mode", 1), (none, 2)]

/-- The name, the lowest bit and the width of each named part, if the parts are packed one after the
other from a bit upwards. -/
def packed : Nat → List (Option String × Nat) → List (String × Nat × Nat)
  | _, [] => []
  | bit, (none, width) :: parts => packed (bit + width) parts
  | bit, (some name, width) :: parts => (name, bit, width) :: packed (bit + width) parts

/-- The layout of a register is what packing its parts gives. -/
theorem layout_eq_packed (r : RegisterFormat) :
    (r.layout.fields.map fun f => (f.name, f.field.offset, f.width)) = packed 0 r.parts ∧
      (r.parts.map Prod.snd).sum = 8 := by
  cases r <;> decide

/-- Every field of a register is at least a bit wide. -/
theorem width_pos (r : RegisterFormat) : ∀ f ∈ r.layout.fields, 0 < f.width := by
  cases r <;> decide

/-- The fields of the five registers lie where packing the parts of each from the lowest bit upwards
puts them, and make up the whole byte together with the reserved parts. Whatever numbers are offered
to the fields of a register in whatever order, each field then holds the last number that it took,
or what it held before if it took none, and no reserved bit has changed. Just the numbers that are
too large for their field are refused, and without them the byte would be the same. Two lists of
offers leave the same byte, whatever it was before, just if each field took the same number last in
both. -/
theorem holds_last_taken (r : RegisterFormat) :
    (r.layout.fields.map fun f => (f.name, f.field.offset, f.width)) = packed 0 r.parts ∧
    (r.parts.map Prod.snd).sum = 8 ∧
    (∀ (offers : List r.layout.Offer) (b : Byte),
      let after := Layout.applyAll offers b
      (∀ i, r.layout.get i after = (Layout.Offer.lastTaken offers i).getD (r.layout.get i b)) ∧
      after &&& r.layout.reserved = b &&& r.layout.reserved ∧
      Layout.applyAll (offers.filter fun o => o.IsTaken) b = after ∧
      ∀ k, (Layout.answers offers b)[k]? = offers[k]?.map fun o =>
        if o.IsTaken then some (Layout.applyAll (offers.take (k + 1)) b) else none) ∧
    ∀ offers others : List r.layout.Offer,
      (∀ b, Layout.applyAll offers b = Layout.applyAll others b) ↔
        ∀ i, Layout.Offer.lastTaken offers i = Layout.Offer.lastTaken others i := by
  obtain ⟨hpacked, hwhole⟩ := r.layout_eq_packed
  refine ⟨hpacked, hwhole, ?_, Layout.applyAll_eq_iff r.width_pos⟩
  intro offers b
  exact ⟨fun i => Layout.get_applyAll offers i b, Layout.applyAll_and_reserved offers b,
    Layout.applyAll_filter offers b, Layout.getElem?_answers offers b⟩

end RegisterFormat

end Inertial
