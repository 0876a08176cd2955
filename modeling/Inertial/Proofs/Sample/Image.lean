import Inertial.Sample
import Mathlib.Algebra.Order.Ring.Int

/-!
# Images of samples

What an image says is told number by number: each of the first six pairs of bytes is one axis, four
bytes of padding follow, and the last eight bytes are the time. The numbers are in two's complement,
low byte first (`Sample.HasImage`). No two samples have the same image in this sense, and no sample
has two (`Sample.HasImage.sample_unique`, `Sample.HasImage.bytes_unique`).

Both `Sample.image` and `Sample.ofImage?` follow that description, so that reading an image and
writing it are inverse to each other (`Sample.ofImage?_eq_some_iff`). The main statement,
`Sample.image_lossless`, puts this together with what the image of a block of data is.
-/

set_option autoImplicit false

namespace Inertial

/-! ## Signed numbers as bytes -/

namespace LittleEndian

/-- The number that bytes stand for in two's complement. -/
def toInt (bs : List Byte) : Int :=
  (toNat bs : Int).bmod (2 ^ (8 * bs.length))

/-- The lowest `n` bytes of a number in two's complement. -/
def ofInt : Nat → Int → List Byte
  | 0, _ => []
  | n + 1, v => BitVec.ofInt 8 v :: ofInt n (v / 256)

/-- A number is put in as many bytes as asked for. -/
@[simp] theorem length_ofInt (n : Nat) (v : Int) : (ofInt n v).length = n := by
  induction n generalizing v with
  | zero => rfl
  | succ n ih => simp [ofInt, ih]

/-- A list of bytes stands for a number below the power of two for its bits. -/
theorem toNat_lt (bs : List Byte) : toNat bs < 2 ^ (8 * bs.length) := by
  have h : toNat bs = (BitVec.ofNat (8 * bs.length) (toNat bs)).toNat := by
    rw [← toNat_ofNat, ofNat_toNat]
  rw [h]
  exact BitVec.isLt _

/-- Bytes of one length that stand for the same number are the same. -/
theorem toInt_injective {bs cs : List Byte} (hlength : bs.length = cs.length)
    (h : toInt bs = toInt cs) : bs = cs := by
  have hnat : ∀ ds : List Byte, toInt ds % (2 ^ (8 * ds.length) : Nat) = (toNat ds : Int) := by
    intro ds
    rw [toInt, Int.bmod_emod, ← Int.natCast_emod, Nat.mod_eq_of_lt (toNat_lt ds)]
  have hvalue : toNat bs = toNat cs := by
    have heq := hnat bs
    rw [h, hlength, hnat cs] at heq
    exact (Int.ofNat.inj heq).symm
  rw [← ofNat_toNat bs, ← ofNat_toNat cs, hlength, hvalue]

/-- The bytes of a word stand for the number that it is in two's complement. -/
theorem toInt_ofNat (n : Nat) (w : BitVec (8 * n)) : toInt (ofNat n w.toNat) = w.toInt := by
  rw [toInt, toNat_ofNat, length_ofNat, BitVec.ofNat_toNat, BitVec.setWidth_eq,
    ← BitVec.toInt_eq_toNat_bmod]

/-- The remainder by a larger power is the low byte and the remainder of what is left. -/
theorem emod_mul (v m : Int) (hm : 0 < m) : v % (256 * m) = v % 256 + 256 * (v / 256 % m) := by
  have hrest := Int.emod_nonneg (v / 256) (b := m) (by omega)
  have hrest' := Int.emod_lt_of_pos (v / 256) hm
  have hsplit : v % 256 + 256 * (v / 256 % m) + 256 * m * (v / 256 / m) = v := by
    have hquotient := Int.mul_ediv_add_emod (v / 256) m
    rw [Int.mul_assoc]
    omega
  exact ((Int.ediv_emod_unique (by omega)).mpr ⟨hsplit, by omega, by omega⟩).2

/-- The bytes of a number stand for its remainder. -/
theorem toNat_ofInt (n : Nat) (v : Int) : (toNat (ofInt n v) : Int) = v % (2 ^ (8 * n) : Nat) := by
  induction n generalizing v with
  | zero => exact (Int.emod_one v).symm
  | succ n ih =>
    have hlow : ((BitVec.ofInt 8 v).toNat : Int) = v % 256 := by
      rw [BitVec.toNat_ofInt]
      omega
    have hpow : ((2 ^ (8 * (n + 1)) : Nat) : Int) = 256 * (2 ^ (8 * n) : Nat) := by
      rw [Nat.mul_succ, Nat.pow_add, Nat.mul_comm]
      rfl
    have hpos : (0 : Int) < (2 ^ (8 * n) : Nat) := Int.natCast_pos.mpr (Nat.two_pow_pos _)
    rw [ofInt, toNat, Int.natCast_add, Int.natCast_mul, ih, hlow, hpow, emod_mul v _ hpos]
    rfl

/-- The bytes of a number stand for it, up to the bits for which there are no bytes. -/
theorem toInt_ofInt (n : Nat) (v : Int) : toInt (ofInt n v) = v.bmod (2 ^ (8 * n)) := by
  rw [toInt, length_ofInt, toNat_ofInt, Int.emod_bmod]

end LittleEndian

/-! ## Stretches of bytes -/

/-- Two bytes in a row. -/
theorem take_two_drop {bytes : List Byte} {k : Nat} (hk : k + 1 < bytes.length) :
    (bytes.drop k).take 2 = [bytes[k], bytes[k + 1]] := by
  rw [List.drop_eq_getElem_cons (by omega), List.drop_eq_getElem_cons hk]
  rfl

/-- A byte of a stretch that two lists share is the same in both. -/
theorem getElem?_of_stretch {bytes other : List Byte} {start count i : Nat}
    (h : (bytes.drop start).take count = (other.drop start).take count)
    (hstart : start ≤ i) (hend : i < start + count) : bytes[i]? = other[i]? := by
  have hplace := congrArg (·[i - start]?) h
  simp only [List.getElem?_take, List.getElem?_drop] at hplace
  rwa [if_pos (by omega), if_pos (by omega), Nat.add_sub_cancel' hstart] at hplace

/-- The bytes of one of several words of the same length. -/
theorem take_drop_flatMap {α : Type} {f : α → List Byte} {n : Nat} (hf : ∀ x, (f x).length = n)
    (xs : List α) (rest : List Byte) (k : Nat) (hk : k < xs.length) :
    ((xs.flatMap f ++ rest).drop (n * k)).take n = f xs[k] := by
  induction xs generalizing k with
  | nil => exact absurd hk (Nat.not_lt_zero k)
  | cons x xs ih =>
    rw [List.flatMap_cons, List.append_assoc]
    cases k with
    | zero => exact List.take_left' (hf x)
    | succ k =>
      have hk' : k < xs.length := Nat.lt_of_succ_lt_succ hk
      rw [Nat.mul_succ, Nat.add_comm, ← List.drop_drop, List.drop_left' (hf x), ih k hk']
      rfl

/-! ## Axes -/

/-- A channel is the number that its two bytes stand for. -/
theorem toInt_channelOf_bytes (low high : Byte) :
    (channelOf low high).toInt = LittleEndian.toInt [low, high] := by
  have hlt : LittleEndian.toNat [low, high] < 2 ^ 16 := LittleEndian.toNat_lt [low, high]
  rw [channelOf, Int16.toInt_ofBitVec, BitVec.toInt_eq_toNat_bmod, BitVec.toNat_ofNat,
    Nat.mod_eq_of_lt hlt]
  rfl

namespace RawBlock

/-- Each axis is the number of its two bytes, the accelerometer's before the gyroscope's. -/
theorem toInt_channels (raw : RawBlock) (k : Nat) (hk : k < 6) :
    (raw.channels[k]).toInt = LittleEndian.toInt ((raw.toList.drop (2 * k)).take 2) := by
  have hplace : 2 * k + 1 < raw.toList.length := by
    rw [Vector.length_toList, size]
    omega
  rw [take_two_drop hplace, ← toInt_channelOf_bytes, channels, Vector.getElem_ofFn,
    Vector.getElem_toList, Vector.getElem_toList]
  rfl

/-- Each axis of the accelerometer is the number of its two bytes. -/
theorem toInt_accel (raw : RawBlock) (k : Fin 3) :
    (raw.accel.get k).toInt = LittleEndian.toInt ((raw.toList.drop (2 * k)).take 2) := by
  have hchannel : raw.accel[k] = raw.channels[(k : Nat)] := Vector.getElem_ofFn _
  rw [← raw.toInt_channels k (by omega), ← hchannel]
  rfl

/-- Each axis of the gyroscope is the number of its two bytes, six bytes further on. -/
theorem toInt_gyro (raw : RawBlock) (k : Fin 3) :
    (raw.gyro.get k).toInt = LittleEndian.toInt ((raw.toList.drop (6 + 2 * k)).take 2) := by
  have hplace : 6 + 2 * (k : Nat) = 2 * (3 + k) := by omega
  have hchannel : raw.gyro[k] = raw.channels[3 + (k : Nat)] := Vector.getElem_ofFn _
  rw [hplace, ← raw.toInt_channels (3 + k) (by omega), ← hchannel]
  rfl

example : (RawBlock.accel #v[0xFF, 0xFF, 0x00, 0x80, 0xFF, 0x7F, 0, 0, 0, 0, 0, 0]).toList =
    [-1, -32768, 32767] := by decide

end RawBlock

/-! ## What an image says -/

namespace Sample

/-- The bytes say what the sample is: two for each axis, four of padding and eight for the time. -/
structure HasImage (s : Sample) (bytes : List Byte) : Prop where
  length : bytes.length = size
  channels : ∀ (k : Nat) (hk : k < 6),
    (s.channels[k]).toInt = LittleEndian.toInt ((bytes.drop (2 * k)).take 2)
  padding : s.padding.toList = (bytes.drop 12).take 4
  timestamp : s.timestamp.toInt = LittleEndian.toInt (bytes.drop 16)

variable {s t : Sample} {bytes other : List Byte}

/-- No bytes are the image of two samples. -/
theorem HasImage.sample_unique (hs : s.HasImage bytes) (ht : t.HasImage bytes) : s = t := by
  have hchannels : s.channels = t.channels := by
    apply Vector.ext
    intro k hk
    rw [← Int16.toInt_inj, hs.channels k hk, ht.channels k hk]
  have hpadding : s.padding = t.padding := by
    rw [← Vector.toList_inj, hs.padding, ht.padding]
  have htimestamp : s.timestamp = t.timestamp := by
    rw [← Int64.toInt_inj, hs.timestamp, ht.timestamp]
  cases s
  cases t
  rw [mk.injEq]
  exact ⟨hchannels, hpadding, htimestamp⟩

/-- No sample has two images. -/
theorem HasImage.bytes_unique (hs : s.HasImage bytes) (ht : s.HasImage other) :
    bytes = other := by
  have hlengths : bytes.length = other.length := hs.length.trans ht.length.symm
  have hpair : ∀ k < 6,
      (bytes.drop (2 * k)).take 2 = (other.drop (2 * k)).take 2 := by
    intro k hk
    apply LittleEndian.toInt_injective
    · rw [List.length_take, List.length_take, List.length_drop, List.length_drop, hlengths]
    · rw [← hs.channels k hk, ← ht.channels k hk]
  have hpadding : (bytes.drop 12).take 4 = (other.drop 12).take 4 := by
    rw [← hs.padding, ← ht.padding]
  have htime : bytes.drop 16 = other.drop 16 := by
    apply LittleEndian.toInt_injective
    · rw [List.length_drop, List.length_drop, hlengths]
    · rw [← hs.timestamp, ← ht.timestamp]
  apply List.ext_getElem?
  intro i
  -- The place decides whether the byte belongs to an axis, to the padding or to the time.
  rcases Nat.lt_or_ge i 12 with hchannel | hafter
  · exact getElem?_of_stretch (hpair (i / 2) (by omega)) (by omega) (by omega)
  rcases Nat.lt_or_ge i 16 with hpad | hlast
  · exact getElem?_of_stretch hpadding hafter hpad
  · have hplace := congrArg (·[i - 16]?) htime
    simp only [List.getElem?_drop] at hplace
    rwa [Nat.add_sub_cancel' hlast] at hplace

/-! ## Writing and reading an image -/

/-- What is written for a sample is its image. -/
theorem hasImage_image (s : Sample) : s.HasImage s.image := by
  let words := s.channels.toList.flatMap fun c => LittleEndian.ofNat 2 c.toBitVec.toNat
  have hwords : words.length = 12 := by
    simp [words, List.length_flatMap, List.map_const']
  have htime : (words ++ s.padding.toList).length = 16 := by
    rw [List.length_append, hwords, Vector.length_toList]
  refine ⟨s.length_image, ?_, ?_, ?_⟩
  · intro k hk
    have hword := take_drop_flatMap (f := fun c : Int16 => LittleEndian.ofNat 2 c.toBitVec.toNat)
      (fun _ => LittleEndian.length_ofNat 2 _) s.channels.toList
      (s.padding.toList ++ LittleEndian.ofNat 8 s.timestamp.toBitVec.toNat) k (by simpa using hk)
    rw [image, List.append_assoc, hword, LittleEndian.toInt_ofNat 2, Int16.toInt_toBitVec,
      Vector.getElem_toList]
  · rw [image, List.append_assoc, List.drop_left' hwords, List.take_left' Vector.length_toList]
  · rw [image, List.drop_left' htime, LittleEndian.toInt_ofNat 8, Int64.toInt_toBitVec]

/-- Bytes are read just if there are as many as an image has. -/
theorem ofImage?_isSome (bytes : List Byte) :
    (ofImage? bytes).isSome = true ↔ bytes.length = size := by
  rw [ofImage?]
  exact Option.isSome_ite

/-- What was read has the bytes as its image. -/
theorem hasImage_of_ofImage? (h : ofImage? bytes = some s) : s.HasImage bytes := by
  have hlength : bytes.length = 24 := (ofImage?_isSome bytes).mp (by rw [h]; rfl)
  have hread : ∀ (k : Nat) (hk : k < bytes.length), bytes.getD k 0 = bytes[k] := by
    intro k hk
    rw [List.getD_eq_getElem?_getD, List.getElem?_eq_getElem hk, Option.getD_some]
  rw [ofImage?, if_pos (show bytes.length = size from hlength)] at h
  obtain rfl := Option.some.inj h
  refine ⟨hlength, ?_, ?_, ?_⟩
  · intro k hk
    have hplace : 2 * k + 1 < bytes.length := by omega
    rw [take_two_drop hplace, ← toInt_channelOf_bytes, Vector.getElem_ofFn, hread _ (by omega),
      hread _ hplace]
  · apply List.ext_getElem
    · rw [Vector.length_toList, List.length_take, List.length_drop]
      omega
    · intro k hk _
      rw [Vector.length_toList] at hk
      rw [Vector.getElem_toList, Vector.getElem_ofFn, List.getElem_take, List.getElem_drop,
        hread _ (by omega)]
  · have hbytes : (bytes.drop 16).length = 8 := by
      rw [List.length_drop, hlength]
    have hlt : LittleEndian.toNat (bytes.drop 16) < 2 ^ 64 := by
      have hbound := LittleEndian.toNat_lt (bytes.drop 16)
      rwa [hbytes] at hbound
    rw [Int64.toInt_ofBitVec, BitVec.toInt_eq_toNat_bmod, BitVec.toNat_ofNat,
      Nat.mod_eq_of_lt hlt, LittleEndian.toInt, hbytes]

/-- Reading an image and writing it are inverse to each other. -/
theorem ofImage?_eq_some_iff : ofImage? bytes = some s ↔ s.image = bytes := by
  constructor
  · intro h
    exact s.hasImage_image.bytes_unique (hasImage_of_ofImage? h)
  · rintro rfl
    obtain ⟨t, ht⟩ := Option.isSome_iff_exists.mp ((ofImage?_isSome _).mpr s.length_image)
    rw [ht, (hasImage_of_ofImage? ht).sample_unique s.hasImage_image]

/-- Different samples have different images. -/
theorem image_injective (h : s.image = t.image) : s = t :=
  s.hasImage_image.sample_unique (h ▸ t.hasImage_image)

/-! ## Samples of blocks of data -/

/-- The image of a sample of a block begins with the bytes of the block as they are. -/
theorem image_ofRaw (raw : RawBlock) (time : Int64) :
    (ofRaw raw time).image =
      raw.toList ++ List.replicate 4 0 ++ LittleEndian.ofInt 8 time.toInt := by
  have hraw : raw.toList.length = 12 := Vector.length_toList
  have hpadded : (raw.toList ++ List.replicate 4 0).length = 16 := by
    rw [List.length_append, hraw, List.length_replicate]
  apply (ofRaw raw time).hasImage_image.bytes_unique
  refine ⟨?_, ?_, ?_, ?_⟩
  · rw [List.length_append, hpadded, LittleEndian.length_ofInt]
    rfl
  · intro k hk
    rw [List.append_assoc, List.drop_append_of_le_length (by omega),
      List.take_append_of_le_length (by rw [List.length_drop]; omega)]
    exact raw.toInt_channels k hk
  · rw [List.append_assoc, List.drop_left' hraw, List.take_left' List.length_replicate]
    rfl
  · rw [List.drop_left' hpadded, LittleEndian.toInt_ofInt]
    exact time.toInt_bmod.symm

/-- Samples of two blocks of data are the same only if the blocks and the times are. -/
theorem ofRaw_injective {raw raw' : RawBlock} {time time' : Int64}
    (h : ofRaw raw time = ofRaw raw' time') : raw = raw' ∧ time = time' := by
  have himage := congrArg image h
  rw [image_ofRaw, image_ofRaw, List.append_assoc, List.append_assoc] at himage
  have hraw : raw.toList = raw'.toList :=
    List.append_inj_left himage (by rw [Vector.length_toList, Vector.length_toList])
  exact ⟨Vector.toList_inj.mp hraw, congrArg timestamp h⟩

/-- Nothing is lost in the image of a sample. For a block of data it is the block, the padding and
the time in two's complement, and the sample has the block's axes, each of them the number of its
two bytes. Just the lists of 24 bytes are read as samples. Writing the image of what was read gives
the list back, reading the image of any sample gives the sample back, and the bytes say what the
sample is. Samples compare as their images do, and samples of blocks of data as the blocks and the
times do. -/
theorem image_lossless :
    (∀ (raw : RawBlock) (time : Int64),
      (ofRaw raw time).image =
        raw.toList ++ List.replicate 4 0 ++ LittleEndian.ofInt 8 time.toInt ∧
      (ofRaw raw time).accel = raw.accel ∧ (ofRaw raw time).gyro = raw.gyro ∧
      ∀ k : Fin 3,
        (raw.accel.get k).toInt = LittleEndian.toInt ((raw.toList.drop (2 * k)).take 2) ∧
        (raw.gyro.get k).toInt = LittleEndian.toInt ((raw.toList.drop (6 + 2 * k)).take 2)) ∧
    (∀ bytes : List Byte, (ofImage? bytes).isSome = true ↔ bytes.length = size) ∧
    (∀ (bytes : List Byte) (s : Sample), ofImage? bytes = some s ↔ s.image = bytes) ∧
    (∀ s : Sample, s.HasImage s.image) ∧
    (∀ s t : Sample, (s == t) = (s.image == t.image)) ∧
    ∀ (raw raw' : RawBlock) (time time' : Int64),
      (ofRaw raw time == ofRaw raw' time') = (raw == raw' && time == time') := by
  refine ⟨?_, ofImage?_isSome, fun _ _ => ofImage?_eq_some_iff, hasImage_image, ?_, ?_⟩
  · intro raw time
    exact ⟨image_ofRaw raw time, rfl, rfl, fun k => ⟨raw.toInt_accel k, raw.toInt_gyro k⟩⟩
  · intro s t
    rw [Bool.eq_iff_iff, beq_iff_eq, beq_iff_eq]
    exact ⟨congrArg image, image_injective⟩
  · intro raw raw' time time'
    rw [Bool.eq_iff_iff, Bool.and_eq_true, beq_iff_eq, beq_iff_eq, beq_iff_eq]
    exact ⟨ofRaw_injective, fun ⟨hraw, htime⟩ => by rw [hraw, htime]⟩

end Sample

end Inertial
