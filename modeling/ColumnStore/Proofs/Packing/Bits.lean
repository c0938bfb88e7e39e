/-
Bit packing as one number.

Packed bytes are the digits, in base 256, of a number whose digits in base `2 ^ width` are the packed values:
- `ofArray_packInto`: packing appends the bytes of that number to a buffer, value by value (`putBits_spec`);
- `get_eq_field`: what `get` reads from any data is one digit of the data's value, by either of its two paths;
- `get_pack`: so every value is read back.
-/
import ColumnStore.Proofs.Bytes.Values
import ColumnStore.Packing.Bits

namespace ColumnStore.Packing

open Bytes (value)

/-! ## Digits -/

/-- the digit at a place of a number in base `2 ^ width` -/
def field (number width index : Nat) : Nat := number / 2 ^ (index * width) % 2 ^ width

theorem toNat_field (number : Nat) {width : Nat} (index : Nat) (hwidth : width ≤ 64) :
    (UInt64.ofNat (field number width index)).toNat = number / 2 ^ (index * width) % 2 ^ width := by
  have hlimit : 2 ^ width ≤ 2 ^ 64 := Nat.pow_le_pow_right (by decide) hwidth
  have hdigit : field number width index < 2 ^ width := Nat.mod_lt _ (by positivity)
  rw [UInt64.toNat_ofNat', Nat.mod_eq_of_lt (lt_of_lt_of_le hdigit hlimit), field]

/-- the number with the given digits in base `2 ^ width`, the first one lowest -/
def packedValue (width : Nat) : List UInt64 → Nat
  | [] => 0
  | v :: vs => v.toNat % 2 ^ width + 2 ^ width * packedValue width vs

/-- a field cut out of a window of the number is a field of the number -/
theorem window_field (number start length shift width : Nat) (h : shift + width ≤ length) :
    number / 2 ^ start % 2 ^ length / 2 ^ shift % 2 ^ width = number / 2 ^ (start + shift) % 2 ^ width := by
  apply Nat.eq_of_testBit_eq
  intro i
  simp only [Nat.testBit_mod_two_pow, Nat.testBit_div_two_pow]
  by_cases hi : i < width
  · simp [hi, show i + shift < length by omega, show i + shift + start = i + (start + shift) by omega]
  · simp [hi]

/-- the low bits of a number are its lowest ones and those after them -/
theorem mod_split (number : Nat) {low width : Nat} (h : low ≤ width) :
    number % 2 ^ width = number % 2 ^ low + 2 ^ low * (number / 2 ^ low % 2 ^ (width - low)) := by
  rw [← Nat.mod_mul, ← Nat.pow_add, Nat.add_sub_cancel' h]

theorem packedValue_lt (width : Nat) (vs : List UInt64) : packedValue width vs < 2 ^ (vs.length * width) := by
  induction vs with
  | nil => simp [packedValue]
  | cons v vs ih =>
    have hv : v.toNat % 2 ^ width < 2 ^ width := Nat.mod_lt _ (by positivity)
    rw [packedValue, List.length_cons, Nat.succ_mul, Nat.add_comm (vs.length * width), Nat.pow_add]
    exact Bytes.add_mul_lt hv ih

theorem packedValue_fits (width : Nat) (vs : List UInt64) : packedValue width vs < 256 ^ packedLength vs.length width := by
  rw [Bytes.base_pow]
  refine lt_of_lt_of_le (packedValue_lt width vs) (Nat.pow_le_pow_right (by decide) ?_)
  rw [packedLength]
  omega

theorem packedValue_append (width : Nat) (xs ys : List UInt64) :
    packedValue width (xs ++ ys) = packedValue width xs + 2 ^ (xs.length * width) * packedValue width ys := by
  induction xs with
  | nil => simp [packedValue]
  | cons x xs ih =>
    rw [List.cons_append, packedValue, packedValue, ih, List.length_cons, Nat.succ_mul, Nat.pow_add]
    ring

theorem field_packedValue (width : Nat) (vs : List UInt64) (i : Nat) (h : i < vs.length) :
    field (packedValue width vs) width i = vs[i].toNat % 2 ^ width := by
  induction vs generalizing i with
  | nil => simp at h
  | cons v vs ih =>
    have hpos : 0 < 2 ^ width := by positivity
    have hv : v.toNat % 2 ^ width < 2 ^ width := Nat.mod_lt _ hpos
    cases i with
    | zero =>
      simp only [field, packedValue, Nat.zero_mul, Nat.pow_zero, Nat.div_one, List.getElem_cons_zero]
      rw [Nat.add_mul_mod_self_left, Nat.mod_mod]
    | succ i =>
      have hrest : (v.toNat % 2 ^ width + 2 ^ width * packedValue width vs) / 2 ^ width = packedValue width vs := by
        rw [Nat.add_mul_div_left _ _ hpos, Nat.div_eq_of_lt hv, Nat.zero_add]
      have hi : i < vs.length := by simpa using h
      rw [List.getElem_cons_succ, ← ih i hi, field, field, packedValue, Nat.succ_mul, Nat.add_comm (i * width),
        Nat.pow_add, ← Nat.div_div_eq_div_mul, hrest]

/-! ## Words -/

theorem toNat_distance {k : Nat} (h : k < 64) : (UInt64.ofNat k).toNat % 64 = k := by
  rw [UInt64.toNat_ofNat']
  omega

theorem toNat_lowBits {width : Nat} (hwidth : width ≤ 64) (w : UInt64) :
    (lowBits width w).toNat = w.toNat % 2 ^ width := by
  unfold lowBits
  by_cases h : 64 ≤ width
  · obtain rfl : width = 64 := by omega
    rw [if_pos (by decide), Nat.mod_eq_of_lt w.toNat_lt]
  · have hpow : 2 ^ width < 2 ^ 64 := Nat.pow_lt_pow_right (by decide) (by omega)
    have hone : ((1 : UInt64) <<< UInt64.ofNat width).toNat = 2 ^ width := by
      rw [UInt64.toNat_shiftLeft, toNat_distance (by omega), Nat.shiftLeft_eq, Nat.mod_eq_of_lt (by simpa using hpow)]
      simp
    have hmask : ((1 : UInt64) <<< UInt64.ofNat width - 1).toNat = 2 ^ width - 1 := by
      have hle : (1 : UInt64) ≤ (1 : UInt64) <<< UInt64.ofNat width := by
        rw [UInt64.le_iff_toNat_le, hone]
        exact Nat.one_le_two_pow
      rw [UInt64.toNat_sub_of_le _ _ hle, hone]
      rfl
    rw [if_neg h, UInt64.toNat_and, hmask, Nat.and_two_pow_sub_one_eq_mod]

/-- the bits of a word that go into one byte, at their place there -/
theorem toNat_part {shift taken : Nat} (h : shift + taken ≤ 8) (v : UInt64) :
    (lowBits taken v <<< UInt64.ofNat shift).toUInt8.toNat = 2 ^ shift * (v.toNat % 2 ^ taken) := by
  have hlow : v.toNat % 2 ^ taken < 2 ^ taken := Nat.mod_lt _ (by positivity)
  have hpow : 2 ^ shift * 2 ^ taken ≤ 2 ^ 8 := by
    rw [← Nat.pow_add]
    exact Nat.pow_le_pow_right (by decide) h
  have hfit : 2 ^ shift * (v.toNat % 2 ^ taken) < 2 ^ 8 :=
    lt_of_lt_of_le (Nat.mul_lt_mul_of_pos_left hlow (by positivity)) hpow
  rw [UInt64.toNat_toUInt8, UInt64.toNat_shiftLeft, toNat_distance (by omega), toNat_lowBits (by omega), Nat.shiftLeft_eq,
    Nat.mul_comm]
  omega

/-! ## Writing -/

@[simp] theorem size_setBits (buffer : ByteArray) (index : Nat) (bits : UInt8) :
    (setBits buffer index bits).size = buffer.size := by
  unfold setBits
  split
  · exact Array.size_set _
  · rfl

/-- where nothing is written above a bit of a byte yet, setting bits from there on adds them -/
theorem value_setBits {buffer : ByteArray} {index shift : Nat} {bits : UInt8} (hroom : index < buffer.size)
    (hfree : value (Bytes.ofArray buffer) < 2 ^ (8 * index + shift)) (hbits : 2 ^ shift ∣ bits.toNat) :
    value (Bytes.ofArray (setBits buffer index bits)) = value (Bytes.ofArray buffer) + 256 ^ index * bits.toNat := by
  have hbyte : buffer[index].toNat < 2 ^ shift := by
    have hdigit := Bytes.value_digit index (Bytes.ofArray buffer)
    rw [Bytes.getElem?_ofArray buffer hroom, Option.getD_some, Bytes.base_pow] at hdigit
    rw [hdigit]
    refine lt_of_le_of_lt (Nat.mod_le _ _) (Nat.div_lt_of_lt_mul ?_)
    rwa [← Nat.pow_add]
  have hsum : (buffer[index] ||| bits).toNat = buffer[index].toNat + bits.toNat := by
    obtain ⟨k, hk⟩ := hbits
    rw [UInt8.toNat_or, hk, Nat.or_comm, ← Nat.two_pow_add_eq_or_of_lt hbyte, Nat.add_comm]
  have hset : Bytes.ofArray (setBits buffer index bits) = (Bytes.ofArray buffer).set index (buffer[index] ||| bits) := by
    rw [setBits, dif_pos hroom, Bytes.ofArray_set]
  have hvalue := Bytes.value_set (Bytes.ofArray buffer) (buffer[index] ||| bits) hroom
  rw [Bytes.getElem?_ofArray buffer hroom, Option.getD_some, hsum, Nat.mul_add] at hvalue
  rw [hset]
  omega

/-- what writing one value does: it adds the low bits, at their place -/
theorem putBits_spec (buffer : ByteArray) (index : Nat) (shift : Fin 8) (left : Nat) (v : UInt64)
    (hroom : 8 * index + shift + left ≤ 8 * buffer.size)
    (hfree : value (Bytes.ofArray buffer) < 2 ^ (8 * index + shift)) :
    (putBits buffer index shift left v).size = buffer.size ∧
      value (Bytes.ofArray (putBits buffer index shift left v)) =
        value (Bytes.ofArray buffer) + 2 ^ (8 * index + shift) * (v.toNat % 2 ^ left) := by
  induction buffer, index, shift, left, v using putBits.induct with
  | case1 buffer index shift v =>
    rw [putBits, if_pos rfl]
    simp [Nat.mod_one]
  | case2 buffer index shift left v hleft taken part ih =>
    have htaken : shift + taken ≤ 8 := by omega
    have hpart : part.toNat = 2 ^ shift.val * (v.toNat % 2 ^ taken) := toNat_part htaken v
    have hvalue : value (Bytes.ofArray (setBits buffer index part)) =
        value (Bytes.ofArray buffer) + 2 ^ (8 * index + shift) * (v.toNat % 2 ^ taken) := by
      rw [value_setBits (by omega) hfree (Dvd.intro _ hpart.symm), hpart, Bytes.base_pow, Nat.pow_add, Nat.mul_assoc]
    have hlow : v.toNat % 2 ^ taken < 2 ^ taken := Nat.mod_lt _ (by positivity)
    have hnext : value (Bytes.ofArray (setBits buffer index part)) < 2 ^ (8 * (index + 1) + 0) := by
      rw [hvalue]
      refine lt_of_lt_of_le (Bytes.add_mul_lt hfree hlow) ?_
      rw [← Nat.pow_add]
      exact Nat.pow_le_pow_right (by decide) (by omega)
    have hrest : (v >>> UInt64.ofNat taken).toNat = v.toNat / 2 ^ taken := by
      rw [UInt64.toNat_shiftRight, toNat_distance (by omega), Nat.shiftRight_eq_div_pow]
    obtain ⟨hsize, hput⟩ := ih (by rw [size_setBits]; simp only [Fin.val_zero]; omega) hnext
    rw [putBits, if_neg hleft]
    refine ⟨hsize.trans (size_setBits _ _ _), hput.trans ?_⟩
    rw [hvalue, hrest, Nat.add_assoc, Fin.val_zero, Nat.add_zero]
    congr 1
    -- either the value ends in this byte, or the byte is filled up
    rcases Nat.eq_zero_or_pos (left - taken) with hend | hmore
    · rw [hend, show taken = left by omega]
      simp [Nat.mod_one]
    · rw [show 8 * (index + 1) = 8 * index + shift + taken by omega, mod_split v.toNat (show taken ≤ left by omega),
        Nat.pow_add 2 (8 * index + shift)]
      ring

/-- what writing the values does: it adds the packed number, at its place -/
theorem putAll_spec (width : Nat) (buffer : ByteArray) (place : Nat) (vs : List UInt64)
    (hroom : place + vs.length * width ≤ 8 * buffer.size) (hfree : value (Bytes.ofArray buffer) < 2 ^ place) :
    (putAll width buffer place vs).size = buffer.size ∧
      value (Bytes.ofArray (putAll width buffer place vs)) =
        value (Bytes.ofArray buffer) + 2 ^ place * packedValue width vs := by
  induction vs generalizing buffer place with
  | nil => simp [putAll, packedValue]
  | cons v vs ih =>
    rw [List.length_cons, Nat.succ_mul] at hroom
    have hplace : 8 * (place / 8) + (Fin.ofNat 8 place).val = place := Nat.div_add_mod place 8
    obtain ⟨hsize, hput⟩ := putBits_spec buffer (place / 8) (Fin.ofNat 8 place) width v (by omega) (by rwa [hplace])
    rw [hplace] at hput
    have hv : v.toNat % 2 ^ width < 2 ^ width := Nat.mod_lt _ (by positivity)
    have hnext : value (Bytes.ofArray (putBits buffer (place / 8) (Fin.ofNat 8 place) width v)) < 2 ^ (place + width) := by
      rw [hput, Nat.pow_add]
      exact Bytes.add_mul_lt hfree hv
    obtain ⟨hall, hvalue⟩ := ih _ (place + width) (by rw [hsize]; omega) hnext
    rw [putAll]
    refine ⟨hall.trans hsize, ?_⟩
    rw [hvalue, hput, packedValue, Nat.pow_add]
    ring

/-- **Packing appends one number.** What is in the buffer stays, and after it come the bytes of the packed number. -/
theorem ofArray_packInto (buffer : ByteArray) (width : Nat) (vs : List UInt64) :
    Bytes.ofArray (packInto buffer width vs) =
      Bytes.ofArray buffer ++ Bytes.littleEndian (packedLength vs.length width) (packedValue width vs) := by
  unfold packInto
  split
  · next hzero => simp [hzero, packedLength, Bytes.littleEndian]
  · set count := packedLength vs.length width with hcount
    set room := Bytes.appendTo buffer (List.replicate count 0) with hroom
    have hbytes : Bytes.ofArray room = Bytes.ofArray buffer ++ List.replicate count 0 := Bytes.ofArray_appendTo _ _
    have hsize : room.size = buffer.size + count := by
      rw [← Bytes.length_ofArray, hbytes, List.length_append, List.length_replicate, Bytes.length_ofArray]
    have hvalue : value (Bytes.ofArray room) = value (Bytes.ofArray buffer) := by
      rw [hbytes, Bytes.value_append, Bytes.value_replicate_zero, Nat.mul_zero, Nat.add_zero]
    have hfree : value (Bytes.ofArray room) < 2 ^ (8 * buffer.size) := by
      rw [hvalue, ← Bytes.base_pow]
      exact Bytes.value_lt _
    obtain ⟨hall, hput⟩ := putAll_spec width room (8 * buffer.size) vs (by rw [hsize, hcount, packedLength]; omega) hfree
    refine Bytes.value_inj ?_ ?_
    · rw [Bytes.length_ofArray, hall, hsize, List.length_append, Bytes.length_ofArray, Bytes.length_littleEndian]
    · rw [hput, hvalue, Bytes.value_append, Bytes.value_littleEndian, Nat.mod_eq_of_lt (packedValue_fits width vs),
        Bytes.length_ofArray, Bytes.base_pow]

theorem pack_eq (width : Nat) (vs : List UInt64) :
    pack width vs = Bytes.littleEndian (packedLength vs.length width) (packedValue width vs) :=
  ofArray_packInto .empty width vs

theorem length_pack (width : Nat) (vs : List UInt64) : (pack width vs).length = packedLength vs.length width := by
  rw [pack_eq, Bytes.length_littleEndian]

theorem value_pack (width : Nat) (vs : List UInt64) : value (pack width vs) = packedValue width vs := by
  rw [pack_eq, Bytes.value_littleEndian, Nat.mod_eq_of_lt (packedValue_fits width vs)]

/-! ## Reading -/

theorem toNat_byteAt (data : ByteArray) (index : Nat) :
    (byteAt data index).toNat = value (Bytes.ofArray data) / 256 ^ index % 256 := by
  rw [← Bytes.value_digit]
  by_cases h : index < data.size
  · rw [byteAt, dif_pos h, Bytes.getElem?_ofArray data h, Option.getD_some]
  · rw [byteAt, dif_neg h, List.getElem?_eq_none (by simpa using h), Option.getD_none]

def bytesAt (data : ByteArray) : (index count : Nat) → Bytes
  | _, 0 => []
  | index, count + 1 => byteAt data index :: bytesAt data (index + 1) count

/-- some bytes of the data are a window of its value -/
theorem value_bytesAt (data : ByteArray) (index count : Nat) :
    value (bytesAt data index count) = value (Bytes.ofArray data) / 256 ^ index % 256 ^ count := by
  induction count generalizing index with
  | zero => simp [bytesAt, Nat.mod_one]
  | succ count ih =>
    rw [bytesAt, Bytes.value_cons, ih, toNat_byteAt, Nat.pow_succ 256 index, ← Nat.div_div_eq_div_mul,
      show 256 ^ (count + 1) = 256 * 256 ^ count from Nat.pow_succ', Nat.mod_mul]

/-- one more byte above a partial word is added to it -/
theorem toNat_or_byte {acc : UInt64} {k : Nat} (b : UInt8) (hk : k < 8) (hacc : acc.toNat < 256 ^ k) :
    (acc ||| b.toUInt64 <<< UInt64.ofNat (8 * k)).toNat = acc.toNat + 256 ^ k * b.toNat ∧
      acc.toNat + 256 ^ k * b.toNat < 256 ^ (k + 1) := by
  have hb := b.toNat_lt
  have hsum : acc.toNat + 256 ^ k * b.toNat < 256 ^ (k + 1) := Bytes.add_mul_lt hacc hb
  refine ⟨?_, hsum⟩
  have hfit : b.toNat * 2 ^ (8 * k) < 2 ^ 64 := by
    have : 256 ^ (k + 1) ≤ 256 ^ 8 := Nat.pow_le_pow_right (by decide) hk
    rw [← Bytes.base_pow, Nat.mul_comm]
    omega
  rw [UInt64.toNat_or, UInt64.toNat_shiftLeft, toNat_distance (by omega), UInt8.toNat_toUInt64, Nat.shiftLeft_eq,
    Nat.mod_eq_of_lt hfit, Nat.or_comm, Nat.mul_comm, ← Nat.two_pow_add_eq_or_of_lt (Bytes.base_pow k ▸ hacc),
    Bytes.base_pow, Nat.add_comm]

theorem toNat_wordAt (data : ByteArray) (index : Nat) :
    (wordAt data index).toNat = value (Bytes.ofArray data) / 256 ^ index % 2 ^ 64 := by
  have h0 : ((byteAt data index).toUInt64 <<< UInt64.ofNat (8 * 0)).toNat = (byteAt data index).toNat := by simp
  have hb := (byteAt data index).toNat_lt
  obtain ⟨h1, l1⟩ := toNat_or_byte (k := 1) (byteAt data (index + 1)) (by decide) (h0 ▸ hb)
  obtain ⟨h2, l2⟩ := toNat_or_byte (k := 2) (byteAt data (index + 2)) (by decide) (h1 ▸ l1)
  obtain ⟨h3, l3⟩ := toNat_or_byte (k := 3) (byteAt data (index + 3)) (by decide) (h2 ▸ l2)
  obtain ⟨h4, l4⟩ := toNat_or_byte (k := 4) (byteAt data (index + 4)) (by decide) (h3 ▸ l3)
  obtain ⟨h5, l5⟩ := toNat_or_byte (k := 5) (byteAt data (index + 5)) (by decide) (h4 ▸ l4)
  obtain ⟨h6, l6⟩ := toNat_or_byte (k := 6) (byteAt data (index + 6)) (by decide) (h5 ▸ l5)
  obtain ⟨h7, l7⟩ := toNat_or_byte (k := 7) (byteAt data (index + 7)) (by decide) (h6 ▸ l6)
  rw [show (2 : Nat) ^ 64 = 256 ^ 8 from rfl, ← value_bytesAt]
  have hword : (wordAt data index).toNat = _ := h7
  rw [hword, h6, h5, h4, h3, h2, h1, h0]
  simp only [bytesAt, Bytes.value_cons, Bytes.value_nil, Nat.add_assoc]
  norm_num
  ring

/-- what reading byte by byte does: it adds a window of the data's value, at its place -/
theorem toNat_gather (data : ByteArray) (index : Nat) (shift : Fin 8) (left place : Nat) (acc : UInt64)
    (hplace : place + left ≤ 64) (hacc : acc.toNat < 2 ^ place) :
    (gather data index shift left place acc).toNat =
      acc.toNat + 2 ^ place * (value (Bytes.ofArray data) / 2 ^ (8 * index + shift) % 2 ^ left) := by
  induction index, shift, left, place, acc using gather.induct data with
  | case1 index shift place acc =>
    rw [gather, if_pos rfl]
    simp [Nat.mod_one]
  | case2 index shift left place acc hleft taken part ih =>
    set number := value (Bytes.ofArray data)
    have hpart : part.toNat = number / 2 ^ (8 * index + shift) % 2 ^ taken := by
      have hdistance : (UInt8.ofNat shift.val).toNat % 8 = shift := by
        rw [UInt8.toNat_ofNat']
        omega
      rw [toNat_lowBits (by omega), UInt8.toNat_toUInt64, UInt8.toNat_shiftRight, hdistance, toNat_byteAt,
        Nat.shiftRight_eq_div_pow, Bytes.base_pow, show 256 = 2 ^ 8 from rfl, window_field _ _ _ _ _ (by omega)]
    have hlow : part.toNat < 2 ^ taken := by
      rw [hpart]
      exact Nat.mod_lt _ (by positivity)
    have hfit : 2 ^ place * part.toNat < 2 ^ 64 := by
      refine lt_of_lt_of_le (Nat.mul_lt_mul_of_pos_left hlow (by positivity)) ?_
      rw [← Nat.pow_add]
      exact Nat.pow_le_pow_right (by decide) (by omega)
    have hadd : (acc ||| part <<< UInt64.ofNat place).toNat = acc.toNat + 2 ^ place * part.toNat := by
      rw [UInt64.toNat_or, UInt64.toNat_shiftLeft, toNat_distance (by omega), Nat.shiftLeft_eq, Nat.mul_comm,
        Nat.mod_eq_of_lt hfit, Nat.or_comm, ← Nat.two_pow_add_eq_or_of_lt hacc, Nat.add_comm]
    have hnext : (acc ||| part <<< UInt64.ofNat place).toNat < 2 ^ (place + taken) := by
      rw [hadd, Nat.pow_add]
      exact Bytes.add_mul_lt hacc hlow
    rw [gather, if_neg hleft]
    refine (ih (by omega) hnext).trans ?_
    rw [hadd, hpart, Nat.add_assoc, Fin.val_zero, Nat.add_zero]
    congr 1
    -- either the field ends in this byte, or the byte is read to its end
    rcases Nat.eq_zero_or_pos (left - taken) with hend | hmore
    · rw [hend, show taken = left by omega]
      simp [Nat.mod_one]
    · rw [show 8 * (index + 1) = 8 * index + shift + taken by omega, mod_split _ (show taken ≤ left by omega),
        Nat.div_div_eq_div_mul, ← Nat.pow_add 2 (8 * index + shift), Nat.pow_add 2 place]
      ring

/-- what reading one word does: it answers a window of the data's value -/
theorem toNat_lowBits_wordAt (data : ByteArray) {index shift width : Nat} (h : shift + width ≤ 64) (hwidth : 0 < width) :
    (lowBits width (wordAt data index >>> UInt64.ofNat shift)).toNat =
      value (Bytes.ofArray data) / 2 ^ (8 * index + shift) % 2 ^ width := by
  rw [toNat_lowBits (by omega), UInt64.toNat_shiftRight, toNat_distance (by omega), Nat.shiftRight_eq_div_pow, toNat_wordAt,
    Bytes.base_pow, window_field _ _ _ _ _ h]

theorem word_eq {data : ByteArray} {index : Nat} (h : index + 8 ≤ data.size) : word data index = .ok (wordAt data index) :=
  if_pos h

theorem mask_eq (width : Nat) : ∃ m, mask width = .ok m ∧ ∀ w, w &&& m = lowBits width w := by
  unfold mask
  by_cases hwide : 64 ≤ width
  · refine ⟨-1, if_pos hwide, fun w => ?_⟩
    rw [lowBits, if_pos hwide, UInt64.and_neg_one]
  · refine ⟨1 <<< UInt64.ofNat width - 1, ?_, fun w => ?_⟩
    · rw [if_neg hwide, Strict.shiftUp_eq 1 (Nat.lt_of_not_le hwide)]
      rfl
    · rw [lowBits, if_neg hwide]

/-- **Every field is a digit.** Whatever the data, and by whichever path, `get` answers one digit of its value. -/
theorem get_eq_field (data : ByteArray) {width index : Nat} (hwidth : width ≤ 64) (hplace : index * width < 2 ^ 64) :
    get data width index = .ok (UInt64.ofNat (field (value (Bytes.ofArray data)) width index)) := by
  by_cases hzero : width = 0
  · subst hzero
    simp [get, field, Nat.mod_one]
  · set start := index * width
    have hstart : 8 * (start / 8) + start % 8 = start := Nat.div_add_mod start 8
    have hfield : (UInt64.ofNat (field (value (Bytes.ofArray data)) width index)).toNat =
        value (Bytes.ofArray data) / 2 ^ start % 2 ^ width := toNat_field _ _ hwidth
    have hcounted : ¬ UInt64.size ≤ start := Nat.not_le.2 hplace
    obtain ⟨m, hmask, hlow⟩ := mask_eq width
    rw [get, if_neg hzero]
    dsimp only
    rw [if_neg hcounted]
    by_cases hword : start % 8 + width ≤ 64 ∧ start / 8 + 8 ≤ data.size
    · rw [if_pos hword, word_eq hword.2, hmask]
      change Except.ok (wordAt data (start / 8) >>> UInt64.ofNat (start % 8) &&& m) = _
      rw [hlow]
      congr 1
      apply UInt64.toNat_inj.1
      rw [hfield, toNat_lowBits_wordAt data hword.1 (by omega), hstart]
    · rw [if_neg hword, if_neg (by omega)]
      congr 1
      apply UInt64.toNat_inj.1
      rw [hfield, toNat_gather data _ _ _ _ _ (by omega) (by decide)]
      simp [Fin.ofNat, start, Nat.div_add_mod]

/-- **Reading back.** Every packed value is read back, cut to the width. -/
theorem get_pack {width : Nat} (hwidth : width ≤ 64) (vs : List UInt64) (i : Nat) (h : i < vs.length)
    (hplace : i * width < 2 ^ 64) :
    get (Bytes.toByteArray (pack width vs)) width i = .ok (UInt64.ofNat (vs[i].toNat % 2 ^ width)) := by
  rw [get_eq_field _ hwidth hplace, Bytes.ofArray_toByteArray, value_pack, field_packedValue _ _ _ h]

/-! ## Widths -/

/-- a word fits a number of bits if and only if it needs no more of them -/
theorem bitsNeeded_le_iff (v : UInt64) (bits : Nat) : bitsNeeded v ≤ bits ↔ v.toNat < 2 ^ bits := by
  unfold bitsNeeded
  split
  · next h => simp [h]
  · next h =>
    have hne : v.toNat ≠ 0 := fun h0 => h (UInt64.toNat_inj.1 h0)
    exact Nat.log2_lt hne

theorem bitsNeeded_le (v : UInt64) : bitsNeeded v ≤ 64 := (bitsNeeded_le_iff v 64).2 v.toNat_lt

/-- a word fits the bits that it needs, and so does every smaller word -/
theorem lt_of_le_bitsNeeded {v w : UInt64} (h : v.toNat ≤ w.toNat) : v.toNat < 2 ^ bitsNeeded w :=
  lt_of_le_of_lt h ((bitsNeeded_le_iff w _).1 (le_refl _))

end ColumnStore.Packing
