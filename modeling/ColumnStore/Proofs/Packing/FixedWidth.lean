/-
Fixed-width packing: words of fields that never straddle two words are bit packing with zeros at the end.

- `Writer.add_spec`, `writer_spec`: what one value does to the open word of a writer, and what is written of all values;
- `value_payload`, `length_payload`: the words written for some values have the packed number as their value, in
  `byteLength` bytes;
- `Reader.get_eq_field`: a look-up by word, shift and mask answers one digit of the payload's value;
- `Reader.ofBytes_payload`, `Reader.get_payload`: so every value is read back, with anything after the payload;
- `payload_eq_pack`, `Reader.get_eq_get`: the bytes are those of bit packing with zeros behind them, and over any data a
  look-up answers what reading packed bits answers (`fixed_width_packing`).
-/
import ColumnStore.Proofs.Packing.Blocks
import ColumnStore.Packing.FixedWidth

namespace ColumnStore.Packing.FixedWidth

open Bytes (value)

/-! ## Widths -/

theorem supported_cases {width : Nat} (h : isSupported width = true) : width = 1 ∨ width = 2 ∨ width = 4 ∨ width = 8 := by
  simpa [isSupported, or_assoc] using h

theorem perWord_mul {width : Nat} (h : isSupported width = true) : perWord width * width = 64 := by
  rcases supported_cases h with rfl | rfl | rfl | rfl <;> rfl

theorem perWord_pos {width : Nat} (h : isSupported width = true) : 0 < perWord width := by
  rcases supported_cases h with rfl | rfl | rfl | rfl <;> decide

theorem width_pos {width : Nat} (h : isSupported width = true) : 0 < width := by
  rcases supported_cases h with rfl | rfl | rfl | rfl <;> decide

theorem width_le {width : Nat} (h : isSupported width = true) : width ≤ 8 := by
  rcases supported_cases h with rfl | rfl | rfl | rfl <;> decide

/-! ## Writing -/

/-- the bytes of a word with these values -/
def wordBytes (width : Nat) (group : List UInt64) : Bytes := Bytes.littleEndian 8 (packedValue width group)

def payload (width : Nat) (vs : List UInt64) : Bytes := ((blocks (perWord width) vs).map (wordBytes width)).flatten

/-- a value that fits the width is not refused -/
theorem shiftRight_width {width : Nat} (hwidth : width < 64) {v : UInt64} (hv : v.toNat < 2 ^ width) :
    v >>> UInt64.ofNat width = 0 := by
  rw [← UInt64.toNat_inj, UInt64.toNat_shiftRight, toNat_distance hwidth, Nat.shiftRight_eq_div_pow, Nat.div_eq_of_lt hv]
  rfl

namespace Writer

variable {width : Nat} {w : Writer} {group vs : List UInt64}

/-- the open word has these values, and room for more -/
structure Holds (width : Nat) (w : Writer) (group : List UInt64) : Prop where
  filled : w.filled = group.length
  word : w.word.toNat = packedValue width group
  room : group.length < perWord width

theorem flush_written (h : w.word.toNat = packedValue width group) :
    w.flush.written = w.written.push (wordBytes width group) := by
  rw [flush, Bytes.ofUInt64, h]
  rfl

/-- a value set above those of the open word is the digit after theirs -/
theorem toNat_above (hwidth : isSupported width = true) (h : w.Holds width group) {v : UInt64} (hv : v.toNat < 2 ^ width) :
    (w.word ||| v <<< UInt64.ofNat (w.filled * width)).toNat = packedValue width (group ++ [v]) := by
  have hroom : group.length * width + width ≤ 64 := by
    rw [← perWord_mul hwidth, ← Nat.succ_mul]
    exact Nat.mul_le_mul_right width h.room
  have hwidth' := width_pos hwidth
  have hbelow := packedValue_lt width group
  have hfit : v.toNat * 2 ^ (group.length * width) < 2 ^ 64 :=
    calc v.toNat * 2 ^ (group.length * width) < 2 ^ width * 2 ^ (group.length * width) :=
          Nat.mul_lt_mul_of_pos_right hv (Nat.two_pow_pos _)
      _ ≤ 2 ^ 64 := by rw [← Nat.pow_add]; exact Nat.pow_le_pow_right (by decide) (by omega)
  rw [h.filled, UInt64.toNat_or, UInt64.toNat_shiftLeft, toNat_distance (by omega), Nat.shiftLeft_eq, Nat.mod_eq_of_lt hfit,
    h.word, Nat.or_comm, Nat.mul_comm, ← Nat.two_pow_add_eq_or_of_lt hbelow, packedValue_append, Nat.add_comm]
  simp only [packedValue, Nat.mod_eq_of_lt hv, Nat.mul_zero, Nat.add_zero]

/-- **One value.** The open word takes it, and is written if it is full then. -/
theorem add_spec (hwidth : isSupported width = true) (h : w.Holds width group) {v : UInt64} (hv : v.toNat < 2 ^ width) :
    ∃ w', add width w v = .ok w' ∧ w'.count = w.count + 1 ∧
      ((group.length + 1 = perWord width ∧ w'.written = w.written.push (wordBytes width (group ++ [v])) ∧
          w'.Holds width []) ∨
        (w'.written = w.written ∧ w'.Holds width (group ++ [v]))) := by
  have hle := width_le hwidth
  have hword := toNat_above hwidth h hv
  have hcheck : (v >>> UInt64.ofNat width == 0) = true := beq_iff_eq.2 (shiftRight_width (by omega) hv)
  have hroom := h.room
  rw [add, if_pos hcheck]
  refine ⟨_, rfl, ?_, ?_⟩
  · dsimp only
    split <;> rfl
  · rw [h.filled] at *
    dsimp only
    split
    · next hfull => exact .inl ⟨hfull, flush_written hword, rfl, rfl, perWord_pos hwidth⟩
    · next hopen => exact .inr ⟨rfl, by simp, hword, by simp; omega⟩

/-- what a writer writes in the end: the values of its open word stand before those that still come -/
theorem foldlM_add (hwidth : isSupported width = true) (h : w.Holds width group) (hvs : ∀ v ∈ vs, v.toNat < 2 ^ width) :
    ∃ w', vs.foldlM (add width) w = .ok w' ∧ w'.count = w.count + vs.length ∧
      w'.finish = w.written.toList ++ (blocks (perWord width) (group ++ vs)).map (wordBytes width) := by
  induction vs generalizing w group with
  | nil =>
    refine ⟨w, rfl, rfl, ?_⟩
    rw [finish, h.filled, List.append_nil]
    cases group with
    | nil => simp [blocks]
    | cons x xs =>
      rw [if_neg (by simp), flush_written h.word, blocks_of_short (by simp) (Nat.le_of_lt h.room)]
      simp
  | cons v vs ih =>
    have hrest : ∀ x ∈ vs, x.toNat < 2 ^ width := fun x hx => hvs x (List.mem_cons_of_mem v hx)
    obtain ⟨w', hadd, hcount, hstate⟩ := add_spec hwidth h (hvs v List.mem_cons_self)
    have hcut : group ++ v :: vs = group ++ [v] ++ vs := by simp
    rw [List.foldlM_cons, hadd]
    rcases hstate with ⟨hfull, hwritten, hnext⟩ | ⟨hwritten, hnext⟩
    · obtain ⟨w'', hall, hcount', hfinish⟩ := ih hnext hrest
      have hblock := blocks_append (perWord_pos hwidth) (show (group ++ [v]).length = perWord width by simpa using hfull) vs
      refine ⟨w'', hall, by rw [hcount', hcount, List.length_cons]; omega, ?_⟩
      rw [hfinish, hwritten, hcut, hblock]
      simp
    · obtain ⟨w'', hall, hcount', hfinish⟩ := ih hnext hrest
      exact ⟨w'', hall, by rw [hcount', hcount, List.length_cons]; omega, by rw [hfinish, hwritten, hcut]⟩

end Writer

variable {width : Nat} {vs : List UInt64}

/-- **Word by word.** A writer that fills one word after the other writes the words of the values. -/
theorem writer_spec (hwidth : isSupported width = true) (hvs : ∀ v ∈ vs, v.toNat < 2 ^ width) :
    ∃ w, Writer.ofValues width vs = .ok w ∧ w.count = vs.length ∧
      w.finish = (blocks (perWord width) vs).map (wordBytes width) := by
  obtain ⟨w, hall, hcount, hfinish⟩ :=
    Writer.foldlM_add hwidth (⟨rfl, rfl, perWord_pos hwidth⟩ : Writer.Holds width {} []) hvs
  rw [Writer.ofValues, if_pos hwidth]
  exact ⟨w, hall, by simpa using hcount, by simpa using hfinish⟩

theorem pieces_eq (hwidth : isSupported width = true) (hvs : ∀ v ∈ vs, v.toNat < 2 ^ width) :
    pieces width vs = .ok ((blocks (perWord width) vs).map (wordBytes width)) := by
  obtain ⟨w, hall, -, hfinish⟩ := writer_spec hwidth hvs
  rw [pieces, hall, ← hfinish]
  rfl

/-! ## Payloads -/

theorem byteLength_eq (count width : Nat) : byteLength count width = blockCount (perWord width) count * 8 := rfl

theorem length_payload (hwidth : isSupported width = true) (vs : List UInt64) :
    (payload width vs).length = byteLength vs.length width := by
  have hpos := perWord_pos hwidth
  rw [byteLength_eq, payload]
  induction vs using blocks.induct (perWord width) with
  | case1 => rw [blocks, List.length_nil, blockCount_zero hpos]; rfl
  | case2 v vs ih =>
    rw [blocks_cons, List.map_cons, List.flatten_cons, List.length_append, ih, wordBytes, Bytes.length_littleEndian,
      List.length_drop, List.length_cons, blockCount_succ hpos, Nat.succ_mul, Nat.add_comm]
    congr 3
    omega

/-- **Padded bit packing.** The words of a payload have the packed number as their value. -/
theorem value_payload (hwidth : isSupported width = true) (vs : List UInt64) :
    value (payload width vs) = packedValue width vs := by
  have hmul := perWord_mul hwidth
  have hpos := perWord_pos hwidth
  unfold payload
  generalize perWord width = size at hmul hpos ⊢
  induction vs using blocks.induct size with
  | case1 => rw [blocks]; rfl
  | case2 v vs ih =>
    set group := v :: vs.take (size - 1)
    have hcut : v :: vs = group ++ vs.drop (size - 1) := by simp [group]
    have hlen : group.length ≤ size := by simp [group]; omega
    have hfits : packedValue width group < 256 ^ 8 :=
      calc packedValue width group < 2 ^ (group.length * width) := packedValue_lt width group
        _ ≤ 256 ^ 8 := by
          rw [show (256 : Nat) ^ 8 = 2 ^ 64 from rfl, ← hmul]
          exact Nat.pow_le_pow_right (by decide) (Nat.mul_le_mul_right width hlen)
    rw [blocks_cons, List.map_cons, List.flatten_cons, Bytes.value_append, ih, wordBytes, Bytes.length_littleEndian,
      Bytes.value_littleEndian, Nat.mod_eq_of_lt hfits, hcut, packedValue_append]
    -- a group that is not full is the last one, and nothing stands above it
    by_cases hfull : size - 1 ≤ vs.length
    · have : group.length = size := by simp [group]; omega
      rw [this, hmul, show (256 : Nat) ^ 8 = 2 ^ 64 from rfl]
    · rw [List.drop_eq_nil_of_le (by omega)]
      simp [packedValue]

/-! ## Look-ups -/

namespace Reader

/-- a look-up inside the payload keeps the low bits of a word that was moved to its place -/
theorem get_eq {r : Reader} {i : Nat} (hpos : 0 < perWord r.width)
    (hinside : i / perWord r.width * 8 + 8 ≤ r.data.size) (hwidth : r.width < 64) : r.get i = .ok (lowBits r.width
      (wordAt r.data (i / perWord r.width * 8) >>> UInt64.ofNat (i % perWord r.width * r.width))) := by
  rw [get, Strict.divMod_eq hpos]
  simp only [bind, Except.bind]
  rw [word_eq hinside, Strict.shiftUp_eq 1 hwidth, lowBits, if_neg (Nat.not_le.2 hwidth)]
  rfl

theorem get_eq_field (r : Reader) {i : Nat} (hwidth : isSupported r.width = true)
    (hinside : i / perWord r.width * 8 + 8 ≤ r.data.size) :
    r.get i = .ok (UInt64.ofNat (field (value (Bytes.ofArray r.data)) r.width i)) := by
  have hmul := perWord_mul hwidth
  have hpos := perWord_pos hwidth
  have hle := width_le hwidth
  have hlow := width_pos hwidth
  have hrem := Nat.mod_lt i hpos
  set place := i / perWord r.width
  set rest := i % perWord r.width
  have hindex : perWord r.width * place + rest = i := Nat.div_add_mod i _
  have hwindow : rest * r.width + r.width ≤ 64 := by
    rw [← Nat.succ_mul, ← hmul]
    exact Nat.mul_le_mul_right _ hrem
  have hshift : (UInt64.ofNat (rest * r.width)).toNat % 64 = rest * r.width := by
    rw [UInt64.toNat_ofNat']
    omega
  have hstart : 64 * place + rest * r.width = i * r.width := by
    rw [← hmul, ← hindex]
    ring
  have hpow : 256 ^ (place * 8) = 2 ^ (64 * place) := by
    rw [Bytes.base_pow]
    congr 1
    ring
  rw [get_eq hpos hinside (by omega)]
  congr 1
  apply UInt64.toNat_inj.1
  rw [toNat_lowBits (by omega), UInt64.toNat_shiftRight, hshift, Nat.shiftRight_eq_div_pow, toNat_wordAt, hpow,
    window_field _ _ _ _ _ hwindow, hstart, toNat_field _ _ (by omega)]

/-- the word of an index below the length lies in a payload of the length -/
theorem word_inside {width length i : Nat} (hwidth : isSupported width = true) (h : i < length) :
    i / perWord width * 8 + 8 ≤ byteLength length width := by
  have hpos := perWord_pos hwidth
  have : i / perWord width + 1 ≤ (length + perWord width - 1) / perWord width := by
    rw [Nat.le_div_iff_mul_le hpos, Nat.succ_mul]
    have := Nat.div_mul_le_self i (perWord width)
    omega
  unfold byteLength
  omega

theorem digit_inside {width length i : Nat} (hwidth : isSupported width = true) (h : i < length) :
    i * width + width ≤ 8 * byteLength length width := by
  have hrem := Nat.mod_lt i (perWord_pos hwidth)
  have hindex := Nat.div_add_mod i (perWord width)
  have hword := word_inside hwidth h
  calc i * width + width = (perWord width * (i / perWord width) + (i % perWord width + 1)) * width := by
        rw [← Nat.add_assoc, hindex, Nat.succ_mul]
    _ ≤ (perWord width * (i / perWord width) + perWord width) * width := Nat.mul_le_mul_right width (by omega)
    _ = (perWord width * width) * (i / perWord width + 1) := by ring
    _ ≤ 8 * byteLength length width := by
        rw [perWord_mul hwidth]
        omega

theorem ofBytes_eq (data : ByteArray) {width : Nat} (hwidth : isSupported width = true) (length : Nat) :
    ofBytes data width length =
      if data.size < byteLength length width then
        .error (.corruption (.fixedWidthTruncated data.size (byteLength length width)))
      else .ok ⟨data.extract 0 (byteLength length width), width, length⟩ := by
  rw [ofBytes, if_pos hwidth, Strict.divUp_eq (perWord_pos hwidth)]
  change (if data.size < byteLength length width then _ else _) = _
  split_ifs with hshort
  · rfl
  · exact congrArg (Functor.map _) (Strict.slice_eq (Nat.zero_le _) (Nat.le_of_not_lt hshort))

/-- the payload of some values, with anything after it, is viewed as just the payload -/
theorem ofBytes_payload {width : Nat} (hwidth : isSupported width = true) (vs : List UInt64) (rest : Bytes) :
    ofBytes (Bytes.toByteArray (payload width vs ++ rest)) width vs.length =
      .ok ⟨Bytes.toByteArray (payload width vs), width, vs.length⟩ := by
  have hlen := length_payload hwidth vs
  have hsize : (Bytes.toByteArray (payload width vs ++ rest)).size = (payload width vs).length + rest.length := by
    rw [← Bytes.length_ofArray, Bytes.ofArray_toByteArray, List.length_append]
  have hcut : (Bytes.toByteArray (payload width vs ++ rest)).extract 0 (byteLength vs.length width) =
      Bytes.toByteArray (payload width vs) := by
    apply Bytes.ofArray_inj
    rw [Bytes.ofArray_extract, Bytes.ofArray_toByteArray, Bytes.ofArray_toByteArray, List.drop_zero, ← hlen,
      List.take_left]
  rw [ofBytes_eq _ hwidth, if_neg (by omega), hcut]

/-- **Reading back.** A view of a payload answers every value that was written. -/
theorem get_payload {width : Nat} {vs : List UInt64} (hwidth : isSupported width = true)
    (hvs : ∀ v ∈ vs, v.toNat < 2 ^ width) (i : Nat) (h : i < vs.length) :
    get ⟨Bytes.toByteArray (payload width vs), width, vs.length⟩ i = .ok vs[i] := by
  have hplace : i / perWord width * 8 + 8 ≤ (Bytes.toByteArray (payload width vs)).size := by
    rw [← Bytes.length_ofArray, Bytes.ofArray_toByteArray, length_payload hwidth]
    exact word_inside hwidth h
  rw [get_eq_field _ hwidth hplace, Bytes.ofArray_toByteArray, value_payload hwidth, field_packedValue _ _ _ h,
    Nat.mod_eq_of_lt (hvs _ (List.getElem_mem h)), UInt64.ofNat_toNat]

end Reader

/-! ## Against bit packing -/

/-- a payload has room for the packed values, and fewer than eight bytes more -/
theorem packedLength_le {width : Nat} (hwidth : isSupported width = true) (count : Nat) :
    packedLength count width ≤ byteLength count width ∧ byteLength count width < packedLength count width + 8 := by
  rcases supported_cases hwidth with rfl | rfl | rfl | rfl <;> simp only [packedLength, byteLength, perWord] <;> omega

/-- the words of a payload are the packed bytes, with zeros behind them up to the end of the last word -/
theorem payload_eq_pack {width : Nat} (hwidth : isSupported width = true) (vs : List UInt64) :
    payload width vs = pack width vs ++ List.replicate (byteLength vs.length width - (pack width vs).length) 0 := by
  have hroom := (packedLength_le hwidth vs.length).1
  rw [← length_pack] at hroom
  apply Bytes.value_inj
  · rw [length_payload hwidth, List.length_append, List.length_replicate, Nat.add_sub_cancel' hroom]
  · rw [value_payload hwidth, Bytes.value_append, Bytes.value_replicate_zero, value_pack, Nat.mul_zero, Nat.add_zero]

/-- a digit that ends within the first bytes is a digit of their value -/
theorem field_take (bs : Bytes) {length width i : Nat} (h : i * width + width ≤ 8 * length) :
    field (value (bs.take length)) width i = field (value bs) width i := by
  by_cases hlong : bs.length ≤ length
  · rw [List.take_of_length_le hlong]
  · have hcut := Bytes.value_append (bs.take length) (bs.drop length)
    have hlow := Bytes.value_lt (bs.take length)
    rw [List.length_take, Nat.min_eq_left (by omega)] at hcut hlow
    rw [List.take_append_drop] at hcut
    have hmod : value (bs.take length) = value bs / 2 ^ 0 % 2 ^ (8 * length) := by
      rw [hcut, Nat.pow_zero, Nat.div_one, ← Bytes.base_pow, Nat.add_mul_mod_self_left, Nat.mod_eq_of_lt hlow]
    rw [field, field, hmod, window_field _ _ _ _ _ h, Nat.zero_add]

/-- **One reader for both.** Whatever the data, a view of it answers what reading packed bits from it answers. -/
theorem Reader.get_eq_get {width length i : Nat} {data : ByteArray} {r : Reader} (hview : ofBytes data width length = .ok r)
    (h : i < length) (hplace : i * width < 2 ^ 64) : r.get i = Packing.get data width i := by
  by_cases hwidth : isSupported width = true
  · rw [ofBytes_eq _ hwidth] at hview
    split_ifs at hview with hshort
    obtain rfl := Except.ok.inj hview
    have hinside := word_inside hwidth h
    have hsize : (data.extract 0 (byteLength length width)).size = byteLength length width := by
      rw [ByteArray.size_extract]
      omega
    have hfield := digit_inside hwidth h
    rw [get_eq_field _ hwidth (by rw [hsize]; exact hinside), Packing.get_eq_field data (by have := width_le hwidth; omega)
      hplace, Bytes.ofArray_extract, List.drop_zero, field_take _ hfield]
  · rw [ofBytes, if_neg hwidth] at hview
    simp at hview

/-- data that ends within the words of so many values is refused -/
theorem Reader.ofBytes_short {width length : Nat} {data : ByteArray} (hwidth : isSupported width = true)
    (h : data.size < byteLength length width) :
    ofBytes data width length = .error (.corruption (.fixedWidthTruncated data.size (byteLength length width))) := by
  rw [ofBytes_eq _ hwidth, if_pos h]

/-- **Fixed-width packing is padded bit packing.** At each of the widths that do not straddle words:
- a writer takes any values that fit and writes the bytes that bit packing writes, with fewer than eight bytes of zeros
  behind them, up to a multiple of eight;
- with anything behind them, these bytes are viewed as so many values; the view answers each of them, and so does reading
  packed bits from the same bytes, as long as the place of its first bit can be counted in a word, which it can for every
  list of words that fits a memory of `2 ^ 64` bytes;
- data too short for the words of so many values is corrupt. -/
theorem fixed_width_packing (width : Nat) (hwidth : width = 1 ∨ width = 2 ∨ width = 4 ∨ width = 8) :
    (∀ vs : List UInt64, (∀ v ∈ vs, v.toNat < 2 ^ width) → ∃ w, Writer.ofValues width vs = .ok w ∧ w.count = vs.length ∧
      w.finish.flatten =
        pack width vs ++ List.replicate (byteLength vs.length width - (pack width vs).length) 0 ∧
      w.finish.flatten.length = byteLength vs.length width ∧ 8 ∣ byteLength vs.length width ∧
      byteLength vs.length width < (pack width vs).length + 8 ∧
      ∀ rest : Bytes, ∃ r, Reader.ofBytes (Bytes.toByteArray (w.finish.flatten ++ rest)) width vs.length = .ok r ∧
        ∀ i (h : i < vs.length), r.get i = .ok vs[i] ∧
          (i * width < 2 ^ 64 → r.get i = Packing.get (Bytes.toByteArray (w.finish.flatten ++ rest)) width i)) ∧
    ∀ (data : ByteArray) (count : Nat), data.size < byteLength count width →
      Reader.ofBytes data width count = .error (.corruption (.fixedWidthTruncated data.size (byteLength count width))) := by
  have hsupported : isSupported width = true := by simpa [isSupported, or_assoc] using hwidth
  refine ⟨fun vs hvs => ?_, fun data count h => Reader.ofBytes_short hsupported h⟩
  obtain ⟨w, hwriter, hcount, hfinish⟩ := writer_spec hsupported hvs
  have hpayload : w.finish.flatten = payload width vs := by rw [hfinish, payload]
  have hpadding := (packedLength_le hsupported vs.length).2
  rw [← length_pack width vs] at hpadding
  refine ⟨w, ?_⟩
  rw [hpayload]
  refine ⟨hwriter, hcount, payload_eq_pack hsupported vs, length_payload hsupported vs, ⟨_, Nat.mul_comm _ _⟩, hpadding,
    fun rest => ⟨_, Reader.ofBytes_payload hsupported vs rest, fun i h => ⟨?_, fun hplace => ?_⟩⟩⟩
  · exact Reader.get_payload hsupported hvs i h
  · exact Reader.get_eq_get (Reader.ofBytes_payload hsupported vs rest) h hplace

/-- seventeen values of four bits: nine bytes of bits, seven of zeros, and one word more than the first sixteen need -/
theorem fixed_width_packing_seventeen :
    let vs := List.replicate 17 (15 : UInt64)
    (∀ v ∈ vs, v.toNat < 2 ^ 4) ∧ ∃ w, Writer.ofValues 4 vs = .ok w ∧ w.count = 17 ∧
      w.finish.flatten = pack 4 vs ++ List.replicate 7 0 ∧
      (∃ r, Reader.ofBytes (Bytes.toByteArray (w.finish.flatten ++ [9])) 4 17 = .ok r ∧ r.get 16 = .ok 15 ∧
        Packing.get (Bytes.toByteArray (w.finish.flatten ++ [9])) 4 16 = .ok 15) ∧
      Reader.ofBytes (Bytes.toByteArray [1, 2, 3]) 4 17 = .error (.corruption (.fixedWidthTruncated 3 16)) := by
  intro vs
  have hvs : ∀ v ∈ vs, v.toNat < 2 ^ 4 := by
    intro v hv
    rw [List.eq_of_mem_replicate hv]
    decide
  obtain ⟨hwritten, hshort⟩ := fixed_width_packing 4 (by decide)
  obtain ⟨w, hwriter, hcount, hbytes, -, -, -, hread⟩ := hwritten vs hvs
  obtain ⟨r, hview, hget⟩ := hread [9]
  obtain ⟨hvalue, hbits⟩ := hget 16 (by decide)
  have hfifteen : r.get 16 = .ok 15 := hvalue
  have hzeros : byteLength vs.length 4 - (pack 4 vs).length = 7 := by
    rw [length_pack, List.length_replicate]
    decide
  rw [hzeros] at hbytes
  exact ⟨hvs, w, hwriter, hcount, hbytes, ⟨r, hview, hfifteen, (hbits (by decide)).symm.trans hfifteen⟩,
    hshort (Bytes.toByteArray [1, 2, 3]) 17 (by decide)⟩

end ColumnStore.Packing.FixedWidth
