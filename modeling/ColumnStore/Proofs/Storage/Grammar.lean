/-
Readings and the bytes that they take.

`Sound r G` says that a reading that succeeds has taken bytes from which `G` derives its answer, and `Takes` is the other
direction: with such bytes ahead it succeeds, and takes just them. `Within r count` bounds the bytes a reading takes, also
if it fails. All three follow the steps of a reading (`Sound.bind`, `Takes.bind`, `Within.bind`).

The primitives are given from both sides, for any bytes that are read as a value and not only for those that are written
for it: `Word32` for numbers of 32 bits, which have many varints, and eight bytes for a signed word.
-/
import ColumnStore.Proofs.Storage.Cursor

namespace ColumnStore.Storage.Reading

variable {α β γ : Type} {r : Reading α} {f : α → Reading β} {G : α → Bytes → Prop} {K : β → Bytes → Prop} {m n : Nat}

/-! ## Soundness -/

/-- a reading that succeeds has taken bytes that are derived from its answer -/
def Sound (r : Reading α) (G : α → Bytes → Prop) : Prop := ∀ i a j, i.position ≤ i.data.size → r i = .ok a j →
  ∃ bs, bs <+: i.unread ∧ j = i.skip bs.length ∧ G a bs

theorem sound_pure {a : α} (h : G a []) : Sound (pure a) G := by
  rintro i b j _ hpure
  obtain ⟨rfl, rfl⟩ : a = b ∧ i = j := by simpa [pure, EStateM.pure] using hpure
  exact ⟨[], List.nil_prefix, rfl, h⟩

theorem sound_corrupt (cause : Input → Corruption) : Sound (corrupt cause) G := by
  intro i a j _ h
  simp [corrupt] at h

theorem sound_corrupt_bind (cause : Input → Corruption) (g : γ → Reading α) : Sound (corrupt cause >>= g) G := by
  intro i a j _ h
  simp [corrupt, bind, EStateM.bind] at h

/-- the bytes of the second step stand behind those of the first -/
theorem Sound.bind (hr : Sound r G) (hf : ∀ a xs, G a xs → Sound (f a) fun b ys => K b (xs ++ ys)) :
    Sound (r >>= f) K := by
  intro i b k hin h
  cases hfirst : r i with
  | error e j =>
    rw [bind_error hfirst] at h
    cases h
  | ok a j =>
    rw [bind_ok hfirst] at h
    obtain ⟨xs, hxs, rfl, ha⟩ := hr i a j hin hfirst
    obtain ⟨rest, hrest⟩ := hxs
    have hlength := congrArg List.length hrest
    rw [List.length_append, Input.unread, List.length_drop, Bytes.length_ofArray] at hlength
    have hrestUnread : (i.skip xs.length).unread = rest := by
      rw [Input.unread, Input.skip_data, Input.skip_position, ← List.drop_drop, ← Input.unread, ← hrest, List.drop_left]
    have hin' : (i.skip xs.length).position ≤ (i.skip xs.length).data.size := by
      rw [Input.skip_position, Input.skip_data]
      omega
    obtain ⟨ys, hys, rfl, hb⟩ := hf a xs ha _ b k hin' h
    refine ⟨xs ++ ys, ?_, by rw [Input.skip_skip, List.length_append], hb⟩
    rw [← hrest]
    exact (List.prefix_append_right_inj xs).2 (hrestUnread ▸ hys)

theorem sound_byte : Sound byte fun b bs => bs = [b] := by
  intro i b j _ h
  unfold byte at h
  split_ifs at h with hinside
  obtain ⟨rfl, rfl⟩ : i.data[i.position] = b ∧ { i with position := i.position + 1 } = j := by simpa using h
  refine ⟨_, ?_, rfl, rfl⟩
  have hhead : i.unread.head? = some i.data[i.position] := by
    rw [Input.unread, List.head?_drop, Bytes.getElem?_ofArray _ hinside]
  obtain ⟨rest, hrest⟩ := List.head?_eq_some_iff.1 hhead
  exact ⟨rest, hrest.symm⟩

theorem sound_bytes (count : Nat) : Sound (bytes count) fun a bs => bs.length = count ∧ Bytes.ofArray a = bs := by
  intro i a j _ h
  rw [bytes_eq] at h
  split_ifs at h with hlimit hend
  obtain ⟨rfl, rfl⟩ : i.data.extract i.position (i.position + count) = a ∧
    { i with position := i.position + count } = j := by simpa using h
  have htaken : Bytes.ofArray (i.data.extract i.position (i.position + count)) = i.unread.take count := by
    rw [Bytes.ofArray_extract, List.drop_take, Nat.add_sub_cancel_left, Input.unread]
  have hlength : (i.unread.take count).length = count := by
    rw [List.length_take, Input.unread, List.length_drop, Bytes.length_ofArray]
    omega
  refine ⟨i.unread.take count, List.take_prefix _ _, ?_, hlength, htaken⟩
  rw [hlength]
  rfl

theorem sound_littleEndian (width : Nat) :
    Sound (littleEndian width) fun n bs => bs.length = width ∧ n = Bytes.value bs := by
  refine (sound_bytes width).bind fun a bs ha => sound_pure ?_
  obtain ⟨hlength, rfl⟩ := ha
  rw [List.append_nil]
  exact ⟨hlength, rfl⟩

/-- these eight bytes are a signed word, the lowest byte first -/
structure Word64 (v : Int64) (bs : Bytes) : Prop where
  length : bs.length = 8
  value : (UInt64.ofNat (Bytes.value bs)).toInt64 = v

theorem sound_int64 : Sound int64 Word64 := by
  refine (sound_littleEndian 8).bind fun n bs hn => sound_pure ?_
  obtain ⟨hlength, rfl⟩ := hn
  rw [List.append_nil]
  exact ⟨hlength, rfl⟩

/-- these bytes are a varint that is read as a number of 32 bits -/
structure Word32 (v : UInt32) (bs : Bytes) : Prop where
  whole : Varint.Whole bs
  short : bs.length ≤ Varint.maxGroups
  modulo : Varint.number bs % 2 ^ 64 = v.toNat

theorem sound_varint : Sound varint fun v bs =>
    Varint.Whole bs ∧ bs.length ≤ Varint.maxGroups ∧ v = UInt64.ofNat (Varint.number bs) := by
  intro i v j hin h
  rcases Varint.whole_or_continued Varint.maxGroups i.unread with
    ⟨whole, rest, hunread, hwhole, hlength⟩ | ⟨hlength, hall⟩ | ⟨hlength, hall⟩
  · rw [varint_whole hin hwhole hlength hunread] at h
    obtain ⟨rfl, rfl⟩ : UInt64.ofNat (Varint.number whole) = v ∧ i.skip whole.length = j := by simpa using h
    exact ⟨whole, hunread ▸ List.prefix_append .., rfl, hwhole, hlength, rfl⟩
  · rw [varint_unfinished hin hlength hall] at h
    cases h
  · rw [varint_long hin hlength hall] at h
    cases h

theorem sound_varint32 : Sound varint32 Word32 := by
  refine sound_varint.bind fun v bs hv => ?_
  obtain ⟨hwhole, hlength, rfl⟩ := hv
  split_ifs with hnarrow
  · refine sound_pure ?_
    rw [List.append_nil]
    refine ⟨hwhole, hlength, ?_⟩
    rw [UInt64.toNat_toUInt32, Nat.mod_eq_of_lt hnarrow, UInt64.toNat_ofNat']
  · exact sound_corrupt _

/-! ## Completeness -/

variable {bs : Bytes}

theorem takes_word32 {v : UInt32} (h : Word32 v bs) : Takes varint32 bs v := by
  have hvarint : Takes varint bs (UInt64.ofNat (Varint.number bs)) := by
    intro i hi
    obtain ⟨rest, hrest⟩ := hi.found
    exact varint_whole hi.inside h.whole h.short hrest.symm
  refine hvarint.bind_last ?_
  have hvalue : (UInt64.ofNat (Varint.number bs)).toNat = v.toNat := by rw [UInt64.toNat_ofNat', h.modulo]
  have hback : (UInt64.ofNat (Varint.number bs)).toUInt32 = v := by
    rw [← UInt32.toNat_inj, UInt64.toNat_toUInt32, hvalue, Nat.mod_eq_of_lt v.toNat_lt]
  rw [if_pos (hvalue ▸ v.toNat_lt), hback]
  exact takes_pure v

theorem takes_word64 {v : Int64} (h : Word64 v bs) : Takes int64 bs v := by
  have hnumber : Takes (littleEndian 8) bs (Bytes.value bs) := by
    refine (takes_bytes h.length).bind_last ?_
    rw [Bytes.ofArray_toByteArray]
    exact takes_pure _
  refine hnumber.bind_last ?_
  rw [h.value]
  exact takes_pure v

/-! ## Bounds -/

/-- a reading takes at most `count` bytes, whether it answers or fails -/
def Within (r : Reading α) (count : Nat) : Prop := ∀ i, (r.leave i).position ≤ i.position + count

theorem within_pure (a : α) : Within (pure a) 0 := fun _ => le_rfl

theorem within_corrupt (cause : Input → Corruption) : Within (corrupt cause : Reading α) 0 := fun _ => le_rfl

theorem within_corrupt_bind (cause : Input → Corruption) (g : γ → Reading α) : Within (corrupt cause >>= g) 0 :=
  fun _ => le_rfl

theorem Within.mono (hr : Within r m) (h : m ≤ n) : Within r n := fun i => (hr i).trans (Nat.add_le_add_left h _)

theorem Within.bind (hr : Within r m) (hf : ∀ a, Within (f a) n) : Within (r >>= f) (m + n) := by
  intro i
  have hfirst := hr i
  cases hri : r i with
  | ok a j =>
    rw [leave_ok hri] at hfirst
    have hrest := hf a j
    rw [leave, bind_ok hri, ← leave]
    omega
  | error e j =>
    rw [leave_error hri] at hfirst
    rw [leave_error (bind_error hri)]
    omega

theorem within_byte : Within byte 1 := by
  intro i
  unfold leave byte
  by_cases h : i.position < i.data.size
  · rw [dif_pos h]
  · rw [dif_neg h]
    exact Nat.le_add_right _ _

theorem within_bytes (count : Nat) : Within (bytes count) count := by
  intro i
  unfold leave
  rw [bytes_eq]
  by_cases hlimit : addressLimit ≤ i.position + count
  · rw [if_pos hlimit]
    exact Nat.le_add_right _ _
  · rw [if_neg hlimit]
    by_cases hend : i.data.size < i.position + count
    · rw [if_pos hend]
      exact Nat.le_add_right _ _
    · rw [if_neg hend]

theorem within_int64 : Within int64 8 := ((within_bytes 8).bind fun _ => within_pure _).bind fun _ => within_pure _

theorem within_varintFrom {groups : Nat} {shift : UInt64} (h : Fits groups shift) (acc : UInt64) :
    Within (varintFrom groups shift acc) groups := by
  induction groups generalizing shift acc with
  | zero => exact within_corrupt _
  | succ groups ih =>
    rw [varintFrom_succ h, Nat.add_comm]
    refine within_byte.bind fun b => ?_
    split_ifs
    · exact ih h.next _
    · exact (within_pure _).mono (Nat.zero_le _)

theorem within_varint : Within varint 10 := within_varintFrom fits_maxGroups 0

theorem within_varint32 : Within varint32 10 := by
  refine within_varint.bind (n := 0) fun value => ?_
  split_ifs
  · exact within_pure _
  · exact within_corrupt _

end ColumnStore.Storage.Reading
