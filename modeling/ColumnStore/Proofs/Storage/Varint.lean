/-
Varints in byte strings and in files.

There are two decoders of varints: `Varint.decode` takes one off a byte string, `Reading.varint` reads one at the cursor
of a file. Both look at the same bytes and tell the same of them, whatever they are (`decoders_agree`).

- `varint_codec`: what `encode` writes is the shortest varint of a word, both decoders give the word back and take just
  its bytes, no encoding starts another one, and the decoders agree on everything else too;
- `varints_read_modulo`: a word that is read is the number of its varint modulo `2 ^ 64`. So the word is the number itself
  up to nine bytes, and with ten if the tenth is at most one. Longer varints are refused; a tenth byte above one is not,
  and its high bits are lost.
-/
import ColumnStore.Proofs.Storage.Reading

namespace ColumnStore.Storage

def Input.unread (i : Input) : Bytes := (Bytes.ofArray i.data).drop i.position

namespace Reading

variable {i : Input}

/-! ## Reading one varint -/

theorem varint_whole {whole rest : Bytes} (hin : i.position ≤ i.data.size) (hwhole : Varint.Whole whole)
    (hlength : whole.length ≤ Varint.maxGroups) (hunread : i.unread = whole ++ rest) :
    varint i = .ok (UInt64.ofNat (Varint.number whole)) (i.skip whole.length) :=
  varint_of_decode hin hunread.symm (Varint.decode_whole hwhole hlength rest)

theorem varint_unfinished (hin : i.position ≤ i.data.size) (hlength : i.unread.length < Varint.maxGroups)
    (hall : ∀ b ∈ i.unread, Varint.continues b = true) :
    varint i = .error (i.pastEnd (i.data.size + 1)) { i with position := i.data.size } := by
  rw [varint, varintFrom_eq fits_maxGroups _ hin, ← Input.unread, Varint.decodeFrom_unfinished hall hlength]

theorem varint_long (hin : i.position ≤ i.data.size) (hlength : Varint.maxGroups ≤ i.unread.length)
    (hall : ∀ b ∈ i.unread.take Varint.maxGroups, Varint.continues b = true) :
    varint i = .error (.corruption (.varintTooLong i.name (i.position + Varint.maxGroups))) (i.skip Varint.maxGroups) := by
  rw [varint, varintFrom_eq fits_maxGroups _ hin, ← Input.unread, Varint.decodeFrom_long hall hlength]

/-! ## Two decoders -/

/-- both decoders take the same varint off the unread bytes, or both fail there for the same reason -/
def Agrees (i : Input) : Prop :=
  (∃ v count, count ≤ i.unread.length ∧ Varint.decode i.unread = .ok (v, i.unread.drop count) ∧
      varint i = .ok v (i.skip count)) ∨
    (i.unread.length < Varint.maxGroups ∧ (∀ b ∈ i.unread, Varint.continues b = true) ∧
      Varint.decode i.unread = .error .endOfInput ∧ ∃ j, varint i = .error (i.pastEnd (i.data.size + 1)) j) ∨
    (Varint.maxGroups ≤ i.unread.length ∧ (∀ b ∈ i.unread.take Varint.maxGroups, Varint.continues b = true) ∧
      Varint.decode i.unread = .error .tooLong ∧
      ∃ j, varint i = .error (.corruption (.varintTooLong i.name (i.position + Varint.maxGroups))) j)

theorem decoders_agree (hin : i.position ≤ i.data.size) : Agrees i := by
  rcases Varint.whole_or_continued Varint.maxGroups i.unread with
    ⟨whole, rest, hunread, hwhole, hlength⟩ | ⟨hlength, hall⟩ | ⟨hlength, hall⟩
  · refine .inl ⟨UInt64.ofNat (Varint.number whole), whole.length, ?_, ?_, varint_whole hin hwhole hlength hunread⟩
    · rw [hunread, List.length_append]
      exact Nat.le_add_right _ _
    · rw [hunread, List.drop_left]
      exact Varint.decode_whole hwhole hlength rest
  · exact .inr (.inl ⟨hlength, hall, Varint.decode_eq_endOfInput_iff.2 ⟨hlength, hall⟩, _,
      varint_unfinished hin hlength hall⟩)
  · exact .inr (.inr ⟨hlength, hall, Varint.decode_eq_tooLong_iff.2 ⟨hlength, hall⟩, _, varint_long hin hlength hall⟩)

/-- **The varint codec.** An encoding has one byte for each seven bits of its word, and no bytes that are decoded to this
word are fewer. With anything behind it, both decoders answer the word and take just the encoding, so none is the proper
start of another. On all other bytes the decoders agree as well: they take the same varint, or miss the end of the same
one, or would both need an eleventh group. -/
theorem varint_codec :
    (∀ v : UInt64, (Varint.encode v.toNat).length = max 1 ((v.toNat.size + 6) / 7) ∧
      (Varint.encode v.toNat).length ≤ 10 ∧
      (∀ bs, Varint.decode bs = .ok (v, []) → (Varint.encode v.toNat).length ≤ bs.length) ∧
      (∀ rest, Varint.decode (Varint.encode v.toNat ++ rest) = .ok (v, rest)) ∧
      ∀ i : Input, i.position ≤ i.data.size → Varint.encode v.toNat <+: i.unread →
        varint i = .ok v (i.skip (Varint.encode v.toNat).length)) ∧
    (∀ v w : UInt64, Varint.encode v.toNat <+: Varint.encode w.toNat → v = w) ∧
    ∀ i : Input, i.position ≤ i.data.size → Agrees i := by
  refine ⟨fun v => ?_, fun v w hprefix => ?_, fun i hin => decoders_agree hin⟩
  · have hshort : (Varint.encode v.toNat).length ≤ 10 :=
      Varint.length_encode_le (by decide) (lt_of_lt_of_le v.toNat_lt (by decide))
    have hback : ∀ rest, Varint.decode (Varint.encode v.toNat ++ rest) = .ok (v, rest) := by
      intro rest
      rw [Varint.decode_encode_append v.toNat_lt, UInt64.ofNat_toNat]
    refine ⟨Varint.length_encode _, hshort, fun bs hbs => ?_, hback, fun i hin hprefix => ?_⟩
    · obtain ⟨whole, rfl, hwhole, hlength, rfl⟩ := Varint.decode_eq_ok_iff.1 hbs
      rw [List.append_nil]
      -- the word is not above the number that was read
      have hle : (UInt64.ofNat (Varint.number whole)).toNat ≤ Varint.number whole := by
        rw [UInt64.toNat_ofNat']
        exact Nat.mod_le _ _
      exact Varint.length_encode_le hwhole.length_pos (lt_of_le_of_lt hle (Varint.number_lt whole))
    · obtain ⟨rest, hrest⟩ := hprefix
      exact varint_of_decode hin hrest (hback rest)
  · have heq := (Varint.whole_encode _).eq_of_start (Varint.whole_encode _) hprefix
    rw [← UInt64.toNat_inj, ← Varint.number_encode v.toNat, heq, Varint.number_encode]

/-- 300 takes two bytes, is read back from in front of another byte, and from a form with a byte more than it needs -/
theorem varint_codec_three_hundred :
    let i : Input := { name := "in", data := Bytes.toByteArray [0xAC, 0x02, 0x07] }
    i.position ≤ i.data.size ∧ Varint.encode 300 <+: i.unread ∧ varint i = .ok 300 (i.skip 2) ∧
      Varint.decode [0xAC, 0x82, 0x00] = .ok (300, []) ∧ (Varint.encode 300).length ≤ 3 ∧ Agrees i ∧
      (Varint.encode 300 <+: Varint.encode 300 → (300 : UInt64) = 300) := by
  intro i
  have hencode : Varint.encode 300 = [0xAC, 0x02] := by
    rw [Varint.encode_of_le (by decide), Varint.encode_of_lt (by decide)]
    rfl
  have hin : i.position ≤ i.data.size := by decide
  have hprefix : Varint.encode 300 <+: i.unread := hencode ▸ ⟨[0x07], rfl⟩
  have hlonger : Varint.decode [0xAC, 0x82, 0x00] = .ok (300, []) := rfl
  obtain ⟨-, -, hleast, -, hread⟩ := varint_codec.1 300
  have hvalue := hread i hin hprefix
  rw [show (300 : UInt64).toNat = 300 from rfl, hencode] at hvalue
  exact ⟨hin, hprefix, hvalue, hlonger, hleast _ hlonger, varint_codec.2.2 i hin, varint_codec.2.1 300 300⟩

/-! ## Numbers of 64 bits -/

/-- these bytes are a varint, and one that is read as this word -/
structure ReadAs (bs : Bytes) (v : UInt64) : Prop where
  whole : Varint.Whole bs
  short : bs.length ≤ Varint.maxGroups
  modulo : v.toNat = Varint.number bs % 2 ^ 64
  number_iff : v.toNat = Varint.number bs ↔ ¬ ∃ b, bs[9]? = some b ∧ 1 < b.toNat

theorem readAs_ofNat {bs : Bytes} (hwhole : Varint.Whole bs) (hlength : bs.length ≤ Varint.maxGroups) :
    ReadAs bs (UInt64.ofNat (Varint.number bs)) where
  whole := hwhole
  short := hlength
  modulo := UInt64.toNat_ofNat' ..
  number_iff := by
    rw [UInt64.toNat_ofNat', Nat.mod_eq_iff_lt (by decide), ← hwhole.large_iff hlength, not_le]

/-- **Varints are read modulo `2 ^ 64`.** Whatever bytes are ahead and whatever word a decoder answers, it took one whole
varint of at most ten bytes, and the word is its number modulo `2 ^ 64`: the number itself unless the tenth byte is above
one. What is refused for its length is just the varints of more than ten bytes, whatever their numbers. -/
theorem varints_read_modulo (i : Input) (hin : i.position ≤ i.data.size) :
    (∀ (v : UInt64) (rest : Bytes), Varint.decode i.unread = .ok (v, rest) →
      ∃ whole, i.unread = whole ++ rest ∧ ReadAs whole v) ∧
    (∀ (v : UInt64) (j : Input), varint i = .ok v j →
      ∃ whole, whole <+: i.unread ∧ j = i.skip whole.length ∧ ReadAs whole v) ∧
    ∀ whole, Varint.Whole whole → whole <+: i.unread →
      (Varint.decode i.unread = .error .tooLong ↔ Varint.maxGroups < whole.length) ∧
      ((∃ j, varint i = .error (.corruption (.varintTooLong i.name (i.position + Varint.maxGroups))) j) ↔
        Varint.maxGroups < whole.length) := by
  refine ⟨fun v rest h => ?_, fun v j h => ?_, fun whole hwhole hprefix => ?_⟩
  · obtain ⟨whole, hunread, hwhole, hlength, rfl⟩ := Varint.decode_eq_ok_iff.1 h
    exact ⟨whole, hunread, readAs_ofNat hwhole hlength⟩
  · rcases Varint.whole_or_continued Varint.maxGroups i.unread with
      ⟨whole, rest, hunread, hwhole, hlength⟩ | ⟨hlength, hall⟩ | ⟨hlength, hall⟩
    · rw [varint_whole hin hwhole hlength hunread] at h
      obtain ⟨rfl, rfl⟩ : UInt64.ofNat (Varint.number whole) = v ∧ i.skip whole.length = j := by simpa using h
      exact ⟨whole, hunread ▸ List.prefix_append .., rfl, readAs_ofNat hwhole hlength⟩
    · rw [varint_unfinished hin hlength hall] at h
      cases h
    · rw [varint_long hin hlength hall] at h
      cases h
  · obtain ⟨rest, hunread⟩ := hprefix
    by_cases hlong : Varint.maxGroups < whole.length
    · have hlength : Varint.maxGroups ≤ i.unread.length := by
        rw [← hunread, List.length_append]
        omega
      have hall := hunread ▸ hwhole.continues_take hlong rest
      exact ⟨iff_of_true (Varint.decode_eq_tooLong_iff.2 ⟨hlength, hall⟩) hlong,
        iff_of_true ⟨_, varint_long hin hlength hall⟩ hlong⟩
    · have hdecode := Varint.decode_whole hwhole (not_lt.1 hlong) rest
      have hread := varint_whole hin hwhole (not_lt.1 hlong) hunread.symm
      rw [hunread] at hdecode
      exact ⟨iff_of_false (by simp [hdecode]) hlong, iff_of_false (by simp [hread]) hlong⟩

/-- a varint of ten bytes whose last byte is two: its number does not fit 64 bits, and it is read as zero -/
theorem varints_read_modulo_ten :
    let bs : Bytes := List.replicate 9 0x80 ++ [0x02]
    let i : Input := { name := "in", data := Bytes.toByteArray bs }
    i.position ≤ i.data.size ∧ i.unread = bs ∧ Varint.Whole bs ∧ Varint.number bs = 2 ^ 64 ∧
      Varint.decode bs = .ok (0, []) ∧ varint i = .ok 0 (i.skip 10) ∧ ReadAs bs 0 ∧
      (∃ whole, whole <+: i.unread ∧ i.skip 10 = i.skip whole.length ∧ ReadAs whole 0) ∧
      Varint.decode bs ≠ .error .tooLong ∧
      ¬ ∃ j, varint i = .error (.corruption (.varintTooLong i.name (i.position + Varint.maxGroups))) j := by
  intro bs i
  have hin : i.position ≤ i.data.size := by decide
  have hwhole : Varint.Whole bs := by
    simp only [bs, List.replicate, List.cons_append, List.nil_append]
    repeat (first | exact .last rfl | refine .more rfl ?_)
  have hnumber : Varint.number bs = 2 ^ 64 := by decide
  have hdecode : Varint.decode bs = .ok (0, []) := rfl
  have hread : varint i = .ok 0 (i.skip 10) := by
    have hwholeRead := varint_whole hin hwhole (by decide) (show i.unread = bs ++ [] from rfl)
    rwa [hnumber] at hwholeRead
  obtain ⟨hdecoded, hanswered, hrefused⟩ := varints_read_modulo i hin
  obtain ⟨whole, hunread, hvalue⟩ := hdecoded 0 [] hdecode
  obtain ⟨htaken, htakenRead⟩ := hrefused bs hwhole (List.prefix_refl bs)
  rw [List.append_nil] at hunread
  obtain rfl : bs = whole := hunread
  refine ⟨hin, rfl, hwhole, hnumber, hdecode, hread, hvalue, hanswered 0 _ hread, ?_, ?_⟩
  · rw [ne_eq, ← show i.unread = bs from rfl, htaken]
    decide
  · rw [htakenRead]
    decide

end Reading

end ColumnStore.Storage
