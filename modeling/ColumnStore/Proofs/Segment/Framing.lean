/-
Headers and footers.

- `takes_checkHeader`: a header is read back by a reader that expects just what was written;
- `checkFooter_eq_ok_iff`: the files that a footer check accepts are those that end in the footer of what stands before
  it;
- `checkFooter_damaged`: so a file that was changed in at most four consecutive bytes is refused, wherever they are.
-/
import ColumnStore.Proofs.Bytes.Burst
import ColumnStore.Proofs.Storage.Checked
import ColumnStore.Proofs.Storage.Reading
import ColumnStore.Segment.Basic

namespace ColumnStore

open Storage

/-! ## Texts -/

namespace Text.Utf8

def IsAscii (text : String) : Prop := ∀ c ∈ text.toList, c.toNat < 128

end Text.Utf8

namespace Framing

theorem isName_iff {name : String} : isName name = true ↔ Text.Utf8.IsAscii name ∧ name.utf8ByteSize ≤ maxNameLength := by
  simp [isName, Text.Utf8.IsAscii]

/-! ## Headers -/

/-- a name is short enough for its length to be counted -/
theorem utf8ByteSize_lt {name : String} (h : isName name = true) : name.utf8ByteSize < 2 ^ 32 :=
  lt_of_le_of_lt (isName_iff.1 h).2 (by decide)

def headerBytes (h : Identity) : Bytes :=
  Bytes.ofUInt32 magic ++ ((Piece.text h.codec).flatten ++ (Bytes.ofUInt32 h.version ++ (h.id.toBytes ++
    ([UInt8.ofNat h.suffix.utf8ByteSize] ++ Bytes.ofText h.suffix))))

theorem headerPieces_eq {h : Identity} (hcodec : isName h.codec = true) (hsuffix : isName h.suffix = true) :
    ∃ pieces, headerPieces h = .ok pieces ∧ pieces.flatten = headerBytes h := by
  refine ⟨[Bytes.ofUInt32 magic] ++ Piece.text h.codec ++
      [Bytes.ofUInt32 h.version, h.id.toBytes, [UInt8.ofNat h.suffix.utf8ByteSize], Bytes.ofText h.suffix], ?_, ?_⟩
  · simp only [headerPieces, hcodec, hsuffix, Bool.and_self, if_true]
  · simp [headerBytes]

/-- only a header of names has pieces -/
theorem isName_of_headerPieces {h : Identity} {pieces : List Bytes} (hp : headerPieces h = .ok pieces) :
    isName h.codec = true ∧ isName h.suffix = true := by
  unfold headerPieces at hp
  split_ifs at hp with hn
  simpa using hn

theorem length_suffix {name : String} (h : isName name = true) :
    (Bytes.ofText name).length = (UInt8.ofNat name.utf8ByteSize).toNat := by
  have hlength := (isName_iff.1 h).2
  unfold maxNameLength at hlength
  rw [Text.Utf8.length_ofText, UInt8.toNat_ofNat', Nat.mod_eq_of_lt (by omega)]

/-- **A header is read back** by a reader that expects what it says, in a range of versions around its own. -/
theorem takes_checkHeader {h : Identity} (least most : UInt32) (hcodec : isName h.codec = true)
    (hsuffix : isName h.suffix = true) (hleast : least ≤ h.version) (hmost : h.version ≤ most) :
    Reading.Takes (checkHeader h.codec least most h.id h.suffix) (headerBytes h) h.version := by
  have hversion : ¬ (h.version < least ∨ most < h.version) := by
    rw [not_or]
    exact ⟨UInt32.not_lt.2 hleast, UInt32.not_lt.2 hmost⟩
  unfold checkHeader headerBytes
  refine (Reading.takes_uint32 magic).bind ?_
  rw [if_neg (by simp)]
  refine (Reading.takes_text (utf8ByteSize_lt hcodec)).bind ?_
  rw [if_neg (by simp)]
  refine (Reading.takes_uint32 h.version).bind ?_
  rw [if_neg hversion]
  refine (Reading.takes_uint128 h.id.bits).bind ?_
  rw [if_neg (by simp)]
  refine (Reading.takes_byte _).bind ?_
  refine (Reading.takes_bytes (length_suffix hsuffix)).bind_last ?_
  rw [Bytes.ofArray_toByteArray, if_neg (by simp)]
  exact Reading.takes_pure h.version

/-- **Checking a header** finds nothing worse than a corrupt file. -/
theorem checked_checkHeader (codec : String) (least most : UInt32) (id : SegmentId) (suffix : String) :
    Reading.Checked (checkHeader codec least most id suffix) fun _ => True := by
  unfold checkHeader
  refine Reading.checked_uint32.bind fun found _ => ?_
  split_ifs
  · exact Reading.checked_corrupt_bind _ _
  refine Reading.checked_text.bind fun foundCodec _ => ?_
  split_ifs
  · exact Reading.checked_corrupt_bind _ _
  refine Reading.checked_uint32.bind fun version _ => ?_
  split_ifs
  · exact Reading.checked_corrupt_bind _ _
  refine Reading.checked_uint128.bind fun bits _ => ?_
  dsimp only
  split_ifs
  · exact Reading.checked_corrupt_bind _ _
  refine Reading.checked_byte.bind fun length _ => ?_
  refine (Reading.checked_bytes _).bind fun bs _ => ?_
  split_ifs
  · exact Reading.checked_corrupt_bind _ _
  · exact Reading.checked_pure trivial

theorem length_headerBytes_le {h : Identity} (hcodec : isName h.codec = true) (hsuffix : isName h.suffix = true) :
    (headerBytes h).length ≤ 300 := by
  have hcodecLength := (isName_iff.1 hcodec).2
  have hsuffixLength := (isName_iff.1 hsuffix).2
  unfold maxNameLength at hcodecLength hsuffixLength
  have hvarint : (Varint.encode h.codec.utf8ByteSize).length ≤ 5 :=
    Varint.length_encode_le (by decide) (lt_of_le_of_lt hcodecLength (by decide))
  simp only [headerBytes, Reading.flatten_text (utf8ByteSize_lt hcodec), List.length_append, Text.Utf8.length_ofText,
    Bytes.ofUInt32, SegmentId.toBytes, Bytes.ofBitVec128, Bytes.length_littleEndian, List.length_singleton]
  omega

/-- a file that starts with a header has it ahead, however long the file is -/
theorem ahead_headerBytes {h : Identity} {name : String} {file : ByteArray} {rest : Bytes}
    (hcodec : isName h.codec = true) (hsuffix : isName h.suffix = true)
    (hfile : Bytes.ofArray file = headerBytes h ++ rest) : Input.Ahead { name := name, data := file } (headerBytes h) := by
  have hshort := length_headerBytes_le hcodec hsuffix
  refine ⟨Nat.zero_le _, ?_, ?_⟩
  · rw [Nat.zero_add, addressLimit]
    omega
  · rw [List.drop_zero, hfile]
    exact List.prefix_append _ _

/-! ## Footers -/

/-- what stands in a footer before the checksum -/
def footerStart : Bytes := Bytes.ofUInt32 footerMagic ++ Bytes.ofUInt32 crcAlgorithm

theorem footer_eq (body : Bytes) :
    footer body = footerStart ++ Bytes.ofUInt64 (Crc32.checksum (body ++ footerStart)).toUInt64 := rfl

theorem length_footerStart : footerStart.length = 8 := rfl

theorem length_footer (body : Bytes) : (footer body).length = footerSize := by
  rw [footer_eq, List.length_append, length_footerStart, Bytes.ofUInt64, Bytes.length_littleEndian]
  rfl

/-- four bytes are the word that they stand for -/
theorem eq_ofUInt32_iff {bs : Bytes} (h : bs.length = 4) (w : UInt32) :
    UInt32.ofNat (Bytes.value bs) = w ↔ bs = Bytes.ofUInt32 w := by
  have hlt := Bytes.value_lt bs
  rw [h] at hlt
  constructor
  · rintro rfl
    have hback := Bytes.littleEndian_value bs
    rw [h] at hback
    rw [Bytes.ofUInt32, UInt32.toNat_ofNat', Nat.mod_eq_of_lt (show Bytes.value bs < 2 ^ 32 from hlt), hback]
  · rintro rfl
    rw [Bytes.ofUInt32, Bytes.value_littleEndian, Nat.mod_eq_of_lt (show w.toNat < 256 ^ 4 from w.toNat_lt),
      UInt32.ofNat_toNat]

/-- eight bytes are a checksum if their number has no high bits, and is that checksum -/
theorem eq_ofChecksum_iff {bs : Bytes} (h : bs.length = 8) (w : UInt32) :
    (UInt64.ofNat (Bytes.value bs) >>> 32 = 0 ∧ (UInt64.ofNat (Bytes.value bs)).toUInt32 = w) ↔
      bs = Bytes.ofUInt64 w.toUInt64 := by
  have hlt := Bytes.value_lt bs
  rw [h] at hlt
  have hvalue : (UInt64.ofNat (Bytes.value bs)).toNat = Bytes.value bs := by
    rw [UInt64.toNat_ofNat', Nat.mod_eq_of_lt (show Bytes.value bs < 2 ^ 64 from hlt)]
  have hhigh : UInt64.ofNat (Bytes.value bs) >>> 32 = 0 ↔ Bytes.value bs < 2 ^ 32 := by
    rw [← UInt64.toNat_inj, UInt64.toNat_shiftRight, hvalue]
    change Bytes.value bs >>> 32 = 0 ↔ _
    rw [Nat.shiftRight_eq_div_pow, Nat.div_eq_zero_iff]
    simp
  have hw := w.toNat_lt
  rw [hhigh, ← UInt32.toNat_inj, UInt64.toNat_toUInt32, hvalue]
  constructor
  · rintro ⟨hsmall, hword⟩
    rw [Nat.mod_eq_of_lt hsmall] at hword
    have hback := Bytes.littleEndian_value bs
    rw [h, hword] at hback
    exact hback.symm
  · rintro rfl
    have hnumber : Bytes.value (Bytes.ofUInt64 w.toUInt64) = w.toNat := by
      rw [Bytes.ofUInt64, Bytes.value_littleEndian, UInt32.toNat_toUInt64, Nat.mod_eq_of_lt (by omega)]
    rw [hnumber]
    exact ⟨hw, Nat.mod_eq_of_lt hw⟩

/-- a file that is long enough is cut into the parts that a footer check looks at -/
theorem exists_parts {bs : Bytes} (h : footerSize ≤ bs.length) :
    ∃ body start algorithm stored : Bytes, bs = body ++ (start ++ (algorithm ++ stored)) ∧ start.length = 4 ∧
      algorithm.length = 4 ∧ stored.length = 8 := by
  unfold footerSize at h
  set n := bs.length - 16
  have hfirst : (bs.drop n).drop 4 = bs.drop (n + 4) := List.drop_drop
  have hsecond : (bs.drop (n + 4)).drop 4 = bs.drop (n + 8) := List.drop_drop
  refine ⟨bs.take n, (bs.drop n).take 4, (bs.drop (n + 4)).take 4, bs.drop (n + 8), ?_, ?_, ?_, ?_⟩
  · rw [← hsecond, List.take_append_drop, ← hfirst, List.take_append_drop, List.take_append_drop]
  · rw [List.length_take, List.length_drop]
    omega
  · rw [List.length_take, List.length_drop]
    omega
  · rw [List.length_drop]
    omega

/-- the footer check of a file by its parts: everything it cuts out is there -/
theorem checkFooter_parts {i : Input} {body start algorithm stored : Bytes}
    (hdata : Bytes.ofArray i.data = body ++ (start ++ (algorithm ++ stored))) (hstart : start.length = 4)
    (halgorithm : algorithm.length = 4) (hstored : stored.length = 8) :
    checkFooter i =
      let found := UInt32.ofNat start.value
      let number := UInt32.ofNat algorithm.value
      let sum := UInt64.ofNat stored.value
      let actual := Crc32.checksum (body ++ (start ++ algorithm))
      if found ≠ footerMagic then .error (.corruption (.footerMagic i.name found))
      else if number ≠ crcAlgorithm then .error (.corruption (.unknownAlgorithm i.name number))
      else if sum >>> 32 ≠ 0 then .error (.corruption (.illegalChecksum i.name sum))
      else if sum.toUInt32 ≠ actual then .error (.corruption (.checksumDiffers i.name sum.toUInt32 actual))
      else .ok body.length := by
  have hlength : i.length = body.length + 16 := by
    rw [Input.length, ← Bytes.length_ofArray, hdata]
    simp only [List.length_append]
    omega
  have hsize : i.data.size = body.length + 16 := hlength
  have hplace : Strict.sub i.length footerSize = .ok body.length := by
    rw [hlength, footerSize, Strict.sub_eq (Nat.le_add_left 16 body.length), Nat.add_sub_cancel]
  have hword : wordAt i.data body.length = .ok (UInt32.ofNat start.value) := by
    rw [wordAt, Strict.slice_eq (by omega) (by omega)]
    change Except.ok (UInt32.ofNat (Bytes.ofArray (ByteArray.extract _ _ _)).value) = _
    rw [Bytes.ofArray_extract, List.drop_take, Nat.add_sub_cancel_left, hdata, List.drop_left, ← hstart, List.take_left]
  have hnumber : wordAt i.data (body.length + 4) = .ok (UInt32.ofNat algorithm.value) := by
    rw [wordAt, Strict.slice_eq (by omega) (by omega)]
    change Except.ok (UInt32.ofNat (Bytes.ofArray (ByteArray.extract _ _ _)).value) = _
    rw [Bytes.ofArray_extract, List.drop_take, Nat.add_sub_cancel_left, hdata, ← List.append_assoc, ← hstart,
      ← List.length_append, List.drop_left, hstart, ← halgorithm, List.take_left]
  have hfront : (body ++ (start ++ algorithm)).length = body.length + 8 := by
    simp only [List.length_append]
    omega
  have hcut : Bytes.ofArray i.data = (body ++ (start ++ algorithm)) ++ stored := by simp [hdata]
  have hlast : Bytes.ofArray (i.data.extract (body.length + 8) i.length) = stored := by
    rw [Bytes.ofArray_extract, List.take_of_length_le (by rw [Bytes.length_ofArray]; rfl), hcut, ← hfront, List.drop_left]
  have hfirst : Bytes.ofArray (i.data.extract 0 (body.length + 8)) = body ++ (start ++ algorithm) := by
    rw [Bytes.ofArray_extract, hcut, List.drop_zero, ← hfront, List.take_left]
  have hlong : ¬ i.length < footerSize := by
    rw [hlength, footerSize]
    omega
  simp only [checkFooter, hlong, if_false, hplace, hword, hnumber, bind, Except.bind,
    Strict.slice_eq (show body.length + 8 ≤ i.length by omega) (show i.length ≤ i.data.size from le_refl _),
    Strict.slice_eq (Nat.zero_le (body.length + 8)) (show body.length + 8 ≤ i.data.size by omega), hlast, hfirst]

/-- what a footer check accepts, by the parts of the file -/
theorem checkFooter_parts_iff {i : Input} {body start algorithm stored : Bytes}
    (hdata : Bytes.ofArray i.data = body ++ (start ++ (algorithm ++ stored))) (hstart : start.length = 4)
    (halgorithm : algorithm.length = 4) (hstored : stored.length = 8) (stop : Nat) :
    checkFooter i = .ok stop ↔ stop = body.length ∧ UInt32.ofNat (Bytes.value start) = footerMagic ∧
      UInt32.ofNat (Bytes.value algorithm) = crcAlgorithm ∧ (UInt64.ofNat (Bytes.value stored) >>> 32 = 0 ∧
        (UInt64.ofNat (Bytes.value stored)).toUInt32 = Crc32.checksum (body ++ (start ++ algorithm))) := by
  rw [checkFooter_parts hdata hstart halgorithm hstored]
  dsimp only
  split_ifs with hmagic hcrc hhigh hsum
  · simp [hmagic]
  · simp [hcrc]
  · simp [hhigh]
  · exact ⟨fun h => by simp at h, fun h => absurd h.2.2.2.2 hsum⟩
  · have hmagic := not_not.1 hmagic
    have hcrc := not_not.1 hcrc
    have hhigh := not_not.1 hhigh
    have hsum := not_not.1 hsum
    simp only [Except.ok.injEq, hmagic, hcrc, hhigh, hsum, and_self, and_true]
    exact eq_comm

theorem checkFooter_short {i : Input} (h : i.length < footerSize) :
    checkFooter i = .error (.corruption (.tooShortForFooter i.name i.length)) := by
  rw [checkFooter, if_pos h]

/-- **What a footer check accepts**: the files that end in the footer of what stands before it. -/
theorem checkFooter_eq_ok_iff {i : Input} {stop : Nat} :
    checkFooter i = .ok stop ↔ ∃ body, Bytes.ofArray i.data = body ++ footer body ∧ stop = body.length := by
  constructor
  · intro h
    have hlong : footerSize ≤ (Bytes.ofArray i.data).length := by
      by_contra hshort
      rw [Bytes.length_ofArray, Nat.not_le] at hshort
      rw [checkFooter_short hshort] at h
      simp at h
    obtain ⟨body, start, algorithm, stored, hdata, hstart, halgorithm, hstored⟩ := exists_parts hlong
    obtain ⟨rfl, hmagic, hcrc, hsum⟩ := (checkFooter_parts_iff hdata hstart halgorithm hstored stop).1 h
    have hmagic := (eq_ofUInt32_iff hstart _).1 hmagic
    have hcrc := (eq_ofUInt32_iff halgorithm _).1 hcrc
    have hsum := (eq_ofChecksum_iff hstored _).1 hsum
    refine ⟨body, ?_, rfl⟩
    rw [hmagic, hcrc] at hsum
    rw [hdata, hmagic, hcrc, hsum, footer_eq, footerStart, List.append_assoc]
  · rintro ⟨body, hdata, rfl⟩
    rw [footer_eq, footerStart, List.append_assoc] at hdata
    refine (checkFooter_parts_iff hdata rfl rfl (Bytes.length_littleEndian 8 _) _).2 ⟨rfl, ?_, ?_, ?_⟩
    · exact (eq_ofUInt32_iff rfl _).2 rfl
    · exact (eq_ofUInt32_iff rfl _).2 rfl
    · exact (eq_ofChecksum_iff (Bytes.length_littleEndian 8 _) _).2 rfl

/-- a footer check fails with a corruption or not at all -/
theorem checkFooter_cases (i : Input) :
    (∃ stop, checkFooter i = .ok stop) ∨ ∃ cause, checkFooter i = .error (.corruption cause) := by
  rcases Nat.lt_or_ge i.length footerSize with hshort | hlong
  · exact .inr ⟨_, checkFooter_short hshort⟩
  · have hbytes : footerSize ≤ (Bytes.ofArray i.data).length := by rwa [Bytes.length_ofArray]
    obtain ⟨body, start, algorithm, stored, hdata, hstart, halgorithm, hstored⟩ := exists_parts hbytes
    rw [checkFooter_parts hdata hstart halgorithm hstored]
    dsimp only
    split_ifs <;> simp

theorem ofChecksum_injective {a b : UInt32} (h : Bytes.ofUInt64 a.toUInt64 = Bytes.ofUInt64 b.toUInt64) : a = b := by
  have ha := (eq_ofChecksum_iff (Bytes.length_littleEndian 8 _) a).2 rfl
  have hb := (eq_ofChecksum_iff (Bytes.length_littleEndian 8 _) b).2 h
  exact ha.2.symm.trans hb.2

/-- **Every burst is refused.** A file with a footer that was changed in at most four consecutive bytes is corrupt. -/
theorem checkFooter_damaged {body : Bytes} {i : Input} (h : Crc32.Damaged (body ++ footer body) (Bytes.ofArray i.data)) :
    ∃ cause, checkFooter i = .error (.corruption cause) := by
  rcases checkFooter_cases i with ⟨stop, hok⟩ | herror
  · exfalso
    obtain ⟨other, hdata, -⟩ := checkFooter_eq_ok_iff.1 hok
    rw [hdata] at h
    have hlength : other.length = body.length := by
      have := h.length_eq
      rw [List.length_append, List.length_append, length_footer, length_footer] at this
      omega
    have hne : other ≠ body := fun heq => h.ne (by rw [heq])
    obtain ⟨p, hp⟩ := h.window
    rw [footer_eq, footer_eq, ← List.append_assoc, ← List.append_assoc] at hp
    have hsame : (other ++ footerStart).length = (body ++ footerStart).length := by
      rw [List.length_append, List.length_append, hlength]
    have hend : (body ++ footerStart).length = body.length + 8 := by rw [List.length_append, length_footerStart]
    -- a change before the footer is too far from the stored checksum for one window to reach both
    obtain ⟨k, hk, hdiffers⟩ : ∃ k, k < body.length ∧ other[k]? ≠ body[k]? := by
      by_contra hall
      refine hne (List.ext_getElem? fun k => ?_)
      by_cases hk : k < body.length
      · by_contra hdiffers
        exact hall ⟨k, hk, hdiffers⟩
      · rw [List.getElem?_eq_none (by omega), List.getElem?_eq_none (by omega)]
    have hnear : p ≤ k := by
      by_contra hfar
      have hpk := hp k (Or.inl (by omega))
      rw [List.getElem?_append_left (by omega), List.getElem?_append_left (by omega),
        List.getElem?_append_left (by omega), List.getElem?_append_left hk] at hpk
      exact hdiffers hpk
    have hstored : Crc32.checksum (other ++ footerStart) = Crc32.checksum (body ++ footerStart) := by
      refine ofChecksum_injective (List.ext_getElem? fun j => ?_)
      have hpj := hp (body.length + 8 + j) (Or.inr (by omega))
      rw [List.getElem?_append_right (by omega), List.getElem?_append_right (by omega), hsame, hend,
        Nat.add_sub_cancel_left] at hpj
      exact hpj
    refine Crc32.checksum_ne_of_damaged ⟨hsame, fun heq => hne (List.append_cancel_right heq), p, ?_⟩ hstored
    intro j hj
    by_cases hinside : j < (body ++ footerStart).length
    · have hpj := hp j hj
      rwa [List.getElem?_append_left (by omega), List.getElem?_append_left hinside] at hpj
    · rw [List.getElem?_eq_none (by omega), List.getElem?_eq_none (by omega)]
  · exact herror

end Framing

end ColumnStore
