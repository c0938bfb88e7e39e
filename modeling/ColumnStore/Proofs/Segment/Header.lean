/-
Header identity.

No file of one identity is taken for a file of another: a header is accepted just by those who expect the codec, the id
and the suffix that it says and a range around its version (`Identity.Meets`), whatever stands behind it. One of the
fields is refused otherwise (`refuses_checkHeader`), and since the check is `Local`, a header that was cut off is refused
by everybody. Both are put together in `header_identity`.
-/
import ColumnStore.Proofs.Segment.Writer
import ColumnStore.Proofs.Storage.Refusal

namespace ColumnStore.Framing

open Storage

variable {h : Identity} {codec suffix : String} {least most : UInt32} {id : SegmentId}

/-- the header says what is expected of it -/
structure Identity.Meets (h : Identity) (codec : String) (least most : UInt32) (id : SegmentId) (suffix : String) :
    Prop where
  codec : h.codec = codec
  id : h.id = id
  suffix : h.suffix = suffix
  least : least ≤ h.version
  most : h.version ≤ most

theorem length_headerBytes (hcodec : isName h.codec = true) :
    (headerBytes h).length = headerLength h.codec h.suffix := by
  have hlength := (isName_iff.1 hcodec).2
  unfold maxNameLength at hlength
  have hvarint : (Varint.encode h.codec.utf8ByteSize).length = 1 := by
    rw [Varint.encode_of_lt (by omega), List.length_singleton]
  simp only [headerBytes, headerLength, Reading.flatten_text (utf8ByteSize_lt hcodec), List.length_append,
    Text.Utf8.length_ofText, Bytes.ofUInt32, SegmentId.toBytes, Bytes.ofBitVec128, Bytes.length_littleEndian,
    List.length_singleton, hvarint]
  omega

/-! ## Who is refused -/

theorem local_checkHeader (codec : String) (least most : UInt32) (id : SegmentId) (suffix : String) :
    Reading.Local (checkHeader codec least most id suffix) := by
  unfold checkHeader
  refine Reading.local_uint32.bind fun found => ?_
  split_ifs
  · exact Reading.local_corrupt_bind _ _
  refine Reading.local_text.bind fun foundCodec => ?_
  split_ifs
  · exact Reading.local_corrupt_bind _ _
  refine Reading.local_uint32.bind fun version => ?_
  split_ifs
  · exact Reading.local_corrupt_bind _ _
  refine Reading.local_uint128.bind fun bits => ?_
  dsimp only
  split_ifs
  · exact Reading.local_corrupt_bind _ _
  refine Reading.local_byte.bind fun length => (Reading.local_bytes _).bind fun bs => ?_
  split_ifs
  · exact Reading.local_corrupt_bind _ _
  · exact Reading.local_pure _

/-- the first field that differs is noticed -/
theorem refuses_checkHeader (hcodec : isName h.codec = true) (hsuffix : isName h.suffix = true)
    (hdiffers : ¬ h.Meets codec least most id suffix) :
    Reading.Refuses (checkHeader codec least most id suffix) (headerBytes h) := by
  unfold checkHeader headerBytes
  refine (Reading.takes_uint32 magic).bind_refuses ?_
  rw [if_neg (by simp)]
  refine (Reading.takes_text (utf8ByteSize_lt hcodec)).bind_refuses ?_
  split_ifs with hc
  · exact Reading.refuses_corrupt_bind _ _ _
  refine (Reading.takes_uint32 h.version).bind_refuses ?_
  split_ifs with hv
  · exact Reading.refuses_corrupt_bind _ _ _
  refine (Reading.takes_uint128 h.id.bits).bind_refuses ?_
  dsimp only
  split_ifs with hi
  · exact Reading.refuses_corrupt_bind _ _ _
  refine (Reading.takes_byte _).bind_refuses ?_
  -- what differs now can only be the suffix
  have hother : Bytes.ofText h.suffix ≠ Bytes.ofText suffix := by
    intro hs
    rw [not_or, UInt32.not_lt, UInt32.not_lt] at hv
    exact hdiffers ⟨not_not.1 hc, not_not.1 hi, Text.Utf8.ofText_injective hs, hv.1, hv.2⟩
  rw [← List.append_nil (Bytes.ofText h.suffix)]
  refine (Reading.takes_bytes (length_suffix hsuffix)).bind_refuses ?_
  rw [Bytes.ofArray_toByteArray, if_pos hother]
  exact Reading.refuses_corrupt_bind _ _ _

theorem takes_of_meets (hcodec : isName h.codec = true) (hsuffix : isName h.suffix = true)
    (hmeets : h.Meets codec least most id suffix) :
    Reading.Takes (checkHeader codec least most id suffix) (headerBytes h) h.version := by
  obtain ⟨rfl, rfl, rfl, hleast, hmost⟩ := hmeets
  exact takes_checkHeader least most hcodec hsuffix hleast hmost

theorem spans_checkHeader (hcodec : isName h.codec = true) (hsuffix : isName h.suffix = true) :
    Reading.Spans (checkHeader codec least most id suffix) (headerBytes h) := by
  by_cases hmeets : h.Meets codec least most id suffix
  · exact (takes_of_meets hcodec hsuffix hmeets).spans
  · exact (refuses_checkHeader hcodec hsuffix hmeets).spans

/-- a file with less than a header is refused by everybody -/
theorem checkHeader_cut {name : String} {file : ByteArray} (hcodec : isName h.codec = true)
    (hsuffix : isName h.suffix = true) (hstart : Bytes.ofArray file <+: headerBytes h)
    (hne : Bytes.ofArray file ≠ headerBytes h) :
    ∃ cause j, checkHeader codec least most id suffix { name := name, data := file } = .error (.corruption cause) j := by
  have hshort := length_headerBytes_le hcodec hsuffix
  refine (checked_checkHeader codec least most id suffix).corruption fun v j => ?_
  refine (local_checkHeader codec least most id suffix).cut (i := { name, data := file })
    (spans_checkHeader hcodec hsuffix) (Nat.zero_le _) ?_ List.drop_zero hstart hne v j
  rw [Nat.zero_add, addressLimit]
  omega

/-! ## Writing -/

theorem writeHeader_faultless (d : Directory) {o : Output} (hcodec : isName h.codec = true)
    (hsuffix : isName h.suffix = true) (hf : o.Faultless) : (o.writeHeader d h).2.2 = .ok () := by
  obtain ⟨pieces, hpieces, -⟩ := headerPieces_eq hcodec hsuffix
  obtain ⟨e, o', hwrite, -⟩ := Output.writePieces_faultless d hf pieces
  simp only [Output.writeHeader, hpieces, hwrite]

/-! ## Identity -/

/-- **Header identity.** A header of names takes just the bytes that its length says. With anything behind it, it is
accepted by those who expect what it says, who are told its version and stand right behind it; all others are told that
the file is corrupt. So is everybody when a part of the header is missing. -/
theorem header_identity (h : Identity) (hcodec : isName h.codec = true) (hsuffix : isName h.suffix = true) :
    ∃ bytes, header h = .ok bytes ∧ bytes.length = headerLength h.codec h.suffix ∧
      (∀ (d : Directory) (o : Output) (done : Bytes), d.Tidy → Sink.Backed d o.sink → o.Wrote done →
        (o.Faultless → (o.writeHeader d h).2.2 = .ok ()) ∧
        ((o.writeHeader d h).2.2 = .ok () → (o.writeHeader d h).2.1.Wrote (done ++ bytes))) ∧
      ∀ (name : String) (file : ByteArray) (codec : String) (least most : UInt32) (id : SegmentId) (suffix : String),
        let answer := checkHeader codec least most id suffix { name, data := file }
        (∀ rest, Bytes.ofArray file = bytes ++ rest →
          (answer = .ok h.version { name, data := file, position := headerLength h.codec h.suffix } ↔
            h.Meets codec least most id suffix) ∧
          (¬ h.Meets codec least most id suffix → ∃ cause j, answer = .error (.corruption cause) j)) ∧
        (Bytes.ofArray file <+: bytes → Bytes.ofArray file ≠ bytes → ∃ cause j, answer = .error (.corruption cause) j) := by
  obtain ⟨pieces, hpieces, hflat⟩ := headerPieces_eq hcodec hsuffix
  refine ⟨headerBytes h, by rw [header, hpieces, Except.map, hflat], length_headerBytes hcodec, ?_, ?_⟩
  · intro d o done hd hb hw
    refine ⟨fun hf => writeHeader_faultless d hcodec hsuffix hf, fun hok => ?_⟩
    have hwrite : o.writeHeader d h = ((o.writeHeader d h).1, (o.writeHeader d h).2.1, .ok ()) := by rw [← hok]
    exact (Output.writeHeader_spec hd hb hw hwrite).2
  · intro name file codec least most id suffix answer
    refine ⟨fun rest hfile => ?_, fun hstart hne => checkHeader_cut hcodec hsuffix hstart hne⟩
    have hahead : Input.Ahead { name, data := file } (headerBytes h) := ahead_headerBytes hcodec hsuffix hfile
    have hrefused : ¬ h.Meets codec least most id suffix → ∃ cause j, answer = .error (.corruption cause) j :=
      fun hdiffers => (checked_checkHeader codec least most id suffix).corruption
        (refuses_checkHeader hcodec hsuffix hdiffers _ hahead)
    refine ⟨⟨fun hok => ?_, fun hmeets => ?_⟩, hrefused⟩
    · by_contra hdiffers
      obtain ⟨cause, j, herror⟩ := hrefused hdiffers
      rw [hok] at herror
      simp at herror
    · have htakes := takes_of_meets hcodec hsuffix hmeets _ hahead
      rw [length_headerBytes hcodec, Input.skip, Nat.zero_add] at htakes
      exact htakes

/-- the header of a metadata file: written to a new output in memory, accepted, and refused by one who expects a suffix
that the written one starts with -/
theorem header_identity_metadata :
    let h : Identity := { codec := "DocValuesMetadata", id := ⟨7⟩, suffix := "ab" }
    isName h.codec = true ∧ isName h.suffix = true ∧
      (Output.writeHeader {} { name := "m", sink := { path := "m" } } h).2.1.position = 45 ∧
      ∃ bytes, header h = .ok bytes ∧ bytes.length = 45 ∧
      checkHeader "DocValuesMetadata" 0 0 ⟨7⟩ "ab" { name := "m", data := Bytes.toByteArray bytes } =
        .ok 0 { name := "m", data := Bytes.toByteArray bytes, position := 45 } ∧
      ∃ cause j, checkHeader "DocValuesMetadata" 0 0 ⟨7⟩ "a" { name := "m", data := Bytes.toByteArray bytes } =
        .error (.corruption cause) j := by
  intro h
  have hcodec : isName h.codec = true := by decide
  have hsuffix : isName h.suffix = true := by decide
  obtain ⟨bytes, hheader, hlength, hwrite, hcheck⟩ := header_identity h hcodec hsuffix
  have hempty : Output.Wrote { name := "m", sink := { path := "m" } } [] := ⟨rfl, rfl, rfl⟩
  obtain ⟨hok, hwrote⟩ := hwrite {} _ [] Directory.reachable_empty.tidy (fun hdisk => by simp at hdisk) hempty
  have hfile : Bytes.ofArray (Bytes.toByteArray bytes) = bytes ++ [] := by
    rw [Bytes.ofArray_toByteArray, List.append_nil]
  refine ⟨hcodec, hsuffix, (hwrote (hok rfl)).written.trans hlength, bytes, hheader, hlength, ?_, ?_⟩
  · exact ((hcheck "m" _ "DocValuesMetadata" 0 0 ⟨7⟩ "ab").1 [] hfile).1.2
      ⟨rfl, rfl, rfl, UInt32.le_refl _, UInt32.le_refl _⟩
  · refine ((hcheck "m" _ "DocValuesMetadata" 0 0 ⟨7⟩ "a").1 [] hfile).2 ?_
    intro hmeets
    exact absurd hmeets.suffix (by decide)

end ColumnStore.Framing
