/-
A column of byte strings that goes through a dictionary, out of a segment again.

Such a column is always written. Whether its segment opens depends on how the ordinals are stored:
the count check of an entry (`Entry.checkCount`) holds the nested column against the number of documents, and that of a
column that is stored by its present values counts fewer. So a column of which nearly all strings are empty, but not
all, is written and then refused as corrupt; all others come back as they went in (`sorted_round_trip`).
-/
import ColumnStore.Proofs.Column.Sorted
import ColumnStore.Proofs.Segment.RoundTrip

namespace ColumnStore

open Storage Storage.Reading Column

namespace Column

variable {plan : Plan} {field : FieldNumber} {offset : Nat} {ws : List Bytes} {ordinals : NumberEntry}
  {reader : NumberReader} {documents count : UInt32}

/-! ## The entry -/

/-- the entry of a sorted column is parsed from what its plan writes -/
theorem StoresSorted.takes (h : StoresSorted plan field offset ws ordinals reader) (hoffset : offset < 2 ^ 63) :
    ∃ rest, plan.bytes .metadata = Varint.encode field.toNat ++ rest ∧
      Takes (Entry.read field 0) rest (.sorted (dictionaryCount ws) (UInt64.ofNat offset) ordinals) := by
  obtain ⟨rest, hrest, htakes⟩ := h.metadata
  exact ⟨_, hrest, Entry.takes_sorted hoffset htakes⟩

theorem StoresSorted.checkOffsets (h : StoresSorted plan field offset ws ordinals reader) (hoffset : offset < 2 ^ 63)
    (count : UInt32) :
    (Entry.sorted count (UInt64.ofNat offset) ordinals).checkOffsets offset (offset + (plan.bytes .data).length) =
      .ok () := by
  rw [Entry.checkOffsets, checkOffset_ok (le_refl _) (by omega) hoffset]
  exact h.offsets

theorem StoresSorted.checkCount_dense (h : StoresSorted plan field offset ws ordinals reader)
    (hlength : ws.length = documents.toNat) (hdense : ¬ Sparse (stringOrdinals ws)) (file : String) (place : UInt64) :
    (Entry.sorted count place ordinals).checkCount file field documents = .ok () := by
  rw [Entry.checkCount]
  exact Entry.checkCount_ok (fun c hc => (h.dense hdense c hc).trans hlength) file field

/-- sparse ordinals count fewer values than there are documents, and fail it -/
theorem StoresSorted.checkCount_sparse (count : UInt32) (h : StoresSorted plan field offset ws ordinals reader)
    (hlength : ws.length = documents.toNat) (hsparse : Sparse (stringOrdinals ws)) :
    ∃ c, c.toNat < documents.toNat ∧ ∀ (file : String) (place : UInt64),
      (Entry.sorted count place ordinals).checkCount file field documents =
        .error (.corruption (.storedCount file field c documents)) := by
  obtain ⟨c, hc, hlt⟩ := h.sparse hsparse
  refine ⟨c, by omega, fun file place => ?_⟩
  rw [Entry.checkCount, NumberEntry.checkCount, hc]
  refine if_neg ?_
  rintro rfl
  omega

end Column

namespace SegmentReader

/-! ## Refusing -/

theorem readEntries_refused {documents : UInt32} {field : FieldNumber} {entry : Entry} {rest more : Bytes} {e : Error}
    {i : Input} (hfield : field ≠ SegmentWriter.endMark) (htakes : Takes (Entry.read field 0) rest entry)
    (hcount : entry.checkCount i.name field documents = .error e)
    (h : i.Ahead (Varint.encode field.toNat ++ (rest ++ more))) : ∃ j, readEntries documents i = .error e j := by
  have hnumber := takes_varint32 field i h.left
  have hentry := htakes _ (Input.Ahead.left (Input.Ahead.right h))
  have hname : ((i.skip (Varint.encode field.toNat).length).skip rest.length).name = i.name := rfl
  refine ⟨(i.skip (Varint.encode field.toNat).length).skip rest.length, ?_⟩
  change readEntriesWithin documents (i.remaining + 1) [] i = _
  rw [readEntriesWithin, bind_ok hnumber, if_neg hfield, bind_ok hentry]
  refine bind_error ?_
  rw [Entry.checking, hname, hcount]

theorem ofDirectory_refused {d : Directory} {schema : Schema} {s : Segment} {naming : Naming} {plan : Plan}
    {field : FieldNumber} {entry : Entry} {rest : Bytes} {e : Error} {metadata data : ByteArray}
    (hnaming : naming.validate = .ok ()) (hsuffix : Framing.isName s.suffix = true)
    (hfield : field ≠ SegmentWriter.endMark) (hfits : s.Fits naming plan)
    (hwritten : s.Written naming d plan metadata data)
    (hbytes : plan.bytes .metadata = Varint.encode field.toNat ++ rest) (htakes : Takes (Entry.read field 0) rest entry)
    (hcount : entry.checkCount (s.metadataFile naming) field s.documents = .error e) :
    ofDirectory d schema s naming = .error e := by
  have hn := Naming.valid_of_validate hnaming
  have hsize := hwritten.metadata_size_lt hfits
  have hfile := hwritten.metadata_eq
  rw [List.append_assoc (Framing.headerBytes _)] at hfile
  have hopen := openFile_eq (s.metadataHeader naming) hn.metadataCodec hsuffix rfl hwritten.published.1
    hfile
  rw [hbytes, List.append_assoc (Varint.encode _)] at hfile
  set start := (Framing.headerBytes (s.metadataHeader naming)).length
  have hahead : Input.Ahead { name := s.metadataFile naming, data := metadata, position := start }
      (Varint.encode field.toNat ++ (rest ++ SegmentWriter.endBytes)) :=
    (Input.Holds.of_append hfile hsize).ahead
  obtain ⟨j, hread⟩ := readEntries_refused hfield htakes hcount hahead
  simp only [ofDirectory, hnaming, bind, Except.bind, hopen, hread]

end SegmentReader

/-! ## Sizes -/

variable {d : Directory} {s : Segment} {naming : Naming} {schema : Schema} {field : FieldNumber} {name : String}
  {ws : List Bytes}

/-- both files of a sorted column are addressable if its payload is -/
theorem Segment.fits_sorted (field : FieldNumber) (name : String) (hn : naming.Valid)
    (hsuffix : Framing.isName s.suffix = true) (hlength : ws.length = s.documents.toNat)
    (hfit : s.start naming + (sortedPayload field name s.documents (s.start naming) ws).length < 2 ^ 63) :
    s.Fits naming (planSorted field name s.documents (s.start naming) (ws.map some)) := by
  obtain ⟨pieces, hflat, hplan⟩ := planSorted_eq field name hlength hfit
  have hdocuments := s.documents.toNat_lt
  have hcheck := checkLength_stringOrdinals name hlength
  have hfirst := Framing.length_headerBytes_le (h := s.metadataHeader naming) hn.metadataCodec hsuffix
  have hnumber := length_encode_count field.toNat_lt
  have hentry := length_entryBytes_le (dictionaryCount ws).toNat_lt .sorted (s.start naming)
  have hordinals := length_metadata_le field name (some s.documents) (s.start naming + (dictionaryBytes ws).length) _
    (by rw [length_stringOrdinals]; omega) hcheck
  have hsmall : (if Sparse (stringOrdinals ws) then 38 else 19) ≤ 38 := by split_ifs <;> decide
  rw [hplan]
  constructor
  · simp only [Plan.bytes_after_same, Plan.bytes_metadata_after_data, Plan.bytes_within, List.length_append,
      Varint.flatten_pieces, ordinalsPlan]
    rw [entryBytes] at hentry
    omega
  · rw [sortedPayload, List.length_append] at hfit
    simp only [Plan.bytes_after_same, Plan.bytes_data_after_metadata, Plan.bytes_within, List.length_append, hflat]
    omega

/-! ## Round trip -/

section

variable {plan : Plan} {metadata data : ByteArray} {ordinals : NumberEntry} {reader : NumberReader}

/-- a written column with sparse ordinals is refused as corrupt -/
theorem SegmentReader.ofDirectory_sparse (schema : Schema) (hnaming : naming.validate = .ok ())
    (hsuffix : Framing.isName s.suffix = true) (hfield : field ≠ SegmentWriter.endMark) (hfits : s.Fits naming plan)
    (hwritten : s.Written naming d plan metadata data)
    (hstores : StoresSorted plan field (s.start naming) ws ordinals reader) (hstart : s.start naming < 2 ^ 63)
    (hlength : ws.length = s.documents.toNat) (hsparse : Sparse (stringOrdinals ws)) :
    ∃ count, count < s.documents ∧ ofDirectory d schema s naming =
      .error (.corruption (.storedCount (s.metadataFile naming) field count s.documents)) := by
  obtain ⟨count, hlt, hrefused⟩ := hstores.checkCount_sparse (dictionaryCount ws) hlength hsparse
  obtain ⟨rest, hrest, htakes⟩ := hstores.takes hstart
  exact ⟨count, UInt32.lt_iff_toNat_lt.2 hlt,
    ofDirectory_refused hnaming hsuffix hfield hfits hwritten hrest htakes (hrefused _ _)⟩

/-- a written column with dense ordinals opens, and answers its strings -/
theorem SegmentReader.ofDirectory_dense (hnaming : naming.validate = .ok ())
    (hsuffix : Framing.isName s.suffix = true) (hfield : field ≠ SegmentWriter.endMark)
    (hschema : ∃ label, schema.field? field = some ⟨label, .sortedBytes⟩) (hfits : s.Fits naming plan)
    (hwritten : s.Written naming d plan metadata data)
    (hstores : StoresSorted plan field (s.start naming) ws ordinals reader) (hstart : s.start naming < 2 ^ 63)
    (hlength : ws.length = s.documents.toNat) (hsize : (distinctStrings ws).length < 2 ^ 32)
    (hbytes : (distinctStrings ws).flatten.length < 2 ^ 63) (hdense : ¬ Sparse (stringOrdinals ws)) :
    ∃ r source, ofDirectory d schema s naming = .ok r ∧ r.loadSorted field = .ok source ∧ source.Gives ws := by
  obtain ⟨label, hlabel⟩ := hschema
  have hcount : (distinctStrings ws).length = (dictionaryCount ws).toNat := (toNat_count _ hsize).symm
  set count := dictionaryCount ws
  have hrecordable : Recordable plan field s.documents (s.start naming)
      (.sorted count (UInt64.ofNat (s.start naming)) ordinals) :=
    ⟨hstores.takes hstart, fun file => hstores.checkCount_dense hlength hdense file _,
      hstores.checkOffsets hstart count⟩
  have hknown : checkSchema schema field (.sorted count (UInt64.ofNat (s.start naming)) ordinals) = .ok () :=
    checkSchema_ok hlabel rfl
  obtain ⟨r, hopen, hsingle⟩ := open_single hnaming hsuffix hfield hknown hfits hwritten hrecordable
  obtain ⟨payload, hpayload, hdecodes⟩ := hstores.data
  have hplace := hsingle.payload
  rw [hpayload] at hplace
  refine ⟨r, sortedSource ws count s.documents reader, hopen, ?_, sortedSource_gives hcount hbytes hlength hstores.gives⟩
  rw [loadSorted, hsingle.entry, hsingle.documents]
  exact sortedSource_read hcount hbytes hstart hdecodes hplace

end

/-- **Sorted columns, and the ones that are refused.** A column of byte strings that goes through a dictionary is
always written. If nearly all of its strings are empty, but not all, its segment does not open again; any other column
answers for each document just its string, by ordinals that rise with the strings. -/
theorem sorted_round_trip (d : Directory) (s : Segment) (naming : Naming) (schema : Schema) (field : FieldNumber)
    (name : String) (ws : List Bytes) (hm : d.medium = .memory) (hf : d.faults = {}) (hd : d.Reachable)
    (hnaming : naming.validate = .ok ()) (hsuffix : Framing.isName s.suffix = true)
    (hfield : field ≠ SegmentWriter.endMark) (hschema : ∃ label, schema.field? field = some ⟨label, .sortedBytes⟩)
    (hlength : ws.length = s.documents.toNat)
    (hfit : s.start naming + (sortedPayload field name s.documents (s.start naming) ws).length < 2 ^ 63) :
    (MostlyEmpty ws → ∃ d₁ w w' d₂, SegmentWriter.create d s naming = (d₁, .ok w) ∧
      w.add d₁ field name (.sorted (ws.map some)) = (d₁, w', .ok .sorted) ∧ w'.close d₁ = (d₂, .ok ()) ∧
      ∃ count, count < s.documents ∧ SegmentReader.ofDirectory d₂ schema s naming =
        .error (.corruption (.storedCount (s.metadataFile naming) field count s.documents))) ∧
    (¬ MostlyEmpty ws → (ws.filter (· ≠ [])).dedup.length + 1 < 2 ^ 32 →
      RoundTrips d s naming schema field name (.sorted (ws.map some)) fun r =>
        ∃ source, r.loadSorted field = .ok source ∧ source.Gives ws) := by
  have hn := Naming.valid_of_validate hnaming
  have hdocuments := s.documents.toNat_lt
  have hentries := length_distinctStrings_le ws
  have hsparse := sparse_stringOrdinals_iff ws (by omega)
  have hstart : s.start naming < 2 ^ 63 := by omega
  have hfits := Segment.fits_sorted field name hn hsuffix hlength hfit
  obtain ⟨ordinals, reader, hstores⟩ := planSorted_stores field name hlength hfit
  obtain ⟨d₁, w, w', d₂, metadata, data, hcreate, hadd, hclose, hwritten⟩ :=
    SegmentWriter.write_single (.sorted (ws.map some)) hm hf hd.tidy hnaming hsuffix hstores.outcome
  constructor
  · intro hempty
    obtain ⟨count, hlt, hrefused⟩ := SegmentReader.ofDirectory_sparse schema hnaming hsuffix hfield hfits hwritten
      hstores hstart hlength (hsparse.2 hempty)
    exact ⟨d₁, w, w', d₂, hcreate, hadd, hclose, count, hlt, hrefused⟩
  · intro hdense hsize
    rw [← length_distinctStrings] at hsize
    obtain ⟨r, source, hopen, hload, hgives⟩ := SegmentReader.ofDirectory_dense hnaming hsuffix hfield hschema hfits
      hwritten hstores hstart hlength hsize (length_flatten_lt hfit) (fun h => hdense (hsparse.1 h))
    exact ⟨d₁, w, w', .sorted, d₂, r, hcreate, hadd, hclose, hopen, source, hload, hgives⟩

/-- 299 empty strings and another one are refused, three strings of which one is empty come back -/
theorem sorted_round_trip_three_hundred :
    (∃ d₁ w w' d₂, SegmentWriter.create {} ⟨⟨7⟩, 300, ""⟩ {} = (d₁, .ok w) ∧
      w.add d₁ 0 "tag" (.sorted ((List.replicate 299 ([] : Bytes) ++ [[0x61]]).map some)) = (d₁, w', .ok .sorted) ∧
      w'.close d₁ = (d₂, .ok ()) ∧ ∃ count, count < 300 ∧
      SegmentReader.ofDirectory d₂ ⟨[⟨"tag", .sortedBytes⟩]⟩ ⟨⟨7⟩, 300, ""⟩ {} =
        .error (.corruption (.storedCount (Segment.metadataFile ⟨⟨7⟩, 300, ""⟩ {}) 0 count 300))) ∧
    RoundTrips {} ⟨⟨7⟩, 3, ""⟩ {} ⟨[⟨"tag", .sortedBytes⟩]⟩ 0 "tag" (.sorted [some [0x62], some [], some [0x61]]) fun r =>
      ∃ source, r.loadSorted 0 = .ok source ∧ source.Gives [[0x62], [], [0x61]] := by
  have hn : Naming.Valid {} := Naming.valid_of_validate (by rfl)
  have hsuffix : Framing.isName "" = true := by rfl
  have hsmall : ∀ (documents : UInt32) (ws : List Bytes), ws.length = documents.toNat → ws.flatten.length < 2 ^ 62 →
      Segment.start ⟨⟨7⟩, documents, ""⟩ {} +
        (sortedPayload 0 "tag" documents (Segment.start ⟨⟨7⟩, documents, ""⟩ {}) ws).length < 2 ^ 63 := by
    intro documents ws hlength hbytes
    have hdocuments := documents.toNat_lt
    have hstart : Segment.start ⟨⟨7⟩, documents, ""⟩ {} ≤ 300 :=
      Framing.length_headerBytes_le (h := Segment.dataHeader ⟨⟨7⟩, documents, ""⟩ {}) hn.dataCodec hsuffix
    have hdistinct := length_flatten_distinctStrings_le ws
    have hpayload := length_sortedPayload_le 0 "tag" (Segment.start ⟨⟨7⟩, documents, ""⟩ {}) hlength (by omega)
    omega
  have hlength : (List.replicate 299 ([] : Bytes) ++ [[0x61]]).length = 300 := by
    rw [List.length_append, List.length_replicate]
    rfl
  have hcount : (List.replicate 299 ([] : Bytes) ++ [[0x61]]).count [] = 299 := by
    rw [List.count_append, List.count_replicate_self]
    rfl
  have hbytes : (List.replicate 299 ([] : Bytes) ++ [[0x61]]).flatten = [0x61] := by
    rw [List.flatten_append, List.flatten_replicate_nil]
    rfl
  constructor
  · refine (sorted_round_trip {} ⟨⟨7⟩, 300, ""⟩ {} ⟨[⟨"tag", .sortedBytes⟩]⟩ 0 "tag" _ rfl rfl
      Directory.reachable_empty rfl rfl (by decide) ⟨"tag", rfl⟩ hlength
      (hsmall _ _ hlength (by rw [hbytes]; decide))).1 ⟨?_, ?_, [0x61], ?_, ?_⟩
    · rw [hlength]
      decide
    · rw [hlength, hcount]
      decide
    · exact List.mem_append_right _ (List.mem_singleton_self _)
    · decide
  · refine (sorted_round_trip {} ⟨⟨7⟩, 3, ""⟩ {} ⟨[⟨"tag", .sortedBytes⟩]⟩ 0 "tag" [[0x62], [], [0x61]] rfl rfl
      Directory.reachable_empty rfl rfl (by decide) ⟨"tag", rfl⟩ rfl (hsmall _ _ rfl (by decide))).2 ?_ (by decide)
    rintro ⟨hmany, -⟩
    exact absurd hmany (by decide)

end ColumnStore
