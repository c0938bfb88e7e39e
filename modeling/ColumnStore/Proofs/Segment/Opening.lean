/-
Opening a published segment: the entries that were written are the entries that are read.

`Record` is one column as the metadata file has it. Records written one after the other, with the end mark behind them,
are read back as entries in the order of their numbers (`takes_readEntries`); a file pair of such a metadata file and
any data file opens, if the entries fit the schema and the bounds of the data file (`ofDirectory_eq`).
-/
import ColumnStore.Proofs.Column.Parsing
import ColumnStore.Proofs.Segment.Writer

namespace ColumnStore.SegmentReader

open Storage Storage.Reading Column

/-! ## Entries -/

/-- a column as the metadata file has it: its number, and an entry with its bytes -/
structure Record where
  field : FieldNumber
  entry : Entry
  bytes : Bytes

/-- the record can be read back, and covers the documents of the segment as far as it is checked -/
structure Record.Readable (documents : UInt32) (r : Record) : Prop where
  number : r.field ≠ SegmentWriter.endMark
  takes : Takes (Entry.read r.field 0) r.bytes r.entry
  count : ∀ file, r.entry.checkCount file r.field documents = .ok ()

def Record.whole (r : Record) : Bytes := Varint.encode r.field.toNat ++ r.bytes

/-- entries put in their places one after the other -/
def insertAll? (entries : List (FieldNumber × Entry)) (records : List Record) : Option (List (FieldNumber × Entry)) :=
  records.foldlM (fun entries r => insert? r.field r.entry entries) entries

theorem takes_readEntriesWithin {documents : UInt32} {records : List Record} {entries result : List (FieldNumber × Entry)}
    {fuel : Nat} (hfuel : records.length < fuel) (hreadable : ∀ r ∈ records, r.Readable documents)
    (hinsert : insertAll? entries records = some result) :
    Takes (readEntriesWithin documents fuel entries) (records.flatMap Record.whole ++ SegmentWriter.endBytes) result := by
  induction records generalizing entries fuel with
  | nil =>
    obtain ⟨fuel, rfl⟩ : ∃ n, fuel = n + 1 := ⟨fuel - 1, by simp at hfuel; omega⟩
    obtain rfl : entries = result := by simpa [insertAll?] using hinsert
    refine (takes_varint32 SegmentWriter.endMark).bind_last ?_
    rw [if_pos rfl]
    exact takes_pure _
  | cons r records ih =>
    obtain ⟨fuel, rfl⟩ : ∃ n, fuel = n + 1 := ⟨fuel - 1, by simp at hfuel; omega⟩
    have hr := hreadable r (List.mem_cons_self ..)
    obtain ⟨next, hnext, hrest⟩ : ∃ next, insert? r.field r.entry entries = some next ∧
        insertAll? next records = some result := by
      simpa [insertAll?, List.foldlM_cons, Option.bind_eq_some_iff] using hinsert
    rw [List.flatMap_cons, Record.whole, List.append_assoc, List.append_assoc]
    refine (takes_varint32 r.field).bind ?_
    rw [if_neg hr.number]
    refine hr.takes.bind ?_
    refine (Entry.takes_checking hr.count).bind_first ?_
    rw [hnext]
    exact ih (by simpa using hfuel) (fun q hq => hreadable q (List.mem_cons_of_mem _ hq)) hrest

theorem length_le_flatMap_whole (records : List Record) : records.length ≤ (records.flatMap Record.whole).length := by
  induction records with
  | nil => simp
  | cons r records ih =>
    have hpos := Varint.length_encode_pos r.field.toNat
    rw [List.flatMap_cons, List.length_append, List.length_cons, Record.whole, List.length_append]
    omega

/-- **Entries are read back** in the order of their numbers, however many there are. -/
theorem takes_readEntries {documents : UInt32} {records : List Record} {result : List (FieldNumber × Entry)}
    (hreadable : ∀ r ∈ records, r.Readable documents) (hinsert : insertAll? [] records = some result) :
    Takes (readEntries documents) (records.flatMap Record.whole ++ SegmentWriter.endBytes) result := by
  intro i h
  -- the bytes ahead are at least as many as the records, so the fuel lasts
  have hfuel : records.length < i.remaining + 1 := by
    have hend := h.end_le
    have hle := length_le_flatMap_whole records
    rw [List.length_append] at hend
    unfold Input.remaining
    omega
  exact takes_readEntriesWithin hfuel hreadable hinsert i h

/-! ## Files -/

/-- a file that was published opens, and the cursor stands behind its header -/
theorem openFile_eq {d : Directory} {name : String} (header : Framing.Identity) {file : ByteArray} {body : Bytes}
    (hcodec : Framing.isName header.codec = true) (hsuffix : Framing.isName header.suffix = true)
    (hversion : header.version = 0) (hread : d.read name = .ok file)
    (hfile : Bytes.ofArray file =
      Framing.headerBytes header ++ body ++ Framing.footer (Framing.headerBytes header ++ body)) :
    openFile d name header = .ok ((Framing.headerBytes header ++ body).length, 0,
      { name := name, data := file, position := (Framing.headerBytes header).length }) := by
  have hfooter : Framing.checkFooter { name := name, data := file } = .ok (Framing.headerBytes header ++ body).length :=
    Framing.checkFooter_eq_ok_iff.2 ⟨_, hfile, rfl⟩
  have hahead : Input.Ahead { name := name, data := file } (Framing.headerBytes header) :=
    Framing.ahead_headerBytes hcodec hsuffix (by rw [hfile, List.append_assoc])
  have htakes := Framing.takes_checkHeader Segment.leastVersion Segment.greatestVersion hcodec hsuffix
    (by rw [hversion]; decide) (by rw [hversion]; decide) _ hahead
  simp only [openFile, readFile, hread, bind, Except.bind, hfooter, htakes, hversion]
  simp [Input.skip]

/-- **A published file pair opens** with the entries that were recorded in it, if they fit schema and data file. -/
theorem ofDirectory_eq {d : Directory} {schema : Schema} {s : Segment} {naming : Naming} {metadata data : ByteArray}
    {records : List Record} {entries : List (FieldNumber × Entry)} {payload : Bytes}
    (hnaming : naming.validate = .ok ()) (hsuffix : Framing.isName s.suffix = true)
    (hpublished : SegmentWriter.Published s naming d metadata data)
    (hmetadataSize : metadata.size < addressLimit)
    (hmetadata : Bytes.ofArray metadata = Framing.headerBytes (s.metadataHeader naming) ++
      records.flatMap Record.whole ++ SegmentWriter.endBytes ++ Framing.footer (Framing.headerBytes
        (s.metadataHeader naming) ++ records.flatMap Record.whole ++ SegmentWriter.endBytes))
    (hdata : Bytes.ofArray data = Framing.headerBytes (s.dataHeader naming) ++ payload ++
      Framing.footer (Framing.headerBytes (s.dataHeader naming) ++ payload))
    (hreadable : ∀ r ∈ records, r.Readable s.documents) (hinsert : insertAll? [] records = some entries)
    (hentries : checkEntries schema (Framing.headerBytes (s.dataHeader naming)).length
      (Framing.headerBytes (s.dataHeader naming) ++ payload).length entries = .ok ()) :
    ∃ body, Bytes.ofArray body = Framing.headerBytes (s.dataHeader naming) ++ payload ∧
      ofDirectory d schema s naming =
        .ok { data := { name := s.dataFile naming, data := body }, entries, schema, documents := s.documents } := by
  have hn := Naming.valid_of_validate hnaming
  set before := Framing.headerBytes (s.metadataHeader naming) with hbefore
  set start := Framing.headerBytes (s.dataHeader naming) with hstart
  rw [List.append_assoc before] at hmetadata
  have hopenMetadata := openFile_eq (s.metadataHeader naming) hn.metadataCodec hsuffix rfl hpublished.1
    hmetadata
  rw [← hbefore] at hopenMetadata
  have hopenData := openFile_eq (s.dataHeader naming) hn.dataCodec hsuffix rfl hpublished.2 hdata
  rw [← hstart] at hopenData
  have hahead : Input.Ahead { name := s.metadataFile naming, data := metadata, position := before.length }
      (records.flatMap Record.whole ++ SegmentWriter.endBytes) :=
    (Input.Holds.of_append hmetadata hmetadataSize).ahead
  have hread := takes_readEntries hreadable hinsert _ hahead
  have hposition : (Input.skip { name := s.metadataFile naming, data := metadata, position := before.length }
      (records.flatMap Record.whole ++ SegmentWriter.endBytes).length).position =
        (before ++ (records.flatMap Record.whole ++ SegmentWriter.endBytes)).length := by
    rw [Input.skip_position, @List.length_append _ before]
  have hinside : (start ++ payload).length ≤ data.size := by
    have hlength := congrArg List.length hdata
    rw [Bytes.length_ofArray, @List.length_append _ (start ++ payload)] at hlength
    omega
  refine ⟨data.extract 0 (start ++ payload).length, ?_, ?_⟩
  · rw [Bytes.ofArray_extract, hdata, List.take_left, List.drop_zero]
  · have hslice : Input.slice { name := s.dataFile naming, data, position := start.length } 0 (start ++ payload).length =
        .ok (data.extract 0 (start ++ payload).length) := Input.slice_eq (Nat.zero_le _) hinside
    simp only [ofDirectory, hnaming, bind, Except.bind, hopenMetadata, hread, hposition, hopenData, hentries, hslice]
    simp

end ColumnStore.SegmentReader
