/-
A segment of one column, in memory and without faults: writing it and opening it again.

`write_single` runs a writer from `create` to `close` and says what the two files hold then. `Recordable` is what a
plan has to have for its column to be found again; `open_single` opens the file pair of such a plan and says what the
reader knows.
-/
import ColumnStore.Proofs.Column.Sizes
import ColumnStore.Proofs.Segment.Opening

namespace ColumnStore

open Storage Column

/-! ## Writing -/

/-- the file pair of a segment of one column, byte by byte -/
structure Segment.Written (s : Segment) (naming : Naming) (d : Directory) (plan : Plan) (metadata data : ByteArray) :
    Prop where
  published : SegmentWriter.Published s naming d metadata data
  metadata_eq : Bytes.ofArray metadata = Framing.headerBytes (s.metadataHeader naming) ++ plan.bytes .metadata ++
    SegmentWriter.endBytes ++
      Framing.footer (Framing.headerBytes (s.metadataHeader naming) ++ plan.bytes .metadata ++ SegmentWriter.endBytes)
  data_eq : Bytes.ofArray data = Framing.headerBytes (s.dataHeader naming) ++ plan.bytes .data ++
    Framing.footer (Framing.headerBytes (s.dataHeader naming) ++ plan.bytes .data)

/-- where the payload of the first column starts -/
def Segment.start (s : Segment) (naming : Naming) : Nat := (Framing.headerBytes (s.dataHeader naming)).length

variable {d : Directory} {s : Segment} {naming : Naming} {schema : Schema} {field : FieldNumber} {name : String}

/-- a column whose plan succeeds is written, and both files are published -/
theorem SegmentWriter.write_single (values : Values) {layout : Layout} (hm : d.medium = .memory)
    (hf : d.faults = {}) (hd : d.Tidy) (hnaming : naming.validate = .ok ()) (hsuffix : Framing.isName s.suffix = true)
    (hplan : (values.plan field name s.documents (s.start naming)).outcome = .ok layout) :
    ∃ d₁ w w' d₂ metadata data, create d s naming = (d₁, .ok w) ∧ w.add d₁ field name values = (d₁, w', .ok layout) ∧
      w'.close d₁ = (d₂, .ok ()) ∧
      s.Written naming d₂ (values.plan field name s.documents (s.start naming)) metadata data := by
  obtain ⟨d₁, w, hcreate, hready⟩ := create_memory hm hf hnaming hsuffix
  obtain ⟨hn, hfailed, -, hopen⟩ := create_spec hd hcreate
  rw [← hopen.documents, Segment.start, ← hopen.position] at hplan
  obtain ⟨w', hadd, hready', hfailed'⟩ := add_memory hready hplan
  rw [hfailed] at hfailed'
  obtain ⟨d₂, hclose⟩ := close_faultless d₁ hready'.faultless hfailed'
  rcases add_spec hopen field name values with habsurd | ⟨-, -, -, hopen'⟩
  · rw [hadd, hfailed'] at habsurd
    simp at habsurd
  · rw [hadd] at hopen'
    obtain ⟨-, -, metadata, data, hpublished, hmetadata, hdata⟩ := close_spec hn hopen' hclose
    exact ⟨d₁, w, w', d₂, metadata, data, hcreate, hadd, hclose, hpublished, hmetadata, hdata⟩

/-! ## Opening -/

/-- a plan whose column is found again through an entry -/
structure Recordable (plan : Plan) (field : FieldNumber) (documents : UInt32) (offset : Nat) (entry : Entry) : Prop where
  metadata : ∃ rest, plan.bytes .metadata = Varint.encode field.toNat ++ rest ∧
    Reading.Takes (Entry.read field 0) rest entry
  count : ∀ file, entry.checkCount file field documents = .ok ()
  offsets : entry.checkOffsets offset (offset + (plan.bytes .data).length) = .ok ()

/-- what a reader of a segment of one column knows -/
structure SegmentReader.Single (r : SegmentReader) (s : Segment) (schema : Schema) (field : FieldNumber) (entry : Entry)
    (offset : Nat) (payload : Bytes) : Prop where
  entries : r.entries = [(field, entry)]
  schema : r.schema = schema
  documents : r.documents = s.documents
  payload : r.data.Holds offset payload

/-- both files stay below the limit of addresses -/
def Segment.Fits (s : Segment) (naming : Naming) (plan : Plan) : Prop :=
  (Framing.headerBytes (s.metadataHeader naming)).length + (plan.bytes .metadata).length < 2 ^ 63 ∧
    s.start naming + (plan.bytes .data).length < 2 ^ 63

theorem Segment.Written.metadata_size_lt {plan : Plan} {metadata data : ByteArray}
    (h : s.Written naming d plan metadata data) (hfits : s.Fits naming plan) : metadata.size < addressLimit := by
  have hmark : SegmentWriter.endBytes.length ≤ 5 := Varint.length_encode_le (by decide) (by decide)
  have hlength := congrArg List.length h.metadata_eq
  rw [Bytes.length_ofArray, List.length_append, List.length_append, List.length_append, Framing.length_footer,
    Framing.footerSize] at hlength
  have hmetadata := hfits.1
  rw [hlength, addressLimit]
  omega

/-- a column of the schema may have any entry that fits its type -/
theorem SegmentReader.checkSchema_ok {label : String} {type : ValueType} {entry : Entry}
    (h : schema.field? field = some ⟨label, type⟩) (hfits : fits type entry = true) :
    checkSchema schema field entry = .ok () := by
  simp [checkSchema, h, hfits]

theorem SegmentReader.open_single {plan : Plan} {entry : Entry} {metadata data : ByteArray}
    (hnaming : naming.validate = .ok ()) (hsuffix : Framing.isName s.suffix = true)
    (hfield : field ≠ SegmentWriter.endMark) (hschema : checkSchema schema field entry = .ok ()) (hfits : s.Fits naming plan)
    (hwritten : s.Written naming d plan metadata data)
    (hplan : Recordable plan field s.documents (s.start naming) entry) :
    ∃ r, ofDirectory d schema s naming = .ok r ∧ r.Single s schema field entry (s.start naming) (plan.bytes .data) := by
  obtain ⟨rest, hrest, htakes⟩ := hplan.metadata
  have hmetadataSize := hwritten.metadata_size_lt hfits
  have hrecords : [Record.mk field entry rest].flatMap Record.whole = plan.bytes .metadata := by
    rw [hrest, List.flatMap_singleton, Record.whole]
  have hreadable : ∀ r ∈ [Record.mk field entry rest], r.Readable s.documents := by
    intro r hr
    obtain rfl := List.mem_singleton.1 hr
    exact ⟨hfield, htakes, hplan.count⟩
  have hentries : checkEntries schema (s.start naming)
      (Framing.headerBytes (s.dataHeader naming) ++ plan.bytes .data).length [(field, entry)] = .ok () := by
    rw [List.length_append]
    change (do
      entry.checkOffsets (s.start naming) (s.start naming + (plan.bytes .data).length)
      checkSchema schema field entry
      pure ()) = Except.ok ()
    rw [hplan.offsets, hschema]
    rfl
  have hmetadata := hwritten.metadata_eq
  rw [← hrecords] at hmetadata
  obtain ⟨body, hbody, hopen⟩ := ofDirectory_eq hnaming hsuffix hwritten.published hmetadataSize hmetadata
    hwritten.data_eq hreadable rfl hentries
  refine ⟨_, hopen, rfl, rfl, rfl, ?_⟩
  have hlast : Bytes.ofArray body = Framing.headerBytes (s.dataHeader naming) ++ plan.bytes .data ++ [] := by
    rw [hbody, List.append_nil]
  refine Input.Holds.of_append hlast ?_
  have hlength := congrArg List.length hbody
  rw [Bytes.length_ofArray, List.length_append] at hlength
  have hpayload := hfits.2
  rw [Segment.start] at hpayload
  change body.size < addressLimit
  rw [hlength, addressLimit]
  omega

theorem SegmentReader.Single.entry {r : SegmentReader} {entry : Entry} {offset : Nat} {payload : Bytes}
    (h : r.Single s schema field entry offset payload) : r.entry field = .ok entry := by
  have hfind : r.entry? field = some entry := by
    unfold SegmentReader.entry?
    simp [h.entries]
  rw [SegmentReader.entry, hfind]

end ColumnStore
