/-
A column of numbers comes back out of a segment as it went in.

Whatever the values are, whatever layout is chosen for them, and for every naming and suffix that a segment can have:
the column is written, the segment opens, and every document has its value again, bit for bit (`numbers_round_trip`).
-/
import ColumnStore.Proofs.Column.Numbers
import ColumnStore.Proofs.Segment.Single

namespace ColumnStore

open Storage Column

/-- a segment of one column was written and opened, and the reader has a property -/
def RoundTrips (d : Directory) (s : Segment) (naming : Naming) (schema : Schema) (field : FieldNumber) (name : String)
    (values : Values) (post : SegmentReader → Prop) : Prop :=
  ∃ d₁ w w' layout d₂ r, SegmentWriter.create d s naming = (d₁, .ok w) ∧
    w.add d₁ field name values = (d₁, w', .ok layout) ∧ w'.close d₁ = (d₂, .ok ()) ∧
    SegmentReader.ofDirectory d₂ schema s naming = .ok r ∧ post r

namespace Column

variable {plan : Plan} {field : FieldNumber} {offset : Nat} {vs : List Int64} {entry : NumberEntry}
  {reader : NumberReader} {documents : UInt32}

/-- a stored column that has a value for every document passes the count check -/
theorem Stores.checkCount (h : Stores plan field offset vs entry reader) (hlength : vs.length = documents.toNat)
    (file : String) : (Entry.numbers entry).checkCount file field documents = .ok () := by
  by_cases hlayout : entry.layout = .indirect
  · cases entry with
    | indirect n place values =>
      have hcount := h.present hlayout n rfl
      have hle : (presentValues vs).length ≤ vs.length := List.length_filter_le _ _
      rw [Entry.checkCount, if_pos]
      rw [UInt32.le_iff_toNat_le]
      omega
    | const value => simp [NumberEntry.layout] at hlayout
    | uncompressed n place => simp [NumberEntry.layout] at hlayout
    | table n place => simp [NumberEntry.layout] at hlayout
    | delta n place => simp [NumberEntry.layout] at hlayout
  · have hplain : entry.checkCount file field documents = .ok () :=
      Entry.checkCount_ok (fun c hc => (h.count hlayout c hc).trans hlength) file field
    cases entry with
    | indirect n place values => exact absurd rfl hlayout
    | const value => exact hplain
    | uncompressed n place => exact hplain
    | table n place => exact hplain
    | delta n place => exact hplain

theorem Stores.recordable (h : Stores plan field offset vs entry reader) (hlength : vs.length = documents.toNat) :
    Recordable plan field documents offset (.numbers entry) where
  metadata := by
    obtain ⟨rest, hrest, htakes⟩ := h.metadata
    exact ⟨rest, hrest, htakes _ (le_trans h.depth_le (by decide))⟩
  count := h.checkCount hlength
  offsets := h.offsets offset _ (le_refl _) (le_refl _)

end Column

variable {d : Directory} {s : Segment} {naming : Naming} {schema : Schema} {field : FieldNumber} {name : String}

/-- columns of numbers never grow out of the limit of offsets -/
theorem Segment.fits_numbers (field : FieldNumber) (name : String) (hn : naming.Valid)
    (hsuffix : Framing.isName s.suffix = true) {vs : List Int64} (hlength : vs.length = s.documents.toNat) :
    s.Fits naming (planNumbers field name (some s.documents) (s.start naming) (vs.map some)) := by
  have hbound : vs.length < 2 ^ 32 := hlength ▸ s.documents.toNat_lt
  have hcheck : checkLength name vs.length (some s.documents) = .ok () := if_pos hlength
  have hmetadata := length_metadata_le field name _ (s.start naming) vs hbound hcheck
  have hdata := length_data_le field name _ (s.start naming) vs hbound hcheck
  have hfirst := Framing.length_headerBytes_le (h := s.metadataHeader naming) hn.metadataCodec hsuffix
  have hsecond : s.start naming ≤ 300 := Framing.length_headerBytes_le hn.dataCodec hsuffix
  have hsmall : (if Sparse vs then 38 else 19) ≤ 38 := by split_ifs <;> decide
  exact ⟨by omega, by omega⟩

/-- a column of numbers is loaded, if its payload stands where its entry says -/
theorem Column.Decodes.load {q : SegmentReader} {entry : NumberEntry} {offset : Nat} {payload : Bytes}
    {reader : NumberReader} {kind : NumberKind} (h : Decodes entry offset payload reader)
    (hentry : q.entry field = .ok (.numbers entry)) (hkind : q.kind field = .ok kind)
    (hholds : q.data.Holds offset payload) : q.load field = .ok (.numbers ⟨reader, kind, q.documents⟩) := by
  obtain ⟨j, hread, -⟩ := h q.data hholds
  rw [SegmentReader.load, hentry]
  simp only [bind, Except.bind, hkind, Reading.eval_ok hread]
  rfl

/-- what a column of numbers is read as, before its kind is looked at -/
theorem numbers_load (name : String) (values : Values) (kind : NumberKind) (hm : d.medium = .memory)
    (hf : d.faults = {}) (hd : d.Reachable) (hnaming : naming.validate = .ok ())
    (hsuffix : Framing.isName s.suffix = true) (hfield : field ≠ SegmentWriter.endMark) {vs : List Int64}
    (hlength : vs.length = s.documents.toNat)
    (hplan : values.plan field name s.documents (s.start naming) =
      planNumbers field name (some s.documents) (s.start naming) (vs.map some))
    (hschema : ∀ entry, SegmentReader.checkSchema schema field (.numbers entry) = .ok ())
    (hkind : ∀ r : SegmentReader, r.schema = schema → r.kind field = .ok kind) :
    RoundTrips d s naming schema field name values fun r =>
      ∃ reader : NumberReader, reader.Gives vs ∧ r.load field = .ok (.numbers ⟨reader, kind, s.documents⟩) := by
  have hn := Naming.valid_of_validate hnaming
  have hbound : vs.length < 2 ^ 32 := hlength ▸ s.documents.toNat_lt
  have hfits := Segment.fits_numbers field name hn hsuffix hlength
  obtain ⟨entry, reader, hstores⟩ := planNumbers_stores field name (some s.documents) (s.start naming) vs hbound
    (if_pos hlength) hfits.2
  rw [← hplan] at hfits hstores
  obtain ⟨d₁, w, w', d₂, metadata, data, hcreate, hadd, hclose, hwritten⟩ :=
    SegmentWriter.write_single values hm hf hd.tidy hnaming hsuffix hstores.outcome
  obtain ⟨r, hopen, hsingle⟩ := SegmentReader.open_single hnaming hsuffix hfield (hschema entry) hfits hwritten
    (hstores.recordable hlength)
  refine ⟨d₁, w, w', _, d₂, r, hcreate, hadd, hclose, hopen, reader, hstores.gives, ?_⟩
  rw [← hsingle.documents]
  exact hstores.decodes.load hsingle.entry (hkind r hsingle.schema) hsingle.payload

theorem NumberSource.word_eq {reader : NumberReader} {vs : List Int64} (h : reader.Gives vs) (kind : NumberKind)
    {documents document : UInt32} (hlength : vs.length = documents.toNat) :
    (⟨reader, kind, documents⟩ : NumberSource).word kind document =
      if hdocument : document.toNat < vs.length then .ok vs[document.toNat] else .error (.documentNotFound document) := by
  unfold NumberSource.word checkDocument
  dsimp only
  by_cases hdocument : document.toNat < vs.length
  · rw [dif_pos hdocument, if_neg (by rw [UInt32.not_le, UInt32.lt_iff_toNat_lt]; omega), if_pos rfl]
    exact h _ hdocument
  · rw [dif_neg hdocument, if_pos (by rw [UInt32.le_iff_toNat_le]; omega)]
    rfl

/-- **Numbers come back as they went in.** A column of integers, or of floats by their bit patterns, is written to a
segment in memory, the segment opens, and the loaded column answers for each document just its value, and for no other
document. The number of the end mark is no column's: a schema would need `2 ^ 32` columns to have it. -/
theorem numbers_round_trip (d : Directory) (s : Segment) (naming : Naming) (schema : Schema) (field : FieldNumber)
    (name : String) (hm : d.medium = .memory) (hf : d.faults = {}) (hd : d.Reachable)
    (hnaming : naming.validate = .ok ()) (hsuffix : Framing.isName s.suffix = true)
    (hfield : field ≠ SegmentWriter.endMark) :
    (∀ vs : List Int64, vs.length = s.documents.toNat → (∃ label, schema.field? field = some ⟨label, .int⟩) →
      RoundTrips d s naming schema field name (.ints (vs.map some)) fun r => ∃ source, r.load field = .ok source ∧
        ∀ document, source.int document = if h : document.toNat < vs.length then .ok vs[document.toNat]
          else .error (.documentNotFound document)) ∧
    (∀ bits : List UInt64, bits.length = s.documents.toNat → (∃ label, schema.field? field = some ⟨label, .float⟩) →
      RoundTrips d s naming schema field name (.floats (bits.map fun b => some b.toInt64)) fun r =>
        ∃ source, r.load field = .ok source ∧
          ∀ document, source.float document = if h : document.toNat < bits.length then .ok bits[document.toNat]
            else .error (.documentNotFound document)) := by
  constructor
  · rintro vs hlength ⟨label, hlabel⟩
    obtain ⟨d₁, w, w', layout, d₂, r, hcreate, hadd, hclose, hopen, reader, hgives, hload⟩ :=
      numbers_load name (.ints (vs.map some)) .int hm hf hd hnaming hsuffix hfield hlength rfl
        (fun _ => SegmentReader.checkSchema_ok hlabel rfl) (fun r hr => by rw [SegmentReader.kind, hr, hlabel])
    refine ⟨d₁, w, w', layout, d₂, r, hcreate, hadd, hclose, hopen, _, hload, fun document => ?_⟩
    exact NumberSource.word_eq hgives .int hlength
  · rintro bits hlength ⟨label, hlabel⟩
    set vs := bits.map UInt64.toInt64 with hvs
    have hlength' : vs.length = s.documents.toNat := by rw [hvs, List.length_map, hlength]
    have hvalues : bits.map (fun b => some b.toInt64) = vs.map some := by rw [hvs, List.map_map]; rfl
    rw [hvalues]
    obtain ⟨d₁, w, w', layout, d₂, r, hcreate, hadd, hclose, hopen, reader, hgives, hload⟩ :=
      numbers_load name (.floats (vs.map some)) .float hm hf hd hnaming hsuffix hfield hlength' rfl
        (fun _ => SegmentReader.checkSchema_ok hlabel rfl) (fun r hr => by rw [SegmentReader.kind, hr, hlabel])
    refine ⟨d₁, w, w', layout, d₂, r, hcreate, hadd, hclose, hopen, _, hload, fun document => ?_⟩
    change Int64.toUInt64 <$> NumberSource.word _ .float document = _
    rw [NumberSource.word_eq hgives .float hlength']
    by_cases hdocument : document.toNat < bits.length
    · have hdocument' : document.toNat < vs.length := by rwa [hvs, List.length_map]
      rw [dif_pos hdocument, dif_pos hdocument']
      simp [hvs, Functor.map, Except.map]
    · have hdocument' : ¬ document.toNat < vs.length := by rwa [hvs, List.length_map]
      rw [dif_neg hdocument, dif_neg hdocument']
      rfl

/-- three integers, and two floats of which one is no number -/
theorem numbers_round_trip_three :
    (RoundTrips {} ⟨⟨7⟩, 3, "a"⟩ {} ⟨[⟨"n", .int⟩]⟩ 0 "n" (.ints [some 5, some (-1), some 0]) fun r =>
      ∃ source, r.load 0 = .ok source ∧ source.int 1 = .ok (-1) ∧ source.int 3 = .error (.documentNotFound 3)) ∧
    (RoundTrips {} ⟨⟨7⟩, 2, "a"⟩ {} ⟨[⟨"x", .float⟩]⟩ 0 "x"
        (.floats [some (0x8000000000000000 : UInt64).toInt64, some (0x7ff8000000000001 : UInt64).toInt64]) fun r =>
      ∃ source, r.load 0 = .ok source ∧ source.float 1 = .ok 0x7ff8000000000001) := by
  constructor
  · obtain ⟨d₁, w, w', layout, d₂, r, hcreate, hadd, hclose, hopen, source, hload, hint⟩ :=
      (numbers_round_trip {} ⟨⟨7⟩, 3, "a"⟩ {} ⟨[⟨"n", .int⟩]⟩ 0 "n" rfl rfl Directory.reachable_empty rfl rfl
        (by decide)).1 [5, -1, 0] rfl ⟨"n", rfl⟩
    exact ⟨d₁, w, w', layout, d₂, r, hcreate, hadd, hclose, hopen, source, hload, hint 1, hint 3⟩
  · obtain ⟨d₁, w, w', layout, d₂, r, hcreate, hadd, hclose, hopen, source, hload, hfloat⟩ :=
      (numbers_round_trip {} ⟨⟨7⟩, 2, "a"⟩ {} ⟨[⟨"x", .float⟩]⟩ 0 "x" rfl rfl Directory.reachable_empty rfl rfl
        (by decide)).2 [0x8000000000000000, 0x7ff8000000000001] rfl ⟨"x", rfl⟩
    exact ⟨d₁, w, w', layout, d₂, r, hcreate, hadd, hclose, hopen, source, hload, hfloat 1⟩

end ColumnStore
