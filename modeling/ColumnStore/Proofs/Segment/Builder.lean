/-
Flushing what was collected, and reading it again.

A flush pads each column to the number of documents (`SegmentBuilder.full`). All of them then suit the segment
(`Built.suits`), are what the flush adds (`Built.columns_eq`), and are found again after it (`Built.flush`), since the info
file that is put last keeps off their files (`SegmentBuilder.filled_of_store`). `builder_round_trip` says the same of the
calls that a builder was given.
-/
import ColumnStore.Proofs.Segment.Collecting
import ColumnStore.Proofs.Segment.Flush

namespace ColumnStore

open Storage Column SegmentReader

/-! ## Numbers of columns -/

namespace Schema

variable {schema : Schema}

theorem map_fst_numbered (schema : Schema) :
    schema.numbered.map Prod.fst = (List.range schema.fields.length).map UInt32.ofNat := by
  refine List.ext_getElem (by simp [numbered]) fun place _ _ => ?_
  simp only [numbered, List.getElem_map, List.getElem_mapIdx, List.getElem_range]

/-- the columns of a schema that is not too long are numbered in rising order -/
theorem numbered_rising (hfields : schema.fields.length ≤ 2 ^ 32) :
    (schema.numbered.map Prod.fst).Pairwise (· < ·) := by
  rw [map_fst_numbered, List.pairwise_map]
  refine List.pairwise_lt_range.imp_of_mem fun ha hb hab => ?_
  rw [List.mem_range] at ha hb
  rw [UInt32.lt_iff_toNat_lt, UInt32.toNat_ofNat', UInt32.toNat_ofNat', Nat.mod_eq_of_lt (by omega),
    Nat.mod_eq_of_lt (by omega)]
  exact hab

end Schema

namespace SegmentBuilder

variable {b : SegmentBuilder} {schema : Schema} {done : List Call}

/-! ## Flushing -/

/-- the columns of a builder, each padded to the number of documents -/
def full (b : SegmentBuilder) : List Full :=
  (b.schema.numbered.zip b.collectors.toList).map fun (entry, c) => ⟨entry.1, entry.2.name, c.series b.documents⟩

def dataSize (b : SegmentBuilder) (id : SegmentId) (naming : Naming) : Nat :=
  (Segment.mk id b.documents "").start naming + (b.full.map fun c => (c.payload b.documents).length).sum

theorem Built.full_get (h : Built schema done b) {field : FieldNumber} {f : Field} {c : Collector}
    (hf : schema.field? field = some f) (hc : b.collectors[field.toNat]? = some c) :
    b.full[field.toNat]? = some ⟨field, f.name, c.series b.documents⟩ := by
  have hf : schema.fields[field.toNat]? = some f := hf
  have hnumbered : b.schema.numbered[field.toNat]? = some (field, f) := by
    rw [h.schema_eq, Schema.numbered, List.getElem?_mapIdx, hf, Option.map_some, UInt32.ofNat_toNat]
  have hzip : (b.schema.numbered.zip b.collectors.toList)[field.toNat]? = some ((field, f), c) :=
    List.getElem?_zip_eq_some.2 ⟨hnumbered, by rw [Array.getElem?_toList, hc]⟩
  rw [full, List.getElem?_map, hzip]
  rfl

/-- a place below the number of columns is the number of one -/
theorem Built.collector_at (h : Built schema done b) (hfields : schema.fields.length ≤ 2 ^ 32) {place : Nat}
    (hplace : place < schema.fields.length) : ∃ (field : FieldNumber) (f : Field) (c : Collector), field.toNat = place ∧
      schema.field? field = some f ∧ b.collectors[place]? = some c ∧ c.type = f.type ∧ c.length ≤ b.documents.toNat := by
  have hnumber : (UInt32.ofNat place).toNat = place := by
    rw [UInt32.toNat_ofNat', Nat.mod_eq_of_lt (by omega)]
  have hf : schema.field? (UInt32.ofNat place) = some schema.fields[place] := by
    rw [Schema.field?, hnumber, List.getElem?_eq_getElem hplace]
  obtain ⟨c, hc, htype, hlength, -⟩ := h.collectors _ _ hf
  rw [hnumber] at hc
  exact ⟨_, _, c, hnumber, hf, hc, htype, hlength⟩

theorem Built.length_full (h : Built schema done b) : b.full.length = schema.fields.length := by
  rw [full, List.length_map, List.length_zip, h.schema_eq, Schema.numbered, List.length_mapIdx, Array.length_toList,
    h.size, Nat.min_self]

theorem Built.map_field_full (h : Built schema done b) : b.full.map Full.field = schema.numbered.map Prod.fst := by
  have hlength : schema.numbered.length ≤ b.collectors.toList.length := by
    rw [Schema.numbered, List.length_mapIdx, Array.length_toList, h.size]
  calc b.full.map Full.field = (b.schema.numbered.zip b.collectors.toList).map (Prod.fst ∘ Prod.fst) := by
        rw [full, List.map_map]
        rfl
    _ = ((b.schema.numbered.zip b.collectors.toList).map Prod.fst).map Prod.fst := List.map_map.symm
    _ = schema.numbered.map Prod.fst := by rw [h.schema_eq, List.map_fst_zip hlength]

/-- every column has a value for every document, and the type that the schema says -/
theorem Built.suits (h : Built schema done b) (hfields : schema.fields.length ≤ 2 ^ 32)
    (hsorted : ∀ f ∈ schema.fields, f.type ≠ .sortedBytes) (id : SegmentId) :
    ∀ c ∈ b.full, c.Suits ⟨id, b.documents, ""⟩ schema := by
  intro c hc
  obtain ⟨place, hget⟩ := List.mem_iff_getElem?.1 hc
  have hplace : place < schema.fields.length := by
    rw [← h.length_full]
    exact (List.getElem?_eq_some_iff.1 hget).1
  obtain ⟨field, f, collector, rfl, hf, hcollector, htype, hlength⟩ := h.collector_at hfields hplace
  rw [h.full_get hf hcollector] at hget
  obtain rfl := Option.some.inj hget
  have hplain : collector.type ≠ .sortedBytes := htype ▸ hsorted f (List.mem_of_getElem? hf)
  refine ⟨Collector.length_series hlength, f.name, ?_⟩
  rw [hf, Collector.type_series b.documents hplain, htype]

theorem Built.columns_eq (h : Built schema done b) (hfields : schema.fields.length ≤ 2 ^ 32)
    (hsorted : ∀ f ∈ schema.fields, f.type ≠ .sortedBytes) : b.columns = b.full.map Full.added := by
  rw [columns, full, List.map_map]
  refine List.map_congr_left fun ⟨entry, c⟩ hmem => ?_
  obtain ⟨place, hget⟩ := List.mem_iff_getElem?.1 (List.of_mem_zip hmem).2
  rw [Array.getElem?_toList] at hget
  have hplace : place < schema.fields.length := by
    rw [← h.size]
    exact (Array.getElem?_eq_some_iff.1 hget).1
  obtain ⟨field, f, collector, rfl, hf, hcollector, htype, -⟩ := h.collector_at hfields hplace
  obtain rfl : c = collector := Option.some.inj (hget.symm.trans hcollector)
  have hplain : c.type ≠ .sortedBytes := htype ▸ hsorted f (List.mem_of_getElem? hf)
  exact congrArg (fun values => (entry.1, entry.2.name, values)) (Collector.column_eq b.documents hplain)

/-- the info file leaves a file pair as it is under a naming that does not have its extension -/
theorem filled_of_store {s : Segment} {naming : Naming} {d e : Directory} {info : SegmentInfo}
    {records : List SegmentReader.Record} {payloads : Bytes} {m o : ByteArray} (hn : naming.Valid)
    (hinfo : Segment.infoExtension ∉ naming.extensions) (hd : d.Tidy) (hstore : info.store d = (e, .ok ()))
    (h : s.Filled naming d records payloads m o) : s.Filled naming e records payloads m o := by
  have hapart : ∀ extension ∈ naming.extensions, extension ≠ Segment.infoExtension :=
    fun extension hmem heq => hinfo (heq ▸ hmem)
  obtain ⟨hmetadata, hdata⟩ := h.published
  have hmetadata' := SegmentInfo.read_store hd hstore hn.metadataExtension (hapart _ (by simp [Naming.extensions])) hmetadata
  have hdata' := SegmentInfo.read_store hd hstore hn.dataExtension (hapart _ (by simp [Naming.extensions])) hdata
  exact ⟨⟨hmetadata', hdata'⟩, h.metadata_eq, h.data_eq⟩

/-- **What is built is flushed**, and the segment opens with all columns of the schema, each with what was collected. -/
theorem Built.flush (h : Built schema done b) {d : Directory} {id : SegmentId} {naming : Naming} (hd : d.Reachable)
    (hm : d.medium = .memory) (hf : d.faults = {}) (hnaming : naming.validate = .ok ())
    (hinfo : Segment.infoExtension ∉ naming.extensions) (hfields : schema.fields.length < 2 ^ 32 - 1)
    (hsorted : ∀ f ∈ schema.fields, f.type ≠ .sortedBytes) (hfit : b.dataSize id naming < 2 ^ 63) :
    ∃ e r, b.flush d id naming = (e, .ok ⟨id, b.documents⟩) ∧ SegmentInfo.load e id = .ok ⟨id, b.documents⟩ ∧
      ofDirectory e schema ⟨id, b.documents, ""⟩ naming = .ok r ∧ r.fields = schema.numbered.map Prod.fst ∧
      ∀ c ∈ b.full, ∃ source, r.load c.field = .ok source ∧ c.series.AnsweredBy source := by
  have hfew : schema.fields.length ≤ 2 ^ 32 := by omega
  have hsuits := h.suits hfew hsorted id
  have hrising := Schema.numbered_rising hfew
  have hnodup : (b.full.map Full.field).Nodup := by
    rw [h.map_field_full]
    exact hrising.imp UInt32.ne_of_lt
  -- the columns are laid behind the header
  have : Nonempty Content := ⟨stringsContent [] 0⟩
  choose! content hpayload hplaced using @portable b.documents
  have hend : (Segment.mk id b.documents "").start naming + (payloads content b.full).length < 2 ^ 63 := by
    rw [dataSize] at hfit
    rwa [length_payloads fun c hc => hpayload c (hsuits c hc).length]
  obtain ⟨records, hlaid⟩ := exists_laid (fun c hc => hplaced c (hsuits c hc).length) hend
  -- they are published, stay behind the info file, and are opened
  obtain ⟨e, d₁, m, o, hflush, htidy, hfilled, hstore⟩ :=
    flush_laid hd hm hf hnaming (h.columns_eq hfew hsorted) hlaid
  have hn := Naming.valid_of_validate hnaming
  obtain ⟨r, hopen, hordered, hperm, hfinds⟩ := Laid.open (s := ⟨id, b.documents, ""⟩) hlaid hnaming rfl hsuits
    (fun c hc => (hsuits c hc).field_ne hfields) hnodup (lt_trans hend (by decide))
    (filled_of_store hn hinfo htidy hstore hfilled)
  have hload := SegmentInfo.load_store htidy hstore
  refine ⟨e, r, hflush, hload, hopen, ?_, fun c hc => ?_⟩
  · exact eq_of_rising (h.map_field_full ▸ hperm) hordered hrising
  · exact ⟨(content c).source, (hfinds c hc).load, (hfinds c hc).answers⟩

end SegmentBuilder

/-! ## From calls to answers -/

/-- **A segment answers what was recorded last.** Take a builder after calls in any order, for a schema without sorted
columns. A further call is refused by its column or by its type, with the builder left as it is, and is carried out
otherwise. A flush into memory succeeds, under any naming that keeps off the extension of the info file: it counts as many
documents as the calls that were carried out have asked for, its info is loaded again, and the segment opens with just the
columns of the schema. For each document it then answers the value that was recorded last, or "no value". -/
theorem builder_round_trip (d : Directory) (schema : Schema) (calls : List Call) (id : SegmentId) (naming : Naming)
    (hd : d.Reachable) (hm : d.medium = .memory) (hf : d.faults = {}) (hnaming : naming.validate = .ok ())
    (hinfo : Segment.infoExtension ∉ naming.extensions) (hfields : schema.fields.length < 2 ^ 32 - 1)
    (hsorted : ∀ f ∈ schema.fields, f.type ≠ .sortedBytes) (hcalls : ∀ call ∈ calls, call.Countable)
    (hfit : ((SegmentBuilder.ofSchema schema).callAll calls).dataSize id naming < 2 ^ 63) :
    let b := (SegmentBuilder.ofSchema schema).callAll calls
    let done := (SegmentBuilder.ofSchema schema).accepted calls
    (∀ (field : FieldNumber) (document : UInt32) (value : Value),
      (schema.field? field = none →
        b.call (.put field document value) = (b, .error (.fieldNotFound s!"#{field}"))) ∧
      ∀ f, schema.field? field = some f →
        (f.type ≠ value.type →
          b.call (.put field document value) = (b, .error (.wrongType f.type value.type))) ∧
        (f.type = value.type → (b.call (.put field document value)).2 = .ok ())) ∧
    ∃ e r, b.flush d id naming = (e, .ok ⟨id, b.documents⟩) ∧ b.documents.toNat = Call.extent done ∧
      SegmentInfo.load e id = .ok ⟨id, b.documents⟩ ∧ ofDirectory e schema ⟨id, b.documents, ""⟩ naming = .ok r ∧
      r.fields = schema.numbered.map Prod.fst ∧
      ∀ field f, schema.field? field = some f → ∃ source, r.load field = .ok source ∧
        ∀ document : UInt32, document.toNat < b.documents.toNat →
          source.value f.type document = .ok ((Call.last? field document done).getD (Value.absent f.type)) := by
  intro b done
  have hbuilt : b.Built schema done := (SegmentBuilder.built_ofSchema schema).callAll calls hcalls
  constructor
  · intro field document value
    refine ⟨hbuilt.put_missing document value, fun f hsome => ⟨hbuilt.put_wrong document hsome, fun htype => ?_⟩⟩
    rw [SegmentBuilder.call, hbuilt.put_ok document hsome htype]
  · obtain ⟨e, r, hflush, hload, hopen, hnumbers, hanswers⟩ :=
      hbuilt.flush hd hm hf hnaming hinfo hfields hsorted hfit
    refine ⟨e, r, hflush, hbuilt.documents, hload, hopen, hnumbers, fun field f hsome => ?_⟩
    obtain ⟨c, hc, htype, hlength, hheld⟩ := hbuilt.collectors field f hsome
    obtain ⟨source, hsource, hseries⟩ := hanswers _ (List.mem_of_getElem? (hbuilt.full_get hsome hc))
    refine ⟨source, hsource, fun document hdocument => ?_⟩
    have hplain : c.type ≠ .sortedBytes := htype ▸ hsorted f (List.mem_of_getElem? hsome)
    rw [← hheld, ← htype]
    exact Collector.value_eq hseries hplain hlength hdocument

/-- calls out of order: a value recorded again, two calls that are refused, and one that only grows the segment -/
theorem builder_round_trip_mixed :
    let schema : Schema := ⟨[⟨"n", .int⟩, ⟨"t", .bytes⟩]⟩
    let b := (SegmentBuilder.ofSchema schema).callAll [.put 1 2 (.bytes [0x61]), .put 0 0 (.int 5), .put 2 9 (.int 1),
      .put 0 8 (.bytes []), .ensure 4, .put 0 0 (.int 7)]
    b.call (.put 2 9 (.int 1)) = (b, .error (.fieldNotFound "#2")) ∧
      b.call (.put 0 8 (.bytes [])) = (b, .error (.wrongType .int .bytes)) ∧
      ∃ e r n t, b.flush {} ⟨7⟩ {} = (e, .ok ⟨⟨7⟩, 4⟩) ∧ SegmentInfo.load e ⟨7⟩ = .ok ⟨⟨7⟩, 4⟩ ∧
        ofDirectory e schema ⟨⟨7⟩, 4, ""⟩ {} = .ok r ∧ r.fields = [0, 1] ∧ r.load 0 = .ok n ∧ r.load 1 = .ok t ∧
        n.value .int 0 = .ok (.int 7) ∧ n.value .int 3 = .ok (.int 0) ∧
        t.value .bytes 2 = .ok (.bytes [0x61]) ∧ t.value .bytes 0 = .ok (.bytes []) := by
  have hbuilt : (SegmentBuilder.ofSchema ⟨[⟨"n", .int⟩, ⟨"t", .bytes⟩]⟩).callAll [.put 1 2 (.bytes [0x61]),
      .put 0 0 (.int 5), .put 2 9 (.int 1), .put 0 8 (.bytes []), .ensure 4, .put 0 0 (.int 7)] =
      ⟨⟨[⟨"n", .int⟩, ⟨"t", .bytes⟩]⟩, #[.ints ⟨#[7]⟩, .bytes ⟨#[[], [], [0x61]], 1⟩], 4⟩ := by rfl
  have hdone : (SegmentBuilder.ofSchema ⟨[⟨"n", .int⟩, ⟨"t", .bytes⟩]⟩).accepted [.put 1 2 (.bytes [0x61]),
      .put 0 0 (.int 5), .put 2 9 (.int 1), .put 0 8 (.bytes []), .ensure 4, .put 0 0 (.int 7)] =
      [.put 1 2 (.bytes [0x61]), .put 0 0 (.int 5), .ensure 4, .put 0 0 (.int 7)] := by rfl
  have hvalid : Naming.Valid {} := Naming.valid_of_validate (by rfl)
  -- both columns are small
  have hstart : (Segment.mk ⟨7⟩ 4 "").start {} ≤ 300 :=
    Framing.length_headerBytes_le (h := Segment.dataHeader ⟨⟨7⟩, 4, ""⟩ {}) hvalid.dataCodec rfl
  have hnumbers : (Full.payload ⟨0, "n", .numbers .int [7, 0, 0, 0]⟩ 4).length ≤ 2100 + 64 * 4 :=
    length_data_le 0 "n" (some 4) 0 [7, 0, 0, 0] (by decide) (by rfl)
  have hstrings : (Full.payload ⟨1, "t", .strings [[], [], [0x61], []]⟩ 4).length ≤ 1 + 48 + 23 * 4 :=
    @length_stringBytes_le [[], [], [0x61], []] (by decide)
  intro schema b
  have hfit : b.dataSize ⟨7⟩ {} < 2 ^ 63 := by
    have hfull : b.full = [⟨0, "n", .numbers .int [7, 0, 0, 0]⟩, ⟨1, "t", .strings [[], [], [0x61], []]⟩] := by
      rw [show b = _ from hbuilt]
      rfl
    rw [SegmentBuilder.dataSize, hfull, show b = _ from hbuilt]
    simp only [List.map_cons, List.map_nil, List.sum_cons, List.sum_nil]
    omega
  obtain ⟨hrefused, e, r, hflush, -, hload, hopen, hfields, hanswers⟩ := builder_round_trip {} schema _ ⟨7⟩ {}
    Directory.reachable_empty rfl rfl (by rfl) (by decide) (by decide) (by decide) (by simp [Call.Countable]) hfit
  have hmissing : b.call (.put 2 9 (.int 1)) = (b, .error (.fieldNotFound "#2")) := (hrefused 2 9 (.int 1)).1 rfl
  have hwrong := ((hrefused 0 8 (.bytes [])).2 _ rfl).1 (by decide)
  obtain ⟨n, hn, hints⟩ := hanswers 0 ⟨"n", .int⟩ rfl
  obtain ⟨t, ht, hbytes⟩ := hanswers 1 ⟨"t", .bytes⟩ rfl
  rw [show (SegmentBuilder.ofSchema schema).accepted _ = _ from hdone] at hints hbytes
  rw [show (SegmentBuilder.ofSchema schema).callAll _ = _ from hbuilt] at hflush hload hopen hints hbytes
  refine ⟨hmissing, hwrong, e, r, n, t, ?_, hload, hopen, hfields, hn, ht, hints 0 (by decide), hints 3 (by decide),
    hbytes 2 (by decide), hbytes 0 (by decide)⟩
  rw [show b = _ from hbuilt]
  exact hflush

end ColumnStore
