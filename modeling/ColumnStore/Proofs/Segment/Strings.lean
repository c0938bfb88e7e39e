/-
A column of byte strings comes back out of a segment as it went in.

Strings of any lengths are written end to end, with their addresses behind them, and a document's string is what stands
between two neighbouring addresses. So every document has its string again, however many blocks the addresses take
(`strings_round_trip`).
-/
import ColumnStore.Proofs.Segment.Columns

namespace ColumnStore

open Storage Column

/-- **Byte strings come back as they went in.** A column of byte strings, with a string for every document, is written to
a segment in memory, the segment opens, and the loaded column answers for each document just its string, and for no other
document. The number of the end mark is no column's: a schema would need `2 ^ 32` columns to have it. -/
theorem strings_round_trip (d : Directory) (s : Segment) (naming : Naming) (schema : Schema) (field : FieldNumber)
    (name : String) (ws : List Bytes) (hm : d.medium = .memory) (hf : d.faults = {}) (hd : d.Reachable)
    (hnaming : naming.validate = .ok ()) (hsuffix : Framing.isName s.suffix = true)
    (hfield : field ≠ SegmentWriter.endMark) (hschema : ∃ label, schema.field? field = some ⟨label, .bytes⟩)
    (hlength : ws.length = s.documents.toNat) (hfit : ws.flatten.length < 2 ^ 63) :
    RoundTrips d s naming schema field name (.bytes (ws.map some)) fun r => ∃ source, r.load field = .ok source ∧
      source.count = .ok s.documents ∧ ∀ document, source.bytes document =
        if h : document.toNat < ws.length then .ok ws[document.toNat] else .error (.documentNotFound document) := by
  have hn := Naming.valid_of_validate hnaming
  have hstart : s.start naming ≤ 300 := Framing.length_headerBytes_le hn.dataCodec hsuffix
  have hbound := length_stringBytes_le hfit
  have hdocuments := s.documents.toNat_lt
  set c : Full := ⟨field, name, .strings ws⟩ with hc
  set content := stringsContent ws s.documents
  set record := stringsRecord field ws s.documents (s.start naming)
  have hplaced : Placed s.documents c content (s.start naming) record :=
    placed_strings field name hlength hfit (by omega)
  obtain ⟨d₁, w, w', d₂, m, o, hcreate, hadd, hclose, hwritten⟩ :=
    SegmentWriter.write_single (.bytes (ws.map some)) hm hf hd.tidy hnaming hsuffix hplaced.outcome
  have hwritten : s.Written naming d₂ (c.plan s.documents (s.start naming)) m o := hwritten
  -- the segment of this column alone is one of columns that are laid
  have hlaid : Laid s.documents (fun _ => content) (s.start naming) [c] [record] := .cons hplaced (.nil _)
  have hpayloads : payloads (fun _ => content) [c] = content.payload := List.flatMap_singleton _ _
  have hrecords : [record].flatMap SegmentReader.Record.whole = record.whole := List.flatMap_singleton _ _
  have hfilled : s.Filled naming d₂ [record] (payloads (fun _ => content) [c]) m o := by
    refine ⟨hwritten.published, ?_, ?_⟩
    · rw [hrecords, ← hplaced.metadata]
      exact hwritten.metadata_eq
    · rw [hpayloads, ← hplaced.data]
      exact hwritten.data_eq
  have hsuits : ∀ c' ∈ [c], c'.Suits s schema := by
    intro c' hc'
    obtain rfl := List.mem_singleton.1 hc'
    exact ⟨hlength, hschema⟩
  have hsize : s.start naming + (payloads (fun _ => content) [c]).length < addressLimit := by
    have hpayload : content.payload = stringBytes ws := rfl
    rw [hpayloads, hpayload, addressLimit]
    omega
  obtain ⟨r, hopen, -, -, hfinds⟩ := hlaid.open hnaming hsuffix hsuits (by simpa [hc] using hfield)
    (List.nodup_singleton _) hsize hfilled
  have hload : r.load field = .ok (.strings (StringTable.table ws s.documents)) :=
    (hfinds c (List.mem_singleton_self c)).load
  exact ⟨d₁, w, w', _, d₂, r, hcreate, hadd, hclose, hopen, _, hload, rfl, strings_document hlength hfit⟩

/-- three strings, of which one is empty -/
theorem strings_round_trip_three :
    RoundTrips {} ⟨⟨7⟩, 3, "a"⟩ {} ⟨[⟨"t", .bytes⟩]⟩ 0 "t" (.bytes [some [0x61], some [], some [0x62, 0x63]]) fun r =>
      ∃ source, r.load 0 = .ok source ∧ source.count = .ok 3 ∧ source.bytes 1 = .ok [] ∧
        source.bytes 2 = .ok [0x62, 0x63] ∧ source.bytes 3 = .error (.documentNotFound 3) := by
  obtain ⟨d₁, w, w', layout, d₂, r, hcreate, hadd, hclose, hopen, source, hload, hcount, hbytes⟩ :=
    strings_round_trip {} ⟨⟨7⟩, 3, "a"⟩ {} ⟨[⟨"t", .bytes⟩]⟩ 0 "t" [[0x61], [], [0x62, 0x63]] rfl rfl
      Directory.reachable_empty rfl rfl (by decide) ⟨"t", rfl⟩ rfl (by decide)
  exact ⟨d₁, w, w', layout, d₂, r, hcreate, hadd, hclose, hopen, source, hload, hcount, hbytes 1, hbytes 2, hbytes 3⟩

end ColumnStore
