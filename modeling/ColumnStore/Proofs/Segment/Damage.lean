/-
Damage to a published segment is noticed.

Whatever was written, and whatever faults the directory showed: once `close` succeeded, both files pass the footer
check, and a copy of either that was changed in at most four consecutive bytes fails it, and keeps the segment from
being opened. The metadata file is looked at first. While it is as it was written, opening can only fail with a corrupt
file before it comes to the data file (`ofDirectory_corrupt_data`).
-/
import ColumnStore.Proofs.Segment.RoundTrip

namespace ColumnStore

open Storage Storage.Reading Column

namespace SegmentReader

variable {d : Directory} {s : Segment} {naming : Naming} {schema : Schema} {file : ByteArray} {cause : Corruption}

/-! ## Files that fail their footer check -/

/-- a file that fails its footer check does not open -/
theorem openFile_corrupt {name : String} (header : Framing.Identity) (hread : d.read name = .ok file)
    (h : Framing.checkFooter { name := name, data := file } = .error (.corruption cause)) :
    openFile d name header = .error (.corruption cause) := by
  simp only [openFile, readFile, hread, bind, Except.bind, h]

/-- a file that can be read opens, or it is corrupt -/
theorem openFile_cases {name : String} (header : Framing.Identity) (hread : d.read name = .ok file) :
    (∃ opened, openFile d name header = .ok opened) ∨ ∃ cause, openFile d name header = .error (.corruption cause) := by
  rcases Framing.checkFooter_cases { name := name, data := file } with ⟨stop, hstop⟩ | ⟨cause, hcorrupt⟩
  · simp only [openFile, readFile, hread, bind, Except.bind, hstop]
    have hchecked := Framing.checked_checkHeader header.codec Segment.leastVersion Segment.greatestVersion header.id
      header.suffix { name := name, data := file }
    split
    · exact .inl ⟨_, rfl⟩
    · next heq =>
      rw [heq] at hchecked
      obtain ⟨cause, rfl⟩ := hchecked
      exact .inr ⟨cause, rfl⟩
  · exact .inr ⟨cause, openFile_corrupt header hread hcorrupt⟩

theorem ofDirectory_corrupt_metadata (hn : naming.validate = .ok ()) (hread : d.read (s.metadataFile naming) = .ok file)
    (h : Framing.checkFooter { name := s.metadataFile naming, data := file } = .error (.corruption cause)) :
    ofDirectory d schema s naming = .error (.corruption cause) := by
  have hopen := openFile_corrupt (s.metadataHeader naming) hread h
  simp only [ofDirectory, hn, bind, Except.bind, hopen]

theorem ofDirectory_corrupt_data {metadata : ByteArray} (hn : naming.validate = .ok ())
    (hmetadata : d.read (s.metadataFile naming) = .ok metadata) (hread : d.read (s.dataFile naming) = .ok file)
    (h : Framing.checkFooter { name := s.dataFile naming, data := file } = .error (.corruption cause)) :
    ∃ cause, ofDirectory d schema s naming = .error (.corruption cause) := by
  have hdata := openFile_corrupt (s.dataHeader naming) hread h
  rcases openFile_cases (s.metadataHeader naming) hmetadata with ⟨⟨stop, version, input⟩, hopened⟩ | ⟨cause, hcorrupt⟩
  · simp only [ofDirectory, hn, bind, Except.bind, hopened]
    have hchecked := checked_readEntries s.documents input
    split
    · next heq =>
      rw [heq] at hchecked
      obtain ⟨cause, rfl⟩ := hchecked
      exact ⟨cause, rfl⟩
    · split_ifs
      · exact ⟨_, rfl⟩
      · rw [hdata]
        exact ⟨_, rfl⟩
  · refine ⟨cause, ?_⟩
    simp only [ofDirectory, hn, bind, Except.bind, hcorrupt]

end SegmentReader

namespace SegmentWriter

variable {d d' : Directory} {s : Segment} {naming : Naming} {w : SegmentWriter}

theorem Session.validate (h : Session s naming d w) : naming.validate = .ok () := by
  induction h with
  | create _ created =>
    unfold SegmentWriter.create at created
    split at created
    · simp at created
    · next hvalidate => exact hvalidate
  | add _ _ _ _ ih => exact ih
  | elsewhere _ _ ih => exact ih

/-- **Damage is noticed.** Both files of a published segment pass the footer check. A copy of either that was changed
in at most four consecutive bytes is corrupt, and so is the segment that has it in the place of the file. -/
theorem Session.damage_noticed (h : Session s naming d w) (hclose : w.close d = (d', .ok ())) :
    ∃ metadata data : ByteArray, Published s naming d' metadata data ∧
      (∀ i : Input, i.data = metadata ∨ i.data = data →
        Framing.footerSize ≤ i.length ∧ Framing.checkFooter i = .ok (i.length - Framing.footerSize)) ∧
      (∀ i : Input, Crc32.Damaged (Bytes.ofArray metadata) (Bytes.ofArray i.data) ∨
          Crc32.Damaged (Bytes.ofArray data) (Bytes.ofArray i.data) →
        ∃ cause, Framing.checkFooter i = .error (.corruption cause)) ∧
      ∀ (e : Directory) (schema : Schema) (metadata' data' : ByteArray), Published s naming e metadata' data' →
        Crc32.Damaged (Bytes.ofArray metadata) (Bytes.ofArray metadata') ∧ data' = data ∨
          metadata' = metadata ∧ Crc32.Damaged (Bytes.ofArray data) (Bytes.ofArray data') →
        ∃ cause, SegmentReader.ofDirectory e schema s naming = .error (.corruption cause) := by
  obtain ⟨-, metadata, data, metadataBody, dataBody, hpublished, hmetadata, hdata⟩ := h.close_spec hclose
  have hundamaged : ∀ (i : Input) (body : Bytes), Bytes.ofArray i.data = body ++ Framing.footer body →
      Framing.footerSize ≤ i.length ∧ Framing.checkFooter i = .ok (i.length - Framing.footerSize) := by
    intro i body hbody
    have hlength : i.length = body.length + Framing.footerSize := by
      rw [← Framing.length_footer body, ← List.length_append, ← hbody]
      rfl
    refine ⟨by omega, Framing.checkFooter_eq_ok_iff.2 ⟨body, hbody, by omega⟩⟩
  have hdamaged : ∀ i : Input, Crc32.Damaged (Bytes.ofArray metadata) (Bytes.ofArray i.data) ∨
      Crc32.Damaged (Bytes.ofArray data) (Bytes.ofArray i.data) →
      ∃ cause, Framing.checkFooter i = .error (.corruption cause) := by
    rintro i (hdamage | hdamage)
    · exact Framing.checkFooter_damaged (hmetadata ▸ hdamage)
    · exact Framing.checkFooter_damaged (hdata ▸ hdamage)
  refine ⟨metadata, data, hpublished, ?_, hdamaged, ?_⟩
  · rintro i (hi | hi)
    · exact hundamaged i metadataBody (hi ▸ hmetadata)
    · exact hundamaged i dataBody (hi ▸ hdata)
  · rintro e schema metadata' data' hpublished' (⟨hdamage, -⟩ | ⟨-, hdamage⟩)
    · obtain ⟨cause, hcause⟩ := hdamaged { name := s.metadataFile naming, data := metadata' } (.inl hdamage)
      exact ⟨cause, SegmentReader.ofDirectory_corrupt_metadata h.validate hpublished'.1 hcause⟩
    · obtain ⟨cause, hcause⟩ := hdamaged { name := s.dataFile naming, data := data' } (.inr hdamage)
      exact SegmentReader.ofDirectory_corrupt_data h.validate hpublished'.1 hpublished'.2 hcause

/-- damage to a segment of one column with one value -/
theorem damage_noticed_single :
    ∃ d₁ w w' layout d', create {} ⟨⟨7⟩, 1, "a"⟩ {} = (d₁, .ok w) ∧
      w.add d₁ 0 "n" (.ints [some 5]) = (d₁, w', .ok layout) ∧ w'.close d₁ = (d', .ok ()) ∧
      ∃ metadata data : ByteArray, Published ⟨⟨7⟩, 1, "a"⟩ {} d' metadata data ∧
        (∀ i : Input, i.data = data → Framing.checkFooter i = .ok (i.length - Framing.footerSize)) ∧
        ∀ (e : Directory) (schema : Schema) (data' : ByteArray), Published ⟨⟨7⟩, 1, "a"⟩ {} e metadata data' →
          Crc32.Damaged (Bytes.ofArray data) (Bytes.ofArray data') →
          ∃ cause, SegmentReader.ofDirectory e schema ⟨⟨7⟩, 1, "a"⟩ {} = .error (.corruption cause) := by
  have hvalid : Naming.validate {} = .ok () := rfl
  have hfield : (0 : FieldNumber) ≠ SegmentWriter.endMark := by decide
  have hlength : [(5 : Int64)].length = (1 : UInt32).toNat := rfl
  have hlabel : Schema.field? ⟨[⟨"n", .int⟩]⟩ 0 = some ⟨"n", .int⟩ := rfl
  obtain ⟨d₁, w, w', layout, d', -, hcreate, hadd, hclose, -⟩ :=
    numbers_load (d := {}) (s := ⟨⟨7⟩, 1, "a"⟩) "n" (.ints [some 5]) .int rfl rfl Directory.reachable_empty hvalid rfl
      hfield hlength rfl (fun _ => SegmentReader.checkSchema_ok hlabel rfl)
      (fun r hr => by rw [SegmentReader.kind, hr, hlabel])
  have hsession := (Session.create Directory.reachable_empty hcreate).add 0 "n" (.ints [some 5])
  rw [hadd] at hsession
  obtain ⟨metadata, data, hpublished, hundamaged, -, hdamaged⟩ := hsession.damage_noticed hclose
  exact ⟨d₁, w, w', layout, d', hcreate, hadd, hclose, metadata, data, hpublished, fun i hi => (hundamaged i (.inr hi)).2,
    fun e schema data' hother hdamage => hdamaged e schema metadata data' hother (.inr ⟨rfl, hdamage⟩)⟩

end SegmentWriter

end ColumnStore
