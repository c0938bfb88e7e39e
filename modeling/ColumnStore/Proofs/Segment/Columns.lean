/-
Segments of several columns: each column is found again as if it were alone.

`Laid` puts columns one behind the other, each where the payload of the one before it ends. Columns that are laid so are
written, in that order, and the segment opens with the entries of all of them (`Laid.addAll`, `Laid.write`, `Laid.open`).
What is found of a column is its content, which depends neither on the other columns nor on their order
(`columns_apart`).
-/
import ColumnStore.Proofs.Segment.Entries
import ColumnStore.Proofs.Segment.Placement
import ColumnStore.Segment.Builder

namespace ColumnStore

open Storage Column SegmentReader

namespace Column

/-! ## Columns one behind the other -/

def payloads (content : Full → Content) (columns : List Full) : Bytes := columns.flatMap fun c => (content c).payload

/-- columns whose payloads stand one behind the other from an offset on, with their records -/
inductive Laid (documents : UInt32) (content : Full → Content) : Nat → List Full → List Record → Prop where
  | nil (offset : Nat) : Laid documents content offset [] []
  | cons {offset : Nat} {c : Full} {r : Record} {columns : List Full} {records : List Record}
      (placed : Placed documents c (content c) offset r)
      (rest : Laid documents content (offset + (content c).payload.length) columns records) :
      Laid documents content offset (c :: columns) (r :: records)

variable {documents : UInt32} {content : Full → Content} {offset : Nat} {columns : List Full} {records : List Record}

/-- the payloads take as many bytes as those of the columns one by one -/
theorem length_payloads (hpayload : ∀ c ∈ columns, (content c).payload = c.payload documents) :
    (payloads content columns).length = (columns.map fun c => (c.payload documents).length).sum := by
  rw [payloads, List.length_flatMap]
  exact congrArg List.sum (List.map_congr_left fun c hc => by rw [hpayload c hc])

theorem exists_laid (hplaced : ∀ c ∈ columns, ∀ offset, offset + (content c).payload.length < 2 ^ 63 →
      ∃ r, Placed documents c (content c) offset r)
    (hfit : offset + (payloads content columns).length < 2 ^ 63) :
    ∃ records, Laid documents content offset columns records := by
  induction columns generalizing offset with
  | nil => exact ⟨[], .nil offset⟩
  | cons c columns ih =>
    rw [payloads, List.flatMap_cons, List.length_append] at hfit
    obtain ⟨r, hr⟩ := hplaced c List.mem_cons_self offset (by omega)
    have hrest : offset + (content c).payload.length + (payloads content columns).length < 2 ^ 63 := by
      rw [payloads]
      omega
    obtain ⟨records, hrest⟩ := ih (fun c' hc' => hplaced c' (List.mem_cons_of_mem _ hc')) hrest
    exact ⟨r :: records, .cons hr hrest⟩

namespace Laid

theorem fields (h : Laid documents content offset columns records) :
    records.map Record.field = columns.map Full.field := by
  induction h with
  | nil offset => rfl
  | cons placed rest ih => rw [List.map_cons, List.map_cons, placed.field, ih]

theorem length_records (h : Laid documents content offset columns records) :
    (records.flatMap Record.whole).length ≤ 38 * columns.length := by
  induction h with
  | nil offset => simp
  | cons placed rest ih =>
    have hshort := placed.short
    rw [List.flatMap_cons, List.length_append, List.length_cons]
    omega

end Laid

/-- a column that is placed somewhere in bytes that start at an offset -/
def Stands (documents : UInt32) (content : Content) (start : Nat) (bytes : Bytes) (c : Full) (r : Record) : Prop :=
  ∃ before after, bytes = before ++ content.payload ++ after ∧ Placed documents c content (start + before.length) r

theorem Stands.behind {content : Content} {first bytes : Bytes} {start : Nat} {c : Full} {r : Record}
    (h : Stands documents content (start + first.length) bytes c r) :
    Stands documents content start (first ++ bytes) c r := by
  obtain ⟨before, after, rfl, hplaced⟩ := h
  refine ⟨first ++ before, after, by simp, ?_⟩
  rwa [List.length_append, ← Nat.add_assoc]

theorem Stands.offsets {content : Content} {bytes : Bytes} {start : Nat} {c : Full} {r : Record}
    (h : Stands documents content start bytes c r) : r.entry.checkOffsets start (start + bytes.length) = .ok () := by
  obtain ⟨before, after, rfl, hplaced⟩ := h
  refine hplaced.offsets _ _ (Nat.le_add_right _ _) ?_
  rw [List.length_append, List.length_append]
  omega

/-- every column that is laid stands somewhere, and every record is that of a column -/
theorem Laid.stands (h : Laid documents content offset columns records) :
    (∀ c ∈ columns, ∃ r ∈ records, Stands documents (content c) offset (payloads content columns) c r) ∧
      ∀ r ∈ records, ∃ c ∈ columns, Stands documents (content c) offset (payloads content columns) c r := by
  induction h with
  | nil offset => simp
  | @cons offset c r columns records placed rest ih =>
    obtain ⟨hcolumns, hrecords⟩ := ih
    have hfirst : Stands documents (content c) offset (payloads content (c :: columns)) c r :=
      ⟨[], payloads content columns, rfl, placed⟩
    constructor
    · intro c' hc'
      rcases List.mem_cons.1 hc' with rfl | hc'
      · exact ⟨r, List.mem_cons_self, hfirst⟩
      · obtain ⟨r', hr', hstands⟩ := hcolumns c' hc'
        exact ⟨r', List.mem_cons_of_mem _ hr', hstands.behind⟩
    · intro r' hr'
      rcases List.mem_cons.1 hr' with rfl | hr'
      · exact ⟨c, List.mem_cons_self, hfirst⟩
      · obtain ⟨c', hc', hstands⟩ := hrecords r' hr'
        exact ⟨c', List.mem_cons_of_mem _ hc', hstands.behind⟩

end Column

/-! ## Writing -/

/-- the file pair of a segment that holds these records and these payloads, byte by byte -/
structure Segment.Filled (s : Segment) (naming : Naming) (d : Directory) (records : List Record) (payloads : Bytes)
    (metadata data : ByteArray) : Prop where
  published : SegmentWriter.Published s naming d metadata data
  metadata_eq : Bytes.ofArray metadata = Framing.headerBytes (s.metadataHeader naming) ++
    records.flatMap Record.whole ++ SegmentWriter.endBytes ++ Framing.footer (Framing.headerBytes
      (s.metadataHeader naming) ++ records.flatMap Record.whole ++ SegmentWriter.endBytes)
  data_eq : Bytes.ofArray data = Framing.headerBytes (s.dataHeader naming) ++ payloads ++
    Framing.footer (Framing.headerBytes (s.dataHeader naming) ++ payloads)

namespace Column

variable {content : Full → Content} {offset : Nat} {columns : List Full} {records : List Record} {d d₁ : Directory}
  {s : Segment} {naming : Naming} {w : SegmentWriter}

/-- a column that was added where it is placed leaves its record and its payload, whatever faults there are -/
theorem Placed.added {c : Full} {content : Content} {r : Record} {layout : Layout} {metadata data : Bytes} {d' : Directory}
    {w' : SegmentWriter} (h : Placed s.documents c content data.length r)
    (hopen : SegmentWriter.Open s naming d w metadata data) (hfailed : w.failed = false)
    (hadd : w.add d c.field c.name c.series.values = (d', w', .ok layout)) :
    w'.failed = false ∧ SegmentWriter.Open s naming d' w' (metadata ++ r.whole) (data ++ content.payload) := by
  have hfailed' : w'.failed = false := hfailed ▸ (SegmentWriter.outcome_of_add hadd).2.2
  refine ⟨hfailed', ?_⟩
  rcases SegmentWriter.add_spec hopen c.field c.name c.series.values with habsurd | ⟨-, -, -, hopen'⟩
  · rw [hadd, hfailed'] at habsurd
    simp at habsurd
  · rw [hadd] at hopen'
    have hmetadata : (c.series.values.plan c.field c.name s.documents data.length).bytes .metadata = r.whole := h.metadata
    have hdata : (c.series.values.plan c.field c.name s.documents data.length).bytes .data = content.payload := h.data
    rwa [hmetadata, hdata] at hopen'

theorem Laid.added {metadata data : Bytes} {d' : Directory} {w' : SegmentWriter}
    (hlaid : Laid s.documents content offset columns records) (hoffset : offset = data.length)
    (hopen : SegmentWriter.Open s naming d w metadata data) (hfailed : w.failed = false)
    (hadd : SegmentBuilder.addAll d w (columns.map Full.added) = (d', w', .ok ())) :
    w'.failed = false ∧
      SegmentWriter.Open s naming d' w' (metadata ++ records.flatMap Record.whole) (data ++ payloads content columns) := by
  induction hlaid generalizing d w metadata data with
  | nil offset =>
    obtain ⟨rfl, rfl⟩ : d = d' ∧ w = w' := by simpa [SegmentBuilder.addAll] using hadd
    exact ⟨hfailed, by simpa [payloads] using hopen⟩
  | @cons offset c r columns records placed rest ih =>
    subst hoffset
    rw [List.map_cons, Full.added, SegmentBuilder.addAll] at hadd
    split at hadd
    · next hfirst =>
      obtain ⟨hfailed', hopen'⟩ := placed.added hopen hfailed hfirst
      have hlast := ih (by rw [List.length_append]) hopen' hfailed' hadd
      rwa [payloads, List.flatMap_cons, List.flatMap_cons, ← List.append_assoc, ← List.append_assoc]
    · simp at hadd

/-- without faults columns that are laid from the end of the data file on are added -/
theorem Laid.addAll {metadata data : Bytes} (hlaid : Laid s.documents content offset columns records)
    (hoffset : offset = data.length) (hopen : SegmentWriter.Open s naming d w metadata data) (hf : w.Faultless)
    (hfailed : w.failed = false) :
    ∃ e w', SegmentBuilder.addAll d w (columns.map Full.added) = (e, w', .ok ()) ∧ w'.Faultless := by
  induction hlaid generalizing d w metadata data with
  | nil offset => exact ⟨d, w, rfl, hf⟩
  | @cons offset c r columns records placed rest ih =>
    subst hoffset
    have houtcome := placed.outcome
    rw [Full.plan, ← hopen.documents, ← hopen.position] at houtcome
    obtain ⟨e, w', hadd, hf', -⟩ := SegmentWriter.add_faultless d hf houtcome
    obtain ⟨hfailed', hopen'⟩ := placed.added hopen hfailed hadd
    obtain ⟨f, w'', hrest, hf''⟩ := ih (by rw [List.length_append]) hopen' hf' hfailed'
    refine ⟨f, w'', ?_, hf''⟩
    rw [List.map_cons, Full.added, SegmentBuilder.addAll, hadd]
    exact hrest

/-- **Columns that are laid from the start of the data file on are written**, and both files are published. -/
theorem Laid.write (hlaid : Laid s.documents content (s.start naming) columns records) (hd : d.Tidy)
    (hf : d.faults = {}) (hcreate : SegmentWriter.create d s naming = (d₁, .ok w)) :
    ∃ d₂ w' d₃ m o, SegmentBuilder.addAll d₁ w (columns.map Full.added) = (d₂, w', .ok ()) ∧
      w'.close d₂ = (d₃, .ok ()) ∧ d₃.Tidy ∧ s.Filled naming d₃ records (payloads content columns) m o := by
  obtain ⟨hn, hfailed, -, hopen⟩ := SegmentWriter.create_spec hd hcreate
  obtain ⟨d₂, w', hadd, hfaultless⟩ := hlaid.addAll rfl hopen (SegmentWriter.create_faultless hd hf hcreate) hfailed
  obtain ⟨hfailed', hopen'⟩ := hlaid.added rfl hopen hfailed hadd
  obtain ⟨d₃, hclose⟩ := SegmentWriter.close_faultless d₂ hfaultless hfailed'
  obtain ⟨htidy, -, m, o, hpublished, hm, ho⟩ := SegmentWriter.close_spec hn hopen' hclose
  exact ⟨d₂, w', d₃, m, o, hadd, hclose, htidy, hpublished, hm, ho⟩

end Column

/-! ## Opening -/

/-- a reader that finds a column with all that is kept of it, and answers its values -/
structure SegmentReader.Finds (r : SegmentReader) (c : Full) (content : Content) : Prop where
  entry : ∃ entry, r.entry? c.field = some entry ∧ entry.form = content.form
  load : r.load c.field = .ok content.source
  answers : c.series.AnsweredBy content.source

namespace Column

/-- a column is found with its content, if its record is there and its payload where the record says -/
theorem Placed.finds {q : SegmentReader} {c : Full} {content : Content} {offset : Nat} {r : Record}
    (h : Placed q.documents c content offset r) (hordered : Ordered q.entries) (hmem : (c.field, r.entry) ∈ q.entries)
    (hschema : ∃ label, q.schema.field? c.field = some ⟨label, c.series.type⟩)
    (hholds : q.data.Holds offset content.payload) : q.Finds c content := by
  have hfind := found_of_mem hordered hmem
  have hentry : q.entry c.field = .ok r.entry := by rw [SegmentReader.entry, hfind]
  exact ⟨⟨r.entry, hfind, h.form⟩, h.loads q hentry rfl hschema hholds, h.answers⟩

/-- a column that has a value for every document of a segment, and its type in the schema -/
structure Full.Suits (c : Full) (s : Segment) (schema : Schema) : Prop where
  length : c.series.length = s.documents.toNat
  schema : ∃ label, schema.field? c.field = some ⟨label, c.series.type⟩

variable {content : Full → Content} {columns : List Full} {records : List Record} {d : Directory} {s : Segment}
  {naming : Naming} {schema : Schema}

/-- a schema with few enough fields has none with the number of the end mark -/
theorem Full.Suits.field_ne {c : Full} (h : c.Suits s schema) (hfields : schema.fields.length < 2 ^ 32 - 1) :
    c.field ≠ SegmentWriter.endMark := by
  obtain ⟨label, hlabel⟩ := h.schema
  obtain ⟨hlt, -⟩ := List.getElem?_eq_some_iff.1 hlabel
  rintro hmark
  rw [hmark] at hlt
  have hmark : SegmentWriter.endMark.toNat = 2 ^ 32 - 1 := rfl
  omega

/-- there are only so many field numbers -/
theorem length_le_of_nodup {fields : List FieldNumber} (h : fields.Nodup) : fields.length ≤ 2 ^ 32 := by
  have hnodup : (fields.map UInt32.toNat).Nodup := h.map fun _ _ => UInt32.toNat_inj.1
  have hsubset : fields.map UInt32.toNat ⊆ List.range (2 ^ 32) := by
    intro n hn
    obtain ⟨field, -, rfl⟩ := List.mem_map.1 hn
    exact List.mem_range.2 field.toNat_lt
  have hle := (hnodup.subperm hsubset).length_le
  rwa [List.length_map, List.length_range] at hle

/-- the metadata file of columns that are laid can be addressed: there are only so many of them, and all records are
short -/
theorem Laid.metadata_size_lt {m o : ByteArray} (hlaid : Laid s.documents content (s.start naming) columns records)
    (hn : naming.Valid) (hsuffix : Framing.isName s.suffix = true) (hnodup : (columns.map Full.field).Nodup)
    (hfilled : s.Filled naming d records (payloads content columns) m o) : m.size < addressLimit := by
  have hmany := length_le_of_nodup hnodup
  have hshort := hlaid.length_records
  have hheader := Framing.length_headerBytes_le (h := s.metadataHeader naming) hn.metadataCodec hsuffix
  have hmark : SegmentWriter.endBytes.length ≤ 5 := Varint.length_encode_le (by decide) (by decide)
  have hlength := congrArg List.length hfilled.metadata_eq
  rw [Bytes.length_ofArray, List.length_append, List.length_append, List.length_append, Framing.length_footer,
    Framing.footerSize] at hlength
  rw [List.length_map] at hmany
  rw [addressLimit]
  omega

/-- a column that stands in the body of the data file is found, if its record is there -/
theorem Stands.finds {q : SegmentReader} {c : Full} {content : Content} {r : Record} {first bytes : Bytes}
    (h : Stands q.documents content first.length bytes c r) (hordered : Ordered q.entries) (hmem : r.numbered ∈ q.entries)
    (hschema : ∃ label, q.schema.field? c.field = some ⟨label, c.series.type⟩)
    (hbody : Bytes.ofArray q.data.data = first ++ bytes) (hlimit : q.data.data.size < addressLimit) :
    q.Finds c content := by
  obtain ⟨before, after, rfl, hplaced⟩ := h
  have hparts : Bytes.ofArray q.data.data = (first ++ before) ++ content.payload ++ after := by
    rw [hbody]
    simp only [List.append_assoc]
  have hholds := Input.Holds.of_append hparts hlimit
  rw [List.length_append] at hholds
  rw [Record.numbered, hplaced.field] at hmem
  exact hplaced.finds hordered hmem hschema hholds

/-- **A segment of columns that are laid opens** with the entries of all of them, in the order of their numbers, and each
column is found with its content. -/
theorem Laid.open {m o : ByteArray} (hlaid : Laid s.documents content (s.start naming) columns records)
    (hnaming : naming.validate = .ok ()) (hsuffix : Framing.isName s.suffix = true)
    (hsuits : ∀ c ∈ columns, c.Suits s schema) (hmark : ∀ c ∈ columns, c.field ≠ SegmentWriter.endMark)
    (hnodup : (columns.map Full.field).Nodup)
    (hfit : s.start naming + (payloads content columns).length < addressLimit)
    (hfilled : s.Filled naming d records (payloads content columns) m o) :
    ∃ r, ofDirectory d schema s naming = .ok r ∧ r.fields.Pairwise (· < ·) ∧
      r.fields.Perm (columns.map Full.field) ∧ ∀ c ∈ columns, r.Finds c (content c) := by
  have hsize := hlaid.metadata_size_lt (Naming.valid_of_validate hnaming) hsuffix hnodup hfilled
  obtain ⟨hcolumns, hrecords⟩ := hlaid.stands
  have hreadable : ∀ r ∈ records, r.Readable s.documents := by
    intro r hr
    obtain ⟨c, hc, before, after, -, hplaced⟩ := hrecords r hr
    exact ⟨hplaced.field ▸ hmark c hc, hplaced.takes, hplaced.count⟩
  obtain ⟨entries, hinsert, hordered, hperm⟩ := insertAll?_ordered (List.Pairwise.nil : Ordered [])
    (hlaid.fields ▸ hnodup) (by simp)
  rw [List.append_nil] at hperm
  have hentries : checkEntries schema (Framing.headerBytes (s.dataHeader naming)).length
      (Framing.headerBytes (s.dataHeader naming) ++ payloads content columns).length entries = .ok () := by
    refine checkEntries_ok fun e he => ?_
    obtain ⟨r, hr, rfl⟩ := List.mem_map.1 (hperm.mem_iff.1 he)
    obtain ⟨c, hc, hstands⟩ := hrecords r hr
    have hoffsets := hstands.offsets
    obtain ⟨before, after, -, hplaced⟩ := hstands
    obtain ⟨label, hlabel⟩ := (hsuits c hc).schema
    rw [List.length_append]
    exact ⟨hoffsets, checkSchema_ok (hplaced.field ▸ hlabel) hplaced.fits⟩
  obtain ⟨body, hbody, hopen⟩ := ofDirectory_eq hnaming hsuffix hfilled.published hsize hfilled.metadata_eq
    hfilled.data_eq hreadable hinsert hentries
  have hlimit : body.size < addressLimit := by
    have hlength := congrArg List.length hbody
    rw [Bytes.length_ofArray, List.length_append] at hlength
    rw [hlength]
    exact hfit
  refine ⟨_, hopen, List.pairwise_map.2 hordered, ?_, ?_⟩
  · have hfields := hperm.map Prod.fst
    rw [List.map_map] at hfields
    exact hlaid.fields ▸ hfields
  · intro c hc
    obtain ⟨r, hr, hstands⟩ := hcolumns c hc
    exact hstands.finds hordered (hperm.mem_iff.2 (List.mem_map_of_mem hr)) (hsuits c hc).schema hbody hlimit

end Column

/-! ## One segment and another -/

theorem eq_of_rising {xs ys : List FieldNumber} (h : xs.Perm ys) (hxs : xs.Pairwise (· < ·)) (hys : ys.Pairwise (· < ·)) :
    xs = ys := by
  refine h.eq_of_pairwise ?_ hxs hys
  intro a b _ _ hab hba
  exact absurd (UInt32.lt_trans hab hba) (UInt32.lt_irrefl a)

namespace SegmentReader

/-- a reader of the segment that a writer makes of these columns, given in this order -/
def Over (r : SegmentReader) (d : Directory) (s : Segment) (naming : Naming) (schema : Schema) (columns : List Full) :
    Prop :=
  ∃ d₁ w d₂ w' d₃, SegmentWriter.create d s naming = (d₁, .ok w) ∧
    SegmentBuilder.addAll d₁ w (columns.map Full.added) = (d₂, w', .ok ()) ∧ w'.close d₂ = (d₃, .ok ()) ∧
    ofDirectory d₃ schema s naming = .ok r

/-- two readers say the same of a column: they load the same source, and their entries differ in offsets at most -/
structure Agree (r q : SegmentReader) (field : FieldNumber) : Prop where
  load : ∃ source, r.load field = .ok source ∧ q.load field = .ok source
  entry : ∃ e e', r.entry? field = some e ∧ q.entry? field = some e' ∧ e.layout = e'.layout ∧
    e.nestedLayout? = e'.nestedLayout? ∧ e.count? = e'.count?

/-- readers that find the same content say the same of it -/
theorem Finds.agree {r q : SegmentReader} {c : Full} {content : Content} (h : r.Finds c content)
    (h' : q.Finds c content) : r.Agree q c.field := by
  obtain ⟨⟨e, hentry, hform⟩, hload, -⟩ := h
  obtain ⟨⟨e', hentry', hform'⟩, hload', -⟩ := h'
  have hsame : e.form = e'.form := hform.trans hform'.symm
  refine ⟨⟨content.source, hload, hload'⟩, e, e', hentry, hentry', ?_, ?_, ?_⟩
  · rw [← Entry.layout_form, hsame, Entry.layout_form]
  · rw [← Entry.nestedLayout?_form, hsame, Entry.nestedLayout?_form]
  · rw [← Entry.count?_form, hsame, Entry.count?_form]

end SegmentReader

section

variable {d : Directory} {s : Segment} {naming : Naming} {schema : Schema} {columns : List Full}

/-- without faults columns that suit a segment are written to it, and each is found with its content -/
theorem exists_over {content : Full → Content} (hd : d.Tidy) (hf : d.faults = {}) (hnaming : naming.validate = .ok ())
    (hsuffix : Framing.isName s.suffix = true) (hcreate : ∃ d₁ w, SegmentWriter.create d s naming = (d₁, .ok w))
    (hfields : schema.fields.length < 2 ^ 32 - 1) (hsuits : ∀ c ∈ columns, c.Suits s schema)
    (hnodup : (columns.map Full.field).Nodup)
    (hplaced : ∀ c ∈ columns, ∀ offset, offset + (content c).payload.length < 2 ^ 63 →
      ∃ r, Placed s.documents c (content c) offset r)
    (hfit : s.start naming + (payloads content columns).length < 2 ^ 63) :
    ∃ r : SegmentReader, r.Over d s naming schema columns ∧ r.fields.Pairwise (· < ·) ∧
      r.fields.Perm (columns.map Full.field) ∧ ∀ c ∈ columns, r.Finds c (content c) := by
  obtain ⟨d₁, w, hcreate⟩ := hcreate
  obtain ⟨records, hlaid⟩ := exists_laid hplaced hfit
  obtain ⟨d₂, w', d₃, m, o, hadd, hclose, -, hfilled⟩ := hlaid.write hd hf hcreate
  obtain ⟨r, hopen, hfound⟩ := hlaid.open hnaming hsuffix hsuits (fun c hc => (hsuits c hc).field_ne hfields) hnodup
    (lt_trans hfit (by decide)) hfilled
  exact ⟨r, ⟨d₁, w, d₂, w', d₃, hcreate, hadd, hclose, hopen⟩, hfound⟩

/-- whatever faults there were, in a segment that was written and opened each column is found with what its plan stores -/
theorem SegmentReader.Over.finds {r : SegmentReader} (h : r.Over d s naming schema columns) (hd : d.Tidy)
    (hfields : schema.fields.length < 2 ^ 32 - 1) (hsuits : ∀ c ∈ columns, c.Suits s schema)
    (hnodup : (columns.map Full.field).Nodup)
    (hfit : s.start naming + (columns.map fun c => (c.payload s.documents).length).sum < 2 ^ 63) :
    ∀ c ∈ columns, ∃ content : Content, content.Keeps s.documents c ∧ r.Finds c content := by
  have : Nonempty Content := ⟨stringsContent [] 0⟩
  choose! content hpayload hkeeps hplaced using @portable_keeps s.documents
  obtain ⟨d₁, w, d₂, w', d₃, hcreate, hadd, hclose, hopen⟩ := h
  obtain ⟨hnaming, hsuffix⟩ := SegmentWriter.names_of_create hcreate
  obtain ⟨hn, hfailed, -, hwriter⟩ := SegmentWriter.create_spec hd hcreate
  rw [← length_payloads fun c hc => hpayload c (hsuits c hc).length] at hfit
  obtain ⟨records, hlaid⟩ := exists_laid (fun c hc => hplaced c (hsuits c hc).length) hfit
  obtain ⟨-, hwriter'⟩ := hlaid.added rfl hwriter hfailed hadd
  obtain ⟨-, -, m, o, hpublished, hm, ho⟩ := SegmentWriter.close_spec hn hwriter' hclose
  obtain ⟨q, hopen', -, -, hfinds⟩ := hlaid.open hnaming hsuffix hsuits (fun c hc => (hsuits c hc).field_ne hfields) hnodup
    (lt_trans hfit (by decide)) ⟨hpublished, hm, ho⟩
  obtain rfl : q = r := Except.ok.inj (hopen'.symm.trans hopen)
  exact fun c hc => ⟨content c, hkeeps c (hsuits c hc).length, hfinds c hc⟩

/-- without faults columns that suit a segment are written, and each is found with what its plan stores -/
theorem exists_over_finds (hd : d.Tidy) (hf : d.faults = {}) (hnaming : naming.validate = .ok ())
    (hsuffix : Framing.isName s.suffix = true)
    (hcreate : d.medium = .disk → ∃ d₁ w, SegmentWriter.create d s naming = (d₁, .ok w))
    (hfields : schema.fields.length < 2 ^ 32 - 1) (hsuits : ∀ c ∈ columns, c.Suits s schema)
    (hnodup : (columns.map Full.field).Nodup)
    (hfit : s.start naming + (columns.map fun c => (c.payload s.documents).length).sum < 2 ^ 63) :
    ∃ r : SegmentReader, r.Over d s naming schema columns ∧
      ∀ c ∈ columns, ∃ content : Content, content.Keeps s.documents c ∧ r.Finds c content := by
  have : Nonempty Content := ⟨stringsContent [] 0⟩
  choose! content hpayload hplaced using @portable s.documents
  obtain ⟨r, hover, -⟩ := exists_over hd hf hnaming hsuffix (SegmentWriter.exists_create hf hnaming hsuffix hcreate)
    hfields hsuits hnodup (fun c hc => hplaced c (hsuits c hc).length)
    (by rwa [length_payloads fun c hc => hpayload c (hsuits c hc).length])
  exact ⟨r, hover, hover.finds hd hfields hsuits hnodup hfit⟩

/-- **Columns do not touch each other, and their order does not matter.** Take a directory without faults, on disk one in
which the files of the segment can be opened. Columns of different numbers, with a value for every document each, are
written and the segment opens with just their numbers, rising. Every column answers its values, and what is found of it is
the same as in the segment of this column alone, and as in the segment of the same columns in any other order. -/
theorem columns_apart (d : Directory) (s : Segment) (naming : Naming) (schema : Schema) (columns : List Full)
    (hd : d.Reachable) (hf : d.faults = {}) (hnaming : naming.validate = .ok ())
    (hsuffix : Framing.isName s.suffix = true)
    (hcreate : d.medium = .disk → ∃ d₁ w, SegmentWriter.create d s naming = (d₁, .ok w))
    (hfields : schema.fields.length < 2 ^ 32 - 1) (hsuits : ∀ c ∈ columns, c.Suits s schema)
    (hnodup : (columns.map Full.field).Nodup)
    (hfit : s.start naming + (columns.map fun c => (c.payload s.documents).length).sum < 2 ^ 63) :
    ∃ r : SegmentReader, r.Over d s naming schema columns ∧ r.fields.Pairwise (· < ·) ∧
      r.fields.Perm (columns.map Full.field) ∧
      (∀ c ∈ columns, ∃ source, r.load c.field = .ok source ∧ c.series.AnsweredBy source) ∧
      (∀ c ∈ columns, ∃ q : SegmentReader, q.Over d s naming schema [c] ∧ r.Agree q c.field) ∧
      ∀ order, order.Perm columns → ∃ q : SegmentReader, q.Over d s naming schema order ∧ q.fields = r.fields ∧
        ∀ c ∈ columns, r.Agree q c.field := by
  have hcreate := SegmentWriter.exists_create hf hnaming hsuffix hcreate
  have : Nonempty Content := ⟨stringsContent [] 0⟩
  choose! content hpayload hplaced using @portable s.documents
  -- whichever of the columns are written, in whichever order
  have hwritten : ∀ order : List Full, (∀ c ∈ order, c ∈ columns) → (order.map Full.field).Nodup →
      (order.map fun c => (c.payload s.documents).length).sum ≤
        (columns.map fun c => (c.payload s.documents).length).sum →
      ∃ r : SegmentReader, r.Over d s naming schema order ∧ r.fields.Pairwise (· < ·) ∧
        r.fields.Perm (order.map Full.field) ∧ ∀ c ∈ order, r.Finds c (content c) := by
    intro order hsub hnodup hle
    have hsuits' : ∀ c ∈ order, c.Suits s schema := fun c hc => hsuits c (hsub c hc)
    refine exists_over hd.tidy hf hnaming hsuffix hcreate hfields hsuits' hnodup ?_ ?_
    · exact fun c hc => hplaced c (hsuits' c hc).length
    · rw [length_payloads fun c hc => hpayload c (hsuits' c hc).length]
      omega
  obtain ⟨r, hover, hrising, hperm, hfinds⟩ := hwritten columns (fun _ hc => hc) hnodup (le_refl _)
  refine ⟨r, hover, hrising, hperm, ?_, ?_, ?_⟩
  · exact fun c hc => ⟨(content c).source, (hfinds c hc).load, (hfinds c hc).answers⟩
  · intro c hc
    have hle : (c.payload s.documents).length ≤ (columns.map fun c => (c.payload s.documents).length).sum :=
      List.single_le_sum (by simp) _ (List.mem_map_of_mem hc)
    obtain ⟨q, hqover, -, -, hqfinds⟩ := hwritten [c] (by simpa using hc) (List.nodup_singleton _) (by simpa using hle)
    exact ⟨q, hqover, (hfinds c hc).agree (hqfinds c (List.mem_singleton_self c))⟩
  · intro order horder
    have hsame := (horder.map fun c : Full => (c.payload s.documents).length).sum_eq
    obtain ⟨q, hqover, hqrising, hqperm, hqfinds⟩ := hwritten order (fun c hc => horder.mem_iff.1 hc)
      ((horder.map Full.field).nodup_iff.2 hnodup) (le_of_eq hsame)
    refine ⟨q, hqover, ?_, fun c hc => (hfinds c hc).agree (hqfinds c (horder.mem_iff.2 hc))⟩
    exact eq_of_rising ((hqperm.trans (horder.map Full.field)).trans hperm.symm) hqrising hrising

/-- three columns, given from the last to the first, and from the first to the last -/
theorem columns_apart_three :
    let s : Segment := ⟨⟨7⟩, 2, "a"⟩
    let schema : Schema := ⟨[⟨"n", .int⟩, ⟨"x", .float⟩, ⟨"t", .bytes⟩]⟩
    let n : Full := ⟨0, "n", .numbers .int [5, -1]⟩
    let x : Full := ⟨1, "x", .numbers .float [0, 7]⟩
    let t : Full := ⟨2, "t", .strings [[], [0x61]]⟩
    ∃ r q : SegmentReader, r.Over {} s {} schema [t, x, n] ∧ r.fields = [0, 1, 2] ∧ q.Over {} s {} schema [n, x, t] ∧
      r.Agree q 0 ∧ r.Agree q 1 ∧ r.Agree q 2 ∧ ∃ source, q.load 2 = .ok source ∧ source.bytes 1 = .ok [0x61] := by
  intro s schema n x t
  have hvalid : Naming.Valid {} := Naming.valid_of_validate (by rfl)
  have hsuffix : Framing.isName "a" = true := by rfl
  have hstart : s.start {} ≤ 300 :=
    Framing.length_headerBytes_le (h := s.dataHeader {}) hvalid.dataCodec hsuffix
  have hn : (n.payload 2).length ≤ 2100 + 64 * 2 := length_data_le 0 "n" (some 2) 0 [5, -1] (by decide) (by rfl)
  have hx : (x.payload 2).length ≤ 2100 + 64 * 2 := length_data_le 1 "x" (some 2) 0 [0, 7] (by decide) (by rfl)
  have ht : (t.payload 2).length ≤ 1 + 48 + 23 * 2 := @length_stringBytes_le [[], [0x61]] (by decide)
  have hfit : s.start {} + ([t, x, n].map fun c => (c.payload 2).length).sum < 2 ^ 63 := by
    simp only [List.map_cons, List.map_nil, List.sum_cons, List.sum_nil]
    omega
  have hsuits : ∀ c ∈ [t, x, n], c.Suits s schema := by
    intro c hc
    simp only [List.mem_cons, List.not_mem_nil, or_false] at hc
    rcases hc with rfl | rfl | rfl
    · exact ⟨rfl, "t", rfl⟩
    · exact ⟨rfl, "x", rfl⟩
    · exact ⟨rfl, "n", rfl⟩
  obtain ⟨r, hover, hrising, hperm, hanswers, -, horders⟩ := columns_apart {} s {} schema [t, x, n] Directory.reachable_empty rfl
    rfl hsuffix (by simp) (by decide) hsuits (by decide) hfit
  obtain ⟨q, hqover, -, hagree⟩ := horders [n, x, t] (List.reverse_perm [t, x, n])
  have hfields : r.fields = [0, 1, 2] :=
    eq_of_rising (hperm.trans (List.reverse_perm [0, 1, 2])) hrising (by decide)
  have hstrings : r.Agree q 2 := hagree t (by simp)
  -- both readers load the same strings
  obtain ⟨source, hload, hbytes⟩ := hanswers t (by simp)
  obtain ⟨source', hload', hqload⟩ := hstrings.load
  obtain rfl : source = source' := Except.ok.inj (hload.symm.trans hload')
  exact ⟨r, q, hover, hfields, hqover, hagree n (by simp), hagree x (by simp), hstrings, source, hqload, hbytes 1⟩

end

end ColumnStore
