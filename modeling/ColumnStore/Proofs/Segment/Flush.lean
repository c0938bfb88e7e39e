/-
Flushing a builder: both files of a segment are published, then its info file is written.

A flush that succeeds is a whole session of a writer and one file that is put behind it (`flush_eq_ok`); in memory and
without faults columns that are laid are flushed (`flush_laid`). Putting the info file touches the place of its own path
only (`SegmentInfo.store_apart`), so the files of a naming stay unless the naming gives one of them the name of the info
file. A naming may do so: its check asks for two different extensions, but not that they differ from the one of the info
file. `files_apart` says which names are told apart, and what becomes of the file that is not.
-/
import ColumnStore.Proofs.Segment.Columns
import ColumnStore.Proofs.Segment.Publication

namespace ColumnStore

open Storage Column

variable {d e : Directory} {naming : Naming}

/-! ## The info file -/

namespace SegmentInfo

variable {info : SegmentInfo}

theorem length_toBytes (info : SegmentInfo) : info.toBytes.length = size := by
  rw [toBytes, List.length_append, SegmentId.toBytes, Bytes.ofBitVec128, Bytes.ofUInt32, Bytes.length_littleEndian,
    Bytes.length_littleEndian]
  rfl

theorem ofBytes?_toBytes (info : SegmentInfo) : ofBytes? info.toBytes = some info := by
  have hid : info.id.toBytes.length = 16 := Bytes.length_littleEndian 16 _
  have hfirst : info.toBytes.take 16 = info.id.toBytes := by rw [toBytes, List.take_left' hid]
  have hrest : (info.toBytes.drop 16).take 4 = Bytes.ofUInt32 info.documents := by
    have hcount : (Bytes.ofUInt32 info.documents).length = 4 := Bytes.length_littleEndian 4 _
    rw [toBytes, List.drop_left' hid, List.take_of_length_le (le_of_eq hcount)]
  rw [ofBytes?, if_neg (by rw [length_toBytes]; exact lt_irrefl _), hfirst, hrest, SegmentId.toBytes, Bytes.ofBitVec128,
    Bytes.ofUInt32, Bytes.value_littleEndian, Bytes.value_littleEndian,
    Nat.mod_eq_of_lt (show info.id.bits.toNat < 256 ^ 16 from info.id.bits.isLt),
    Nat.mod_eq_of_lt (show info.documents.toNat < 256 ^ 4 from info.documents.toNat_lt), BitVec.ofNat_toNat,
    BitVec.setWidth_eq, UInt32.ofNat_toNat]

/-- the info file is put in one call -/
theorem put_of_store (h : info.store d = (e, .ok ())) :
    d.put (Segment.infoFile info.id) (Bytes.toByteArray info.toBytes) = (e, .ok ()) := by
  unfold store Directory.write at h
  cases hfault : d.faults.write (Segment.infoFile info.id) with
  | some fault => simp [hfault] at h
  | none =>
    simp only [hfault] at h
    generalize d.put (Segment.infoFile info.id) (Bytes.toByteArray info.toBytes) = stored at h
    obtain ⟨e', result⟩ := stored
    cases result with
    | error fault => simp at h
    | ok _ =>
      obtain rfl : e' = e := by simpa using h
      rfl

theorem store_memory (hm : d.medium = .memory) (hf : d.faults = {}) (info : SegmentInfo) :
    ∃ e, info.store d = (e, .ok ()) := by
  have hwrite : d.faults.write (Segment.infoFile info.id) = none := by rw [hf]
  rw [store, Directory.write, hwrite]
  dsimp only
  rw [Directory.put_memory hm]
  exact ⟨_, rfl⟩

theorem load_store (hd : d.Tidy) (h : info.store d = (e, .ok ())) : load e info.id = .ok info := by
  obtain ⟨-, -, -, hread⟩ := Directory.put_apart hd (put_of_store h)
  simp only [load, hread, Bytes.ofArray_toByteArray, ofBytes?_toBytes, if_pos]

/-- a file with another extension than the info file is read as before -/
theorem read_store {s : Segment} {extension : String} {content : ByteArray} (hd : d.Tidy)
    (h : info.store d = (e, .ok ())) (hextension : Segment.IsExtension extension)
    (hne : extension ≠ Segment.infoExtension) (hread : d.read (s.file extension) = .ok content) :
    e.read (s.file extension) = .ok content := by
  obtain ⟨place, hleads, hapart, -⟩ := Directory.put_apart hd (put_of_store h)
  refine hapart.read (fun there hthere => ?_) hread
  have hinfo : Segment.infoFile info.id = Segment.stem ⟨info.id, 0, ""⟩ ++ "." ++ Segment.infoExtension :=
    Segment.file_eq ⟨info.id, 0, ""⟩ Segment.isExtension_info
  rw [hinfo] at hleads
  rw [Segment.file_eq s hextension] at hthere
  exact Segment.places_ne hextension Segment.isExtension_info hne hthere hleads

end SegmentInfo

/-! ## Flushing -/

namespace SegmentBuilder

variable {b : SegmentBuilder} {id : SegmentId} {info : SegmentInfo}

theorem addAll_session {s : Segment} {w : SegmentWriter} (h : SegmentWriter.Session s naming d w)
    (columns : List (FieldNumber × String × Values)) :
    SegmentWriter.Session s naming (addAll d w columns).1 (addAll d w columns).2.1 := by
  induction columns generalizing d w with
  | nil => exact h
  | cons column columns ih =>
    obtain ⟨field, name, values⟩ := column
    have hadd := h.add field name values
    rw [addAll]
    generalize w.add d field name values = added at hadd
    obtain ⟨e, w', result⟩ := added
    cases result with
    | error fault => exact hadd
    | ok layout => exact ih hadd

/-- in memory nothing is seen of columns that are added -/
theorem addAll_still (hm : d.medium = .memory) (w : SegmentWriter) (columns : List (FieldNumber × String × Values)) :
    (addAll d w columns).1 = d := by
  induction columns generalizing w with
  | nil => rfl
  | cons column columns ih =>
    obtain ⟨field, name, values⟩ := column
    have hsame := (SegmentWriter.add_still hm w field name values).1.directory
    rw [addAll]
    generalize w.add d field name values = added at hsame
    obtain ⟨e, w', result⟩ := added
    obtain rfl : e = d := hsame
    cases result with
    | error fault => rfl
    | ok layout => exact ih w'

/-- **A flush that succeeds** has published both files, and has put the info file behind them. -/
theorem flush_eq_ok (hd : d.Reachable) (h : b.flush d id naming = (e, .ok info)) :
    info = ⟨id, b.documents⟩ ∧ ∃ d₁ m o, d₁.Tidy ∧
      SegmentWriter.Published ⟨id, b.documents, ""⟩ naming d₁ m o ∧ info.store d₁ = (e, .ok ()) := by
  unfold flush at h
  split at h
  · simp at h
  · next d₁ w hcreate =>
    have hsession := addAll_session (.create hd hcreate) b.columns
    generalize addAll d₁ w b.columns = added at h hsession
    obtain ⟨d₂, w', result⟩ := added
    cases result with
    | error fault => simp at h
    | ok _ =>
      dsimp only at h
      split at h
      · simp at h
      · next d₃ hclose =>
        obtain ⟨htidy, m, o, -, -, hpublished, -⟩ := hsession.close_spec hclose
        split at h
        · simp at h
        · next d₄ hstore =>
          obtain ⟨rfl, rfl⟩ : d₄ = e ∧ (⟨id, b.documents⟩ : SegmentInfo) = info := by simpa using h
          exact ⟨rfl, d₃, m, o, htidy, hpublished, hstore⟩

/-- **Columns that are laid are flushed** in memory and without faults. -/
theorem flush_laid {content : Full → Content} {columns : List Full} {records : List SegmentReader.Record}
    (hd : d.Reachable) (hm : d.medium = .memory) (hf : d.faults = {}) (hnaming : naming.validate = .ok ())
    (hcolumns : b.columns = columns.map Full.added)
    (hlaid : Laid b.documents content ((Segment.mk id b.documents "").start naming) columns records) :
    ∃ e d₁ m o, b.flush d id naming = (e, .ok ⟨id, b.documents⟩) ∧ d₁.Tidy ∧
      (Segment.mk id b.documents "").Filled naming d₁ records (payloads content columns) m o ∧
      SegmentInfo.store ⟨id, b.documents⟩ d₁ = (e, .ok ()) := by
  obtain ⟨d₁, w, hcreate, -⟩ := SegmentWriter.create_memory (s := ⟨id, b.documents, ""⟩) hm hf hnaming rfl
  obtain ⟨d₂, w', d₃, m, o, hadd, hclose, htidy, hfilled⟩ := hlaid.write hd.tidy hf hcreate
  have huntouched := SegmentWriter.create_untouched hm ⟨id, b.documents, ""⟩ naming
  rw [hcreate] at huntouched
  have hm₁ : d₁.medium = .memory := huntouched.medium.trans hm
  have hf₁ : d₁.faults = {} := huntouched.faults.trans hf
  have hsame := addAll_still hm₁ w (columns.map Full.added)
  rw [hadd] at hsame
  obtain rfl : d₂ = d₁ := hsame
  obtain ⟨hm₃, hf₃⟩ := SegmentWriter.close_memory hm₁ w'
  rw [hclose] at hm₃ hf₃
  obtain ⟨e, hstore⟩ := SegmentInfo.store_memory hm₃ (hf₃.trans hf₁) ⟨id, b.documents⟩
  refine ⟨e, d₃, m, o, ?_, htidy, hfilled, hstore⟩
  simp only [flush, hcreate, hcolumns, hadd, hclose, hstore]

end SegmentBuilder

/-! ## Names -/

namespace Naming

def extensions (naming : Naming) : List String := [naming.dataExtension, naming.metadataExtension]

theorem Valid.isExtension {extension : String} (hn : naming.Valid) (h : extension ∈ naming.extensions) :
    Segment.IsExtension extension := by
  rcases List.mem_pair.1 h with rfl | rfl
  · exact hn.dataExtension
  · exact hn.metadataExtension

end Naming

/-- **Which files are told apart.** Under a naming that passes its check the two files of a segment have different names,
and segments of different identity or suffix never share the name of a file of the pair. The info file has another name
than either of them, of its own segment or of another, but for one case: the naming has the extension of the info file,
the identity is the same, and the suffix of the pair is empty. So the info file that a flush puts in the end leaves the
files of every segment under the other extensions as they are, and takes the place of the file that was just published
under its own. -/
theorem files_apart (naming : Naming) (hnaming : naming.validate = .ok ()) :
    (∀ s : Segment, s.dataFile naming ≠ s.metadataFile naming) ∧
      (∀ s t : Segment, s.id ≠ t.id ∨ s.suffix ≠ t.suffix → ∀ a ∈ naming.extensions, ∀ b ∈ naming.extensions,
        s.file a ≠ t.file b) ∧
      (∀ (s : Segment) (id : SegmentId), ∀ a ∈ naming.extensions,
        s.file a = Segment.infoFile id ↔ a = Segment.infoExtension ∧ s.suffix = "" ∧ s.id = id) ∧
      ∀ (d e : Directory) (b : SegmentBuilder) (id : SegmentId) (info : SegmentInfo), d.Reachable →
        b.flush d id naming = (e, .ok info) → ∃ d₁ m o,
          SegmentWriter.Published ⟨id, b.documents, ""⟩ naming d₁ m o ∧ info.store d₁ = (e, .ok ()) ∧
          ∀ a ∈ naming.extensions,
            (a ≠ Segment.infoExtension → ∀ (s : Segment) (content : ByteArray), d₁.read (s.file a) = .ok content →
              e.read (s.file a) = .ok content) ∧
            (a = Segment.infoExtension →
              e.read (Segment.file ⟨id, b.documents, ""⟩ a) = .ok (Bytes.toByteArray info.toBytes)) := by
  have hn := Naming.valid_of_validate hnaming
  refine ⟨fun s heq => ?_, fun s t hne a ha b hb heq => ?_, fun s id a ha => ?_, ?_⟩
  · exact hn.extensions_ne (Segment.file_injective hn.dataExtension hn.metadataExtension heq).2.2
  · obtain ⟨hid, hsuffix, -⟩ := Segment.file_injective (hn.isExtension ha) (hn.isExtension hb) heq
    exact hne.elim (absurd hid) (absurd hsuffix)
  · exact Segment.file_eq_infoFile_iff (hn.isExtension ha) id
  · intro d e b id info hd hflush
    obtain ⟨rfl, d₁, m, o, htidy, hpublished, hstore⟩ := SegmentBuilder.flush_eq_ok hd hflush
    refine ⟨d₁, m, o, hpublished, hstore, fun a ha => ⟨fun hne s content hread => ?_, ?_⟩⟩
    · exact SegmentInfo.read_store htidy hstore (hn.isExtension ha) hne hread
    · rintro rfl
      obtain ⟨-, -, -, hread⟩ := Directory.put_apart htidy (SegmentInfo.put_of_store hstore)
      exact hread

/-- a naming with the extension of the info file passes the check, and a flush under it loses the data file -/
theorem files_apart_info :
    let naming : Naming := { dataExtension := "info" }
    ∃ b, (SegmentBuilder.ofSchema ⟨[⟨"n", .int⟩]⟩).put 0 0 (.int 5) = (b, .ok ()) ∧ naming.validate = .ok () ∧
      ∃ e info, b.flush {} ⟨7⟩ naming = (e, .ok info) ∧
        e.read (Segment.dataFile ⟨⟨7⟩, 1, ""⟩ naming) = .ok (Bytes.toByteArray info.toBytes) ∧ info.toBytes.length = 20 := by
  intro naming
  set b : SegmentBuilder := ⟨⟨[⟨"n", .int⟩]⟩, #[.ints ⟨#[5]⟩], 1⟩ with hb
  set c : Full := ⟨0, "n", .numbers .int [5]⟩ with hc
  have hnaming : Naming.validate { dataExtension := "info" } = .ok () := by rfl
  have hcolumns : b.columns = [c].map Full.added := by rfl
  -- the column is laid behind the header
  obtain ⟨content, hpayload, hplaced⟩ := portable c (show c.series.length = (1 : UInt32).toNat from rfl)
  have hn := Naming.valid_of_validate hnaming
  have hstart : (Segment.mk ⟨7⟩ 1 "").start naming ≤ 300 :=
    Framing.length_headerBytes_le (h := Segment.dataHeader ⟨⟨7⟩, 1, ""⟩ naming) hn.dataCodec rfl
  have hsize : (c.payload 1).length ≤ 2100 + 64 * 1 := length_data_le 0 "n" (some 1) 0 [5] (by decide) (by rfl)
  have hend : (Segment.mk ⟨7⟩ 1 "").start naming + (payloads (fun _ => content) [c]).length < 2 ^ 63 := by
    simp only [payloads, List.flatMap_singleton, hpayload]
    omega
  obtain ⟨records, hlaid⟩ := exists_laid (by simpa using hplaced) hend
  obtain ⟨e, -, -, -, hflush, -⟩ := SegmentBuilder.flush_laid (b := b) (d := {}) Directory.reachable_empty rfl rfl
    hnaming hcolumns hlaid
  obtain ⟨-, -, -, hlost⟩ := files_apart naming hnaming
  obtain ⟨d₁, m, o, -, -, hread⟩ := hlost {} e b ⟨7⟩ _ Directory.reachable_empty hflush
  exact ⟨b, by rfl, hnaming, e, _, hflush, (hread "info" (by decide)).2 rfl, SegmentInfo.length_toBytes _⟩

end ColumnStore
