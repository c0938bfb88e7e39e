/-
Writing a segment: what the two files have taken, step by step, and what is published in the end.

`SegmentWriter.Open` is the invariant of a writer that has not failed: both outputs have taken known bytes, and on disk
each stands behind its own path. `create` establishes it (`create_spec`), every column that is added keeps it and only
makes the bytes more (`add_spec`), and `close` publishes exactly those bytes, each with its footer (`close_spec`),
whatever faults the directory shows on the way. `Session` puts the steps together: a writer that was created, with
columns added in any number, while other files of the directory come and go. Without faults a writer that was created
goes all the way (`create_faultless`, `add_faultless`, `close_faultless`), and in memory it can always be created
(`create_memory`).
-/
import ColumnStore.Proofs.Column.Plan
import ColumnStore.Proofs.Segment.Files
import ColumnStore.Proofs.Segment.Framing
import ColumnStore.Proofs.Storage.Reachable
import ColumnStore.Segment.Writer

namespace ColumnStore

open Storage Column

namespace Storage

/-- a sink stays behind its file while the file of another number is written -/
theorem Sink.Backed.frame {d d' : Directory} {s : Sink} {number : Nat} (h : Sink.Backed d s) (hframe : Frame number d d')
    (hne : d.medium = .disk → s.number ≠ number) : Sink.Backed d' s := by
  intro hdisk
  have hdisk : d.medium = .disk := hframe.medium ▸ hdisk
  obtain ⟨hflushed, f, hnamed, hnumber, hcontent⟩ := h hdisk
  exact ⟨hflushed, f, hframe.others _ f hnamed (hnumber ▸ hne hdisk), hnumber, hcontent⟩

namespace Output

theorem writeHeader_spec {d d' : Directory} {o o' : Output} {h : Framing.Identity} {done : Bytes} (hd : d.Tidy)
    (hb : Sink.Backed d o.sink) (hw : o.Wrote done) (hwrite : o.writeHeader d h = (d', o', .ok ())) :
    Keeps d d' o o' ∧ o'.Wrote (done ++ Framing.headerBytes h) := by
  unfold writeHeader at hwrite
  cases hp : Framing.headerPieces h with
  | error e => simp [hp] at hwrite
  | ok pieces =>
    obtain ⟨hcodec, hsuffix⟩ := Framing.isName_of_headerPieces hp
    obtain ⟨pieces', hp', hflat⟩ := Framing.headerPieces_eq hcodec hsuffix
    obtain rfl : pieces' = pieces := by
      rw [hp] at hp'
      exact (Except.ok.inj hp').symm
    simp only [hp] at hwrite
    split at hwrite
    · next e p hpieces =>
      obtain ⟨rfl, rfl, -⟩ : e = d' ∧ p = o' ∧ True := by simpa using hwrite
      have hspec := writePieces_spec hd hb hw hpieces
      rwa [hflat] at hspec
    · simp at hwrite

theorem writeFooter_spec {d d' : Directory} {o o' : Output} {done : Bytes} (hd : d.Tidy)
    (hb : Sink.Backed d o.sink) (hw : o.Wrote done) (hwrite : o.writeFooter d = (d', o', .ok ())) :
    Keeps d d' o o' ∧ o'.Wrote (done ++ Framing.footer done) := by
  unfold writeFooter at hwrite
  split at hwrite
  · next e p hpieces =>
    obtain ⟨hfirst, hfirstWrote⟩ := writePieces_spec hd hb hw hpieces
    have hstart : [Bytes.ofUInt32 Framing.footerMagic, Bytes.ofUInt32 Framing.crcAlgorithm].flatten =
        Framing.footerStart := by
      simp [Framing.footerStart]
    rw [hstart] at hfirstWrote
    obtain ⟨hrest, hrestWrote⟩ := writeAll_spec hfirst.frame.tidy hfirst.backed hfirstWrote hwrite
    refine ⟨hfirst.trans hrest, ?_⟩
    rwa [hfirstWrote.checksum, List.append_assoc, ← Framing.footer_eq] at hrestWrote
  · simp at hwrite

end Output

end Storage

namespace SegmentWriter

/-! ## The invariant -/

/-- a writer of a segment whose two files have taken these bytes -/
structure Open (s : Segment) (naming : Naming) (d : Directory) (w : SegmentWriter) (metadata data : Bytes) : Prop where
  tidy : d.Tidy
  metadataPath : w.metadata.sink.path = s.metadataFile naming
  dataPath : w.data.sink.path = s.dataFile naming
  metadataWrote : w.metadata.Wrote metadata
  dataWrote : w.data.Wrote data
  metadataBacked : Sink.Backed d w.metadata.sink
  dataBacked : Sink.Backed d w.data.sink
  apart : d.medium = .disk → w.data.sink.number ≠ w.metadata.sink.number
  documents : w.documents = s.documents

variable {s : Segment} {naming : Naming} {d d' : Directory} {w w' : SegmentWriter} {metadata data : Bytes}

theorem Open.ofMetadata {o : Output} {more : Bytes} (h : Open s naming d w metadata data)
    (hkeeps : Output.Keeps d d' w.metadata o) (hwrote : o.Wrote more) :
    Open s naming d' { w with metadata := o } more data where
  tidy := hkeeps.frame.tidy
  metadataPath := hkeeps.path.trans h.metadataPath
  dataPath := h.dataPath
  metadataWrote := hwrote
  dataWrote := h.dataWrote
  metadataBacked := hkeeps.backed
  dataBacked := h.dataBacked.frame hkeeps.frame h.apart
  apart hdisk := hkeeps.number ▸ h.apart (hkeeps.frame.medium ▸ hdisk)
  documents := h.documents

theorem Open.ofData {o : Output} {more : Bytes} (h : Open s naming d w metadata data)
    (hkeeps : Output.Keeps d d' w.data o) (hwrote : o.Wrote more) :
    Open s naming d' { w with data := o } metadata more where
  tidy := hkeeps.frame.tidy
  metadataPath := h.metadataPath
  dataPath := hkeeps.path.trans h.dataPath
  metadataWrote := h.metadataWrote
  dataWrote := hwrote
  metadataBacked := h.metadataBacked.frame hkeeps.frame (fun hdisk => (h.apart hdisk).symm)
  dataBacked := hkeeps.backed
  apart hdisk := hkeeps.number ▸ h.apart (hkeeps.frame.medium ▸ hdisk)
  documents := h.documents

/-! ## Opening -/

theorem openFile_spec {file : String} {header : Framing.Identity} {o : Output} (hd : d.Tidy)
    (hopen : openFile d file header = (d', .ok o)) :
    d'.Tidy ∧ d'.medium = d.medium ∧ d'.faults = d.faults ∧ o.sink.path = file ∧ Sink.Backed d' o.sink ∧
      o.Wrote (Framing.headerBytes header) ∧ ∃ (e : Directory) (place : Place), e.Leads file place ∧ (d.medium = .disk →
        ∀ other f, d.named? other = some f → f.place ≠ place → d'.named? other = some f ∧ f.number ≠ o.sink.number) := by
  unfold openFile Output.create at hopen
  split at hopen
  · simp at hopen
  · next e p hcreate =>
    split at hcreate
    · next e' sink hsink =>
      obtain ⟨rfl, rfl⟩ : e' = e ∧ ({ name := file, sink := sink } : Output) = p := by simpa using hcreate
      obtain ⟨htidy, hmedium, hfaults, hpath, haccepted, hbacked, -, place, hleads, -, hothers⟩ :=
        Sink.openSink_spec hd hsink
      have hempty : Output.Wrote { name := file, sink := sink } [] := by
        refine ⟨?_, rfl, rfl⟩
        rw [haccepted]
        rfl
      split at hopen
      · next e o' hheader =>
        obtain ⟨rfl, rfl⟩ : e = d' ∧ o' = o := by simpa using hopen
        obtain ⟨hkeeps, hwrote⟩ := Output.writeHeader_spec htidy hbacked hempty hheader
        rw [List.nil_append] at hwrote
        refine ⟨hkeeps.frame.tidy, hkeeps.frame.medium.trans hmedium, hkeeps.frame.faults.trans hfaults,
          hkeeps.path.trans hpath, hkeeps.backed, hwrote, e', place, hleads, ?_⟩
        intro hdisk other f hf hne
        obtain ⟨hstill, hnumber⟩ := hothers hdisk other f hf hne
        have hnumber' : f.number ≠ o'.sink.number := hkeeps.number ▸ hnumber
        exact ⟨hkeeps.frame.others other f hstill hnumber, hnumber'⟩
      · simp at hopen
    · simp at hcreate

/-- the two files of a segment never lead to one place -/
theorem place_ne (hn : naming.Valid) {e : Directory} {place other : Place} (hdata : d.Leads (s.dataFile naming) place)
    (hmetadata : e.Leads (s.metadataFile naming) other) : place ≠ other := by
  rw [Segment.dataFile, Segment.file_eq s hn.dataExtension] at hdata
  rw [Segment.metadataFile, Segment.file_eq s hn.metadataExtension] at hmetadata
  exact Segment.places_ne hn.dataExtension hn.metadataExtension hn.extensions_ne hdata hmetadata

/-- a file is opened only with a header whose suffix is a name -/
theorem suffix_of_openFile {file : String} {header : Framing.Identity} {o : Output}
    (hopen : openFile d file header = (d', .ok o)) : Framing.isName header.suffix = true := by
  unfold openFile at hopen
  split at hopen
  · simp at hopen
  · unfold Output.writeHeader at hopen
    cases hp : Framing.headerPieces header with
    | error e => simp [hp] at hopen
    | ok pieces => exact (Framing.isName_of_headerPieces hp).2

theorem names_of_create (hcreate : create d s naming = (d', .ok w)) :
    naming.validate = .ok () ∧ Framing.isName s.suffix = true := by
  unfold create at hcreate
  split at hcreate
  · simp at hcreate
  · next hvalidate =>
    split at hcreate
    · simp at hcreate
    · next hdata => exact ⟨hvalidate, suffix_of_openFile hdata⟩

/-- **Creating a writer** writes both headers and nothing else. -/
theorem create_spec (hd : d.Tidy) (hcreate : create d s naming = (d', .ok w)) :
    naming.Valid ∧ w.failed = false ∧ d'.medium = d.medium ∧ Open s naming d' w
      (Framing.headerBytes (s.metadataHeader naming)) (Framing.headerBytes (s.dataHeader naming)) := by
  unfold create at hcreate
  split at hcreate
  · simp at hcreate
  · next hvalidate =>
    have hn := Naming.valid_of_validate hvalidate
    split at hcreate
    · simp at hcreate
    · next e data hdata =>
      split at hcreate
      · simp at hcreate
      · next e' metadata hmetadata =>
        obtain ⟨rfl, rfl⟩ : e' = d' ∧ ({ metadata, data, documents := s.documents } : SegmentWriter) = w := by
          simpa using hcreate
        obtain ⟨htidy, hmedium, -, hpath, hbacked, hwrote, -⟩ := openFile_spec hd hdata
        obtain ⟨htidy', hmedium', -, hpath', hbacked', hwrote', g, place, hleads, hothers⟩ :=
          openFile_spec htidy hmetadata
        -- on disk the data file stands at another place, so it is neither emptied nor renumbered
        have hstill : e.medium = .disk → ∀ f, e.named? data.sink.path = some f →
            e'.named? data.sink.path = some f ∧ f.number ≠ metadata.sink.number := by
          intro hdisk f hf
          refine hothers hdisk _ f hf ?_
          obtain ⟨other, hother, hat⟩ := Directory.named?_eq_some_iff.1 hf
          rw [(Directory.fileAt?_eq_some hat).2]
          exact place_ne hn (hpath ▸ hother) hleads
        refine ⟨hn, rfl, hmedium'.trans hmedium, htidy', hpath', hpath, hwrote', hwrote, hbacked', ?_, ?_, rfl⟩
        · intro hdisk
          obtain ⟨hflushed, f, hf, hnumber, hcontent⟩ := hbacked (hmedium' ▸ hdisk)
          exact ⟨hflushed, f, (hstill (hmedium' ▸ hdisk) f hf).1, hnumber, hcontent⟩
        · intro hdisk
          obtain ⟨-, f, hf, hnumber, -⟩ := hbacked (hmedium' ▸ hdisk)
          exact hnumber ▸ (hstill (hmedium' ▸ hdisk) f hf).2

/-! ## Columns -/

theorem carryOut_spec {writes : List Write} {m m' o o' : Output} {documents : UInt32} {failed : Bool}
    (h : Open s naming d ⟨m, o, documents, failed⟩ metadata data)
    (hcarry : carryOut d m o writes = (d', m', o', .ok ())) :
    d'.medium = d.medium ∧ Open s naming d' ⟨m', o', documents, failed⟩
      (metadata ++ Plan.writesTo .metadata writes) (data ++ Plan.writesTo .data writes) := by
  induction writes generalizing d m o metadata data with
  | nil =>
    obtain ⟨rfl, rfl, rfl, -⟩ : d = d' ∧ m = m' ∧ o = o' ∧ True := by simpa [carryOut] using hcarry
    refine ⟨rfl, ?_⟩
    simpa using h
  | cons write writes ih =>
    obtain ⟨target, bytes⟩ := write
    rw [Plan.writesTo_cons, Plan.writesTo_cons]
    cases target with
    | metadata =>
      rw [carryOut] at hcarry
      split at hcarry
      · next e p hwrite =>
        obtain ⟨hkeeps, hwrote⟩ := Output.writeAll_spec h.tidy h.metadataBacked h.metadataWrote hwrite
        obtain ⟨hmedium, hopen⟩ := ih (h.ofMetadata hkeeps hwrote) hcarry
        refine ⟨hmedium.trans hkeeps.frame.medium, ?_⟩
        simpa using hopen
      · simp at hcarry
    | data =>
      rw [carryOut] at hcarry
      split at hcarry
      · next e p hwrite =>
        obtain ⟨hkeeps, hwrote⟩ := Output.writeAll_spec h.tidy h.dataBacked h.dataWrote hwrite
        obtain ⟨hmedium, hopen⟩ := ih (h.ofData hkeeps hwrote) hcarry
        refine ⟨hmedium.trans hkeeps.frame.medium, ?_⟩
        simpa using hopen
      · simp at hcarry

theorem Open.position (h : Open s naming d w metadata data) : w.data.position = data.length := h.dataWrote.written

/-- **Adding a column** either fails the writer for good, or adds just the bytes of the plan. -/
theorem add_spec (h : Open s naming d w metadata data) (field : FieldNumber) (name : String) (values : Values) :
    let plan := values.plan field name s.documents data.length
    (w.add d field name values).2.1.failed = true ∨
      (w.add d field name values).2.1.failed = w.failed ∧ (w.add d field name values).2.2 = plan.outcome ∧
        (w.add d field name values).1.medium = d.medium ∧
        Open s naming (w.add d field name values).1 (w.add d field name values).2.1
          (metadata ++ plan.bytes .metadata) (data ++ plan.bytes .data) := by
  intro plan
  have hadd : w.add d field name values = w.follow d plan := by
    rw [add, h.documents, h.position]
  rw [hadd]
  obtain ⟨m, o, documents, failed⟩ := w
  unfold follow
  dsimp only
  split
  · left
    rfl
  · next e m' o' hcarry =>
    obtain ⟨hmedium, hopen⟩ := carryOut_spec h hcarry
    split
    · next layout houtcome =>
      right
      exact ⟨rfl, houtcome.symm, hmedium, hopen⟩
    · left
      rfl

/-- a column that is answered with a layout has a plan that ends with it, and the writer does not fail -/
theorem outcome_of_add {field : FieldNumber} {name : String} {values : Values} {layout : Layout}
    (hadd : w.add d field name values = (d', w', .ok layout)) :
    (values.plan field name w.documents w.data.position).outcome = .ok layout ∧ w'.documents = w.documents ∧
      w'.failed = w.failed := by
  obtain ⟨m, o, documents, failed⟩ := w
  unfold add follow at hadd
  dsimp only at hadd
  split at hadd
  · simp at hadd
  · split at hadd
    · next houtcome =>
      obtain ⟨-, rfl, rfl⟩ := by simpa using hadd
      exact ⟨houtcome, rfl, rfl⟩
    · simp at hadd

theorem failed_add (h : w.failed = true) (field : FieldNumber) (name : String) (values : Values) :
    (w.add d field name values).2.1.failed = true := by
  obtain ⟨m, o, documents, failed⟩ := w
  unfold add follow
  dsimp only
  split
  · rfl
  · split
    · exact h
    · rfl

/-! ## Closing -/

def endBytes : Bytes := Varint.encode endMark.toNat

theorem complete_spec (h : Open s naming d w metadata data) (hcomplete : w.complete d = (d', w', .ok ())) :
    d'.medium = d.medium ∧ Open s naming d' w' (metadata ++ endBytes ++ Framing.footer (metadata ++ endBytes))
      (data ++ Framing.footer data) := by
  obtain ⟨m, o, documents, failed⟩ := w
  unfold complete at hcomplete
  dsimp only at hcomplete
  split at hcomplete
  · simp at hcomplete
  · next d₁ m₁ hmark =>
    obtain ⟨hkeeps, hwrote⟩ := Output.writePieces_spec h.tidy h.metadataBacked h.metadataWrote hmark
    rw [Varint.flatten_pieces] at hwrote
    have hmarked := h.ofMetadata hkeeps hwrote
    split at hcomplete
    · simp at hcomplete
    · next d₂ m₂ hfooter =>
      obtain ⟨hkeeps₂, hwrote₂⟩ :=
        Output.writeFooter_spec hmarked.tidy hmarked.metadataBacked hmarked.metadataWrote hfooter
      have hclosed := hmarked.ofMetadata hkeeps₂ hwrote₂
      generalize hlast : o.writeFooter d₂ = last at hcomplete
      obtain ⟨d₃, o₃, outcome⟩ := last
      obtain ⟨rfl, rfl, rfl⟩ : d₃ = d' ∧ ⟨m₂, o₃, documents, failed⟩ = w' ∧ outcome = .ok () := by
        simpa using hcomplete
      obtain ⟨hkeeps₃, hwrote₃⟩ := Output.writeFooter_spec hclosed.tidy hclosed.dataBacked hclosed.dataWrote hlast
      exact ⟨hkeeps₃.frame.medium.trans (hkeeps₂.frame.medium.trans hkeeps.frame.medium),
        hclosed.ofData hkeeps₃ hwrote₃⟩

/-- the contents of both files of a segment, as a read answers them -/
def Published (s : Segment) (naming : Naming) (d : Directory) (metadata data : ByteArray) : Prop :=
  d.read (s.metadataFile naming) = .ok metadata ∧ d.read (s.dataFile naming) = .ok data

/-- what is published is what the two outputs have taken -/
theorem publish_spec (hn : naming.Valid) (h : Open s naming d w metadata data) (hpublish : w.publish d = (d', .ok ())) :
    d'.Tidy ∧ d'.medium = d.medium ∧ ∃ m o, Published s naming d' m o ∧ Bytes.ofArray m = metadata ∧ Bytes.ofArray o = data := by
  unfold publish at hpublish
  split at hpublish
  · simp at hpublish
  · next e hdata =>
    obtain ⟨htidy, hmedium, ⟨f, hnamed, hcontent, hnumber⟩, hothers⟩ :=
      Output.finish_spec h.tidy h.dataBacked h.dataWrote hdata
    rw [h.dataPath] at hnamed
    -- the metadata file stays behind its output while the data file is published
    have hbacked : Sink.Backed e w.metadata.sink := by
      intro hdisk
      have hdisk' : d.medium = .disk := hmedium ▸ hdisk
      obtain ⟨hflushed, g, hg, hnumber, hgcontent⟩ := h.metadataBacked hdisk'
      refine ⟨hflushed, g, hothers _ g hg ?_ (fun _ => hnumber ▸ (h.apart hdisk').symm), hnumber, hgcontent⟩
      intro hmemory
      rw [hdisk'] at hmemory
      simp at hmemory
    split at hpublish
    · simp at hpublish
    · next e' hmetadata =>
      obtain rfl : e' = d' := by simpa using hpublish
      obtain ⟨htidy', hmedium', ⟨g, hnamed', hcontent', -⟩, hothers'⟩ :=
        Output.finish_spec htidy hbacked h.metadataWrote hmetadata
      rw [h.metadataPath] at hnamed' hothers'
      refine ⟨htidy', hmedium'.trans hmedium, g.content, f.content,
        ⟨Directory.read_of_named hnamed', Directory.read_of_named (hothers' _ f hnamed ?_ ?_)⟩, hcontent', hcontent⟩
      · intro hmemory
        obtain ⟨place, hleads, hat⟩ := Directory.named?_eq_some_iff.1 hnamed
        rw [(Directory.fileAt?_eq_some hat).2]
        refine place_ne hn hleads (e := e) ?_
        rw [Directory.Leads, hmemory]
      · intro hdisk
        have hdisk' : d.medium = .disk := hmedium ▸ hdisk
        exact hnumber hdisk' ▸ h.apart hdisk'

/-- **Closing publishes both files**: what they have taken, the end mark behind the metadata, and a footer each. -/
theorem close_spec (hn : naming.Valid) (h : Open s naming d w metadata data) (hclose : w.close d = (d', .ok ())) :
    d'.Tidy ∧ d'.medium = d.medium ∧ ∃ m o, Published s naming d' m o ∧
      Bytes.ofArray m = metadata ++ endBytes ++ Framing.footer (metadata ++ endBytes) ∧
      Bytes.ofArray o = data ++ Framing.footer data := by
  unfold close at hclose
  split at hclose
  · simp at hclose
  · split at hclose
    · next e w' hcomplete =>
      obtain ⟨hmedium, hopen⟩ := complete_spec h hcomplete
      obtain ⟨htidy, hmedium', hpublished⟩ := publish_spec hn hopen hclose
      exact ⟨htidy, hmedium'.trans hmedium, hpublished⟩
    · simp at hclose

/-! ## Sessions -/

/-- something else happened in the directory, and left the two files of a segment as they were -/
structure Elsewhere (s : Segment) (naming : Naming) (d d' : Directory) : Prop where
  step : d.Step d'
  metadata : ∀ f, d.named? (s.metadataFile naming) = some f → d'.named? (s.metadataFile naming) = some f
  data : ∀ f, d.named? (s.dataFile naming) = some f → d'.named? (s.dataFile naming) = some f

/-- a writer that was created for a segment in some directory, and may have been given columns since -/
inductive Session (s : Segment) (naming : Naming) : Directory → SegmentWriter → Prop where
  | create {d d' : Directory} {w : SegmentWriter} (reachable : d.Reachable)
      (created : create d s naming = (d', .ok w)) : Session s naming d' w
  | add {d : Directory} {w : SegmentWriter} (before : Session s naming d w) (field : FieldNumber) (name : String)
      (values : Values) : Session s naming (w.add d field name values).1 (w.add d field name values).2.1
  | elsewhere {d d' : Directory} {w : SegmentWriter} (before : Session s naming d w)
      (change : Elsewhere s naming d d') : Session s naming d' w

/-- what happens elsewhere does not reach the two files -/
theorem Open.elsewhere (h : Open s naming d w metadata data) (he : Elsewhere s naming d d') :
    Open s naming d' w metadata data where
  tidy := he.step.tidy h.tidy
  metadataPath := h.metadataPath
  dataPath := h.dataPath
  metadataWrote := h.metadataWrote
  dataWrote := h.dataWrote
  metadataBacked hdisk := by
    obtain ⟨hflushed, f, hf, hrest⟩ := h.metadataBacked (he.step.medium h.tidy ▸ hdisk)
    rw [h.metadataPath] at hf ⊢
    exact ⟨hflushed, f, he.metadata f hf, hrest⟩
  dataBacked hdisk := by
    obtain ⟨hflushed, f, hf, hrest⟩ := h.dataBacked (he.step.medium h.tidy ▸ hdisk)
    rw [h.dataPath] at hf ⊢
    exact ⟨hflushed, f, he.data f hf, hrest⟩
  apart hdisk := h.apart (he.step.medium h.tidy ▸ hdisk)
  documents := h.documents

/-- a writer in a session failed, or its two files hold bytes that are known -/
theorem Session.open (h : Session s naming d w) :
    naming.Valid ∧ (w.failed = true ∨ ∃ metadata data, Open s naming d w metadata data) := by
  induction h with
  | create reachable created =>
    obtain ⟨hn, -, -, hopen⟩ := create_spec reachable.tidy created
    exact ⟨hn, .inr ⟨_, _, hopen⟩⟩
  | add before field name values ih =>
    obtain ⟨hn, hfailed | ⟨metadata, data, hopen⟩⟩ := ih
    · exact ⟨hn, .inl (failed_add hfailed field name values)⟩
    · rcases add_spec hopen field name values with hfailed | ⟨-, -, -, hopen⟩
      · exact ⟨hn, .inl hfailed⟩
      · exact ⟨hn, .inr ⟨_, _, hopen⟩⟩
  | elsewhere before change ih =>
    obtain ⟨hn, hfailed | ⟨metadata, data, hopen⟩⟩ := ih
    · exact ⟨hn, .inl hfailed⟩
    · exact ⟨hn, .inr ⟨metadata, data, hopen.elsewhere change⟩⟩

/-- what a session publishes is two files with a footer each -/
theorem Session.close_spec (h : Session s naming d w) (hclose : w.close d = (d', .ok ())) :
    d'.Tidy ∧ ∃ (m o : ByteArray) (metadata data : Bytes), Published s naming d' m o ∧
      Bytes.ofArray m = metadata ++ Framing.footer metadata ∧ Bytes.ofArray o = data ++ Framing.footer data := by
  obtain ⟨hn, hfailed | ⟨metadata, data, hopen⟩⟩ := h.open
  · simp [close, hfailed] at hclose
  · obtain ⟨htidy, -, m, o, hpublished, hm, ho⟩ := SegmentWriter.close_spec hn hopen hclose
    exact ⟨htidy, m, o, _, _, hpublished, hm, ho⟩

/-! ## Without faults -/

/-- no fault is due in the two files of a writer -/
structure Faultless (w : SegmentWriter) : Prop where
  metadata : w.metadata.Faultless
  data : w.data.Faultless

theorem openFile_faultless {file : String} {header : Framing.Identity} {o : Output} (hd : d.Tidy) (hf : d.faults = {})
    (hopen : openFile d file header = (d', .ok o)) : o.Faultless := by
  unfold openFile Output.create at hopen
  split at hopen
  · simp at hopen
  · next e p hcreate =>
    split at hcreate
    · next e' sink hsink =>
      obtain ⟨rfl, rfl⟩ : e' = e ∧ ({ name := file, sink := sink } : Output) = p := by simpa using hcreate
      obtain ⟨-, -, -, -, -, -, ⟨k, hfaults⟩, -⟩ := Sink.openSink_spec hd hsink
      have hfresh : Output.Faultless { name := file, sink := sink } := by rw [Output.Faultless, hfaults, hf]
      unfold Output.writeHeader at hopen
      cases hp : Framing.headerPieces header with
      | error e => simp [hp] at hopen
      | ok pieces =>
        obtain ⟨d₁, p, hwrite, hfaultless, -⟩ := Output.writePieces_faultless e' hfresh pieces
        obtain ⟨-, rfl⟩ : d₁ = d' ∧ p = o := by simpa [hp, hwrite] using hopen
        exact hfaultless
    · simp at hcreate

theorem create_faultless (hd : d.Tidy) (hf : d.faults = {}) (hcreate : create d s naming = (d', .ok w)) :
    w.Faultless := by
  unfold create at hcreate
  split at hcreate
  · simp at hcreate
  · split at hcreate
    · simp at hcreate
    · next e data hdata =>
      split at hcreate
      · simp at hcreate
      · next e' metadata hmetadata =>
        obtain ⟨-, rfl⟩ : e' = d' ∧ ({ metadata, data, documents := s.documents } : SegmentWriter) = w := by
          simpa using hcreate
        obtain ⟨htidy, -, hfaults, -⟩ := openFile_spec hd hdata
        exact ⟨openFile_faultless htidy (hfaults.trans hf) hmetadata, openFile_faultless hd hf hdata⟩

theorem carryOut_faultless (d : Directory) {m o : Output} (hmetadata : m.Faultless) (hdata : o.Faultless)
    (writes : List Write) : ∃ e m' o', carryOut d m o writes = (e, m', o', .ok ()) ∧ m'.Faultless ∧ o'.Faultless ∧
      (d.medium = .memory → e = d) := by
  induction writes generalizing d m o with
  | nil => exact ⟨d, m, o, rfl, hmetadata, hdata, fun _ => rfl⟩
  | cons write writes ih =>
    obtain ⟨target, bytes⟩ := write
    cases target with
    | metadata =>
      obtain ⟨e, m', hwrite, hm', hfirst⟩ := Output.writeAll_faultless d hmetadata bytes
      obtain ⟨f, m'', o'', hcarry, hm'', ho'', hrest⟩ := ih e hm' hdata
      refine ⟨f, m'', o'', by rw [carryOut, hwrite]; exact hcarry, hm'', ho'', fun hm => ?_⟩
      obtain rfl := hfirst hm
      exact hrest hm
    | data =>
      obtain ⟨e, o', hwrite, ho', hfirst⟩ := Output.writeAll_faultless d hdata bytes
      obtain ⟨f, m'', o'', hcarry, hm'', ho'', hrest⟩ := ih e hmetadata ho'
      refine ⟨f, m'', o'', by rw [carryOut, hwrite]; exact hcarry, hm'', ho'', fun hm => ?_⟩
      obtain rfl := hfirst hm
      exact hrest hm

/-- without faults a column is answered with the outcome of its plan -/
theorem add_answer (d : Directory) (h : w.Faultless) (field : FieldNumber) (name : String) (values : Values) :
    (w.add d field name values).2.2 = (values.plan field name w.documents w.data.position).outcome ∧
      (w.add d field name values).2.1.Faultless ∧ (w.add d field name values).2.1.documents = w.documents := by
  obtain ⟨m, o, documents, failed⟩ := w
  obtain ⟨e, m', o', hcarry, hmetadata, hdata, -⟩ := carryOut_faultless d h.metadata h.data
    (values.plan field name documents o.position).writes
  simp only [add, follow, hcarry]
  cases (values.plan field name documents o.position).outcome with
  | ok layout => exact ⟨rfl, ⟨hmetadata, hdata⟩, rfl⟩
  | error e => exact ⟨rfl, ⟨hmetadata, hdata⟩, rfl⟩

theorem add_faultless (d : Directory) (h : w.Faultless) {field : FieldNumber} {name : String} {values : Values}
    {layout : Layout} (hplan : (values.plan field name w.documents w.data.position).outcome = .ok layout) :
    ∃ e w', w.add d field name values = (e, w', .ok layout) ∧ w'.Faultless ∧ w'.failed = w.failed ∧
      (d.medium = .memory → e = d) := by
  obtain ⟨m, o, documents, failed⟩ := w
  obtain ⟨e, m', o', hcarry, hmetadata, hdata, hsame⟩ := carryOut_faultless d h.metadata h.data
    (values.plan field name documents o.position).writes
  refine ⟨e, ⟨m', o', documents, failed⟩, ?_, ⟨hmetadata, hdata⟩, rfl, hsame⟩
  dsimp only at hplan
  simp only [add, follow, hcarry, hplan]

theorem writeFooter_faultless (d : Directory) {o : Output} (hf : o.Faultless) :
    ∃ e o', o.writeFooter d = (e, o', .ok ()) ∧ o'.Faultless := by
  obtain ⟨e, p, hp, hpf, -⟩ := Output.writePieces_faultless d hf
    [Bytes.ofUInt32 Framing.footerMagic, Bytes.ofUInt32 Framing.crcAlgorithm]
  obtain ⟨f, q, hq, hqf, -⟩ := Output.writeAll_faultless e hpf (Bytes.ofUInt64 p.checksum.toUInt64)
  refine ⟨f, q, ?_, hqf⟩
  simp only [Output.writeFooter, hp, hq]

theorem close_faultless (d : Directory) (h : w.Faultless) (hfailed : w.failed = false) :
    ∃ d', w.close d = (d', .ok ()) := by
  obtain ⟨m, o, documents, failed⟩ := w
  obtain rfl : failed = false := hfailed
  obtain ⟨e₁, m₁, hmark, hm₁, -⟩ := Output.writePieces_faultless d h.metadata (Varint.pieces endMark.toNat)
  obtain ⟨e₂, m₂, hfooter, hm₂⟩ := writeFooter_faultless e₁ hm₁
  obtain ⟨e₃, o₁, hdata, ho₁⟩ := writeFooter_faultless e₂ h.data
  obtain ⟨e₄, hfirst⟩ : ∃ e₄, o₁.finish e₃ = (e₄, .ok ()) := ⟨_, Prod.ext rfl (Output.finish_faultless e₃ ho₁)⟩
  obtain ⟨e₅, hsecond⟩ : ∃ e₅, m₂.finish e₄ = (e₅, .ok ()) := ⟨_, Prod.ext rfl (Output.finish_faultless e₄ hm₂)⟩
  exact ⟨e₅, by simp [close, complete, hmark, hfooter, hdata, publish, hfirst, hsecond]⟩

/-! ## In memory, without faults -/

/-- nothing stands in the way of a writer: its files are in memory, and no fault is due -/
structure Ready (d : Directory) (w : SegmentWriter) : Prop where
  memory : d.medium = .memory
  metadata : w.metadata.Faultless
  data : w.data.Faultless

theorem Ready.faultless (h : Ready d w) : w.Faultless := ⟨h.metadata, h.data⟩

theorem openFile_memory (hm : d.medium = .memory) (hf : d.faults = {}) (file : String) (header : Framing.Identity)
    (hcodec : Framing.isName header.codec = true) (hsuffix : Framing.isName header.suffix = true) :
    ∃ o, openFile d file header = ({ d with opened := d.opened + 1 }, .ok o) ∧ o.Faultless := by
  obtain ⟨o, hcreate, ho, -⟩ := Output.create_memory hm hf file
  obtain ⟨pieces, hpieces, -⟩ := Framing.headerPieces_eq hcodec hsuffix
  obtain ⟨o', hwrite, hfaultless⟩ := Output.writePieces_memory (d := { d with opened := d.opened + 1 }) hm ho pieces
  refine ⟨o', ?_, hfaultless⟩
  simp only [openFile, hcreate, Output.writeHeader, hpieces, hwrite]

theorem create_memory (hm : d.medium = .memory) (hf : d.faults = {}) (hnaming : naming.validate = .ok ())
    (hsuffix : Framing.isName s.suffix = true) : ∃ d' w, create d s naming = (d', .ok w) ∧ Ready d' w := by
  have hn := Naming.valid_of_validate hnaming
  obtain ⟨data, hdata, hdataFaultless⟩ :=
    openFile_memory hm hf (s.dataFile naming) (s.dataHeader naming) hn.dataCodec hsuffix
  obtain ⟨metadata, hmetadata, hmetadataFaultless⟩ :=
    openFile_memory (d := { d with opened := d.opened + 1 }) hm hf (s.metadataFile naming) (s.metadataHeader naming)
      hn.metadataCodec hsuffix
  refine ⟨{ d with opened := d.opened + 1 + 1 }, { metadata, data, documents := s.documents }, ?_, hm,
    hmetadataFaultless, hdataFaultless⟩
  simp only [create, hnaming, hdata, hmetadata]

/-- without faults a writer can be created, on disk as long as the files can be opened -/
theorem exists_create (hf : d.faults = {}) (hnaming : naming.validate = .ok ()) (hsuffix : Framing.isName s.suffix = true)
    (hdisk : d.medium = .disk → ∃ d₁ w, create d s naming = (d₁, .ok w)) : ∃ d₁ w, create d s naming = (d₁, .ok w) := by
  cases hm : d.medium with
  | memory =>
    obtain ⟨d₁, w, hcreate, -⟩ := create_memory hm hf hnaming hsuffix
    exact ⟨d₁, w, hcreate⟩
  | disk => exact hdisk hm

theorem carryOut_memory {m o : Output} (hm : d.medium = .memory) (hmetadata : m.Faultless) (hdata : o.Faultless)
    (writes : List Write) : ∃ m' o', carryOut d m o writes = (d, m', o', .ok ()) ∧ m'.Faultless ∧ o'.Faultless := by
  obtain ⟨e, m', o', hcarry, hm', ho', hsame⟩ := carryOut_faultless d hmetadata hdata writes
  obtain rfl := hsame hm
  exact ⟨m', o', hcarry, hm', ho'⟩

theorem add_memory (h : Ready d w) {field : FieldNumber} {name : String} {values : Values} {layout : Layout}
    (hplan : (values.plan field name w.documents w.data.position).outcome = .ok layout) :
    ∃ w', w.add d field name values = (d, w', .ok layout) ∧ Ready d w' ∧ w'.failed = w.failed := by
  obtain ⟨e, w', hadd, hfaultless, hfailed, hsame⟩ := add_faultless d h.faultless hplan
  obtain rfl := hsame h.memory
  exact ⟨w', hadd, ⟨h.memory, hfaultless.metadata, hfaultless.data⟩, hfailed⟩

end SegmentWriter

end ColumnStore
