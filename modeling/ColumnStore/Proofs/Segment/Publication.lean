/-
Publication: what the run of a writer leaves in a directory in memory, whatever fails on the way.

Faults may strike any call of any sink. Before `close` nothing is seen of a writer: each step leaves the directory as it
was, also one that fails (`Still`). `Pending` is what a writer keeps from `create` on, through columns that are added and
columns that are refused: it failed for good, or both files have taken a header and more behind it. So closing it publishes
nothing, or the data file, or both files (`Outcome`), and `publication` says which of these can come of which run.
-/
import ColumnStore.Proofs.Segment.Writer
import ColumnStore.Proofs.Storage.Streaming

namespace ColumnStore

open Storage Column

namespace Storage.Output

variable {d : Directory} {o : Output}

/-- writing a header reaches one file at most, and succeeds for names only -/
theorem writeHeader_stays (d : Directory) (o : Output) (h : Framing.Identity) :
    Stays d (o.writeHeader d h).1 o (o.writeHeader d h).2.1 ∧ ((o.writeHeader d h).2.2 = .ok () →
      Framing.isName h.codec = true ∧ Framing.isName h.suffix = true) := by
  unfold writeHeader
  cases hp : Framing.headerPieces h with
  | error e => exact ⟨Stays.refl d o, by simp⟩
  | ok pieces =>
    have hpieces := writePieces_stays d o pieces
    refine ⟨?_, fun _ => Framing.isName_of_headerPieces hp⟩
    dsimp only
    split
    · next hwrite => rwa [hwrite] at hpieces
    · next hwrite => rwa [hwrite] at hpieces

theorem writeFooter_stays (d : Directory) (o : Output) :
    Stays d (o.writeFooter d).1 o (o.writeFooter d).2.1 := by
  unfold writeFooter
  have hpieces := writePieces_stays d o [Bytes.ofUInt32 Framing.footerMagic, Bytes.ofUInt32 Framing.crcAlgorithm]
  split
  · next hwrite =>
    rw [hwrite] at hpieces
    exact hpieces.trans (writeAll_stays _ _ _)
  · next hwrite => rwa [hwrite] at hpieces

end Storage.Output

namespace SegmentWriter

variable {s : Segment} {naming : Naming} {d d' : Directory} {w w' : SegmentWriter}

/-! ## Runs -/

/-- one call that adds a column -/
inductive Addition where
  | column (field : FieldNumber) (name : String) (values : Values)
  | merged (field : FieldNumber) (name : String) (parts : List MergePart)

def Addition.run (d : Directory) (w : SegmentWriter) : Addition → Directory × SegmentWriter × Except Error Layout
  | .column field name values => w.add d field name values
  | .merged field name parts => w.addMerged d field name parts

/-- make calls one after the other, whatever they answer, and collect the answers -/
def addEach (d : Directory) (w : SegmentWriter) :
    List Addition → Directory × SegmentWriter × List (Except Error Layout)
  | [] => (d, w, [])
  | addition :: additions =>
    match addition.run d w with
    | (d, w, answer) =>
      match addEach d w additions with
      | (d, w, answers) => (d, w, answer :: answers)

theorem answers_cons (d : Directory) (w : SegmentWriter) (addition : Addition) (additions : List Addition) :
    (w.addEach d (addition :: additions)).2.2 = (addition.run d w).2.2 ::
      ((addition.run d w).2.1.addEach (addition.run d w).1 additions).2.2 := rfl

/-! ## Steps that nobody sees -/

/-- in memory, whatever came of a step, the directory is as it was, and the files are called as they were -/
structure Still (d d' : Directory) (w w' : SegmentWriter) : Prop where
  directory : d' = d
  metadata : w'.metadata.name = w.metadata.name
  data : w'.data.name = w.data.name

theorem Still.refl (d : Directory) (w : SegmentWriter) : Still d d w w := ⟨rfl, rfl, rfl⟩

theorem Still.trans {d e f : Directory} {w v u : SegmentWriter} (h : Still d e w v) (h' : Still e f v u) :
    Still d f w u :=
  ⟨h'.directory.trans h.directory, h'.metadata.trans h.metadata, h'.data.trans h.data⟩

theorem carryOut_still (hm : d.medium = .memory) (m o : Output) (writes : List Write) :
    (carryOut d m o writes).1 = d ∧ (carryOut d m o writes).2.1.name = m.name ∧
      (carryOut d m o writes).2.2.1.name = o.name := by
  induction writes generalizing m o with
  | nil => exact ⟨rfl, rfl, rfl⟩
  | cons write writes ih =>
    obtain ⟨target, bytes⟩ := write
    cases target with
    | metadata =>
      have hstays := Output.writeAll_stays d m bytes
      have hsame := hstays.rewrites.memory hm
      rw [carryOut]
      generalize m.writeAll d bytes = written at hstays hsame
      obtain ⟨e, m', result⟩ := written
      obtain rfl : e = d := hsame
      cases result with
      | error fault => exact ⟨rfl, hstays.name, rfl⟩
      | ok _ =>
        obtain ⟨hd, hmetadata, hdata⟩ := ih m' o
        exact ⟨hd, hmetadata.trans hstays.name, hdata⟩
    | data =>
      have hstays := Output.writeAll_stays d o bytes
      have hsame := hstays.rewrites.memory hm
      rw [carryOut]
      generalize o.writeAll d bytes = written at hstays hsame
      obtain ⟨e, o', result⟩ := written
      obtain rfl : e = d := hsame
      cases result with
      | error fault => exact ⟨rfl, rfl, hstays.name⟩
      | ok _ =>
        obtain ⟨hd, hmetadata, hdata⟩ := ih m o'
        exact ⟨hd, hmetadata, hdata.trans hstays.name⟩

/-- adding a column is not seen, and a column that is refused fails the writer -/
theorem add_still (hm : d.medium = .memory) (w : SegmentWriter) (field : FieldNumber) (name : String)
    (values : Values) : Still d (w.add d field name values).1 w (w.add d field name values).2.1 ∧
      ∀ e, (w.add d field name values).2.2 = .error e → (w.add d field name values).2.1.failed = true := by
  obtain ⟨m, o, documents, failed⟩ := w
  obtain ⟨hd, hmetadata, hdata⟩ := carryOut_still hm m o (values.plan field name documents o.position).writes
  unfold add follow
  dsimp only
  generalize carryOut d m o _ = carried at hd hmetadata hdata
  obtain ⟨e, m', o', result⟩ := carried
  cases result with
  | error fault => exact ⟨⟨hd, hmetadata, hdata⟩, fun _ _ => rfl⟩
  | ok _ =>
    dsimp only
    cases (values.plan field name documents o.position).outcome with
    | error fault => exact ⟨⟨hd, hmetadata, hdata⟩, fun _ _ => rfl⟩
    | ok layout => exact ⟨⟨hd, hmetadata, hdata⟩, fun e he => by simp at he⟩

/-- the end mark and the footers are not seen -/
theorem complete_still (hm : d.medium = .memory) (w : SegmentWriter) :
    Still d (w.complete d).1 w (w.complete d).2.1 := by
  obtain ⟨m, o, documents, failed⟩ := w
  have hmark := Output.writePieces_stays d m (Varint.pieces endMark.toNat)
  have hmarkSame := hmark.rewrites.memory hm
  unfold complete
  dsimp only
  generalize m.writePieces d (Varint.pieces endMark.toNat) = marked at hmark hmarkSame
  obtain ⟨e, m₁, result⟩ := marked
  obtain rfl : e = d := hmarkSame
  cases result with
  | error fault => exact ⟨rfl, hmark.name, rfl⟩
  | ok _ =>
    have hfooter := Output.writeFooter_stays e m₁
    have hfooterSame := hfooter.rewrites.memory hm
    dsimp only
    generalize m₁.writeFooter e = footed at hfooter hfooterSame
    obtain ⟨e', m₂, result⟩ := footed
    obtain rfl : e' = e := hfooterSame
    cases result with
    | error fault => exact ⟨rfl, hfooter.name.trans hmark.name, rfl⟩
    | ok _ =>
      have hlast := Output.writeFooter_stays e' o
      have hlastSame := hlast.rewrites.memory hm
      dsimp only
      generalize o.writeFooter e' = last at hlast hlastSame
      obtain ⟨e'', o', result⟩ := last
      exact ⟨hlastSame, hfooter.name.trans hmark.name, hlast.name⟩

theorem discard_memory (hm : d.medium = .memory) (o : Output) : discard d o = d := Sink.abort_memory hm o.sink

theorem drop_memory (hm : d.medium = .memory) (w : SegmentWriter) : w.drop d = d := by
  rw [drop, discard_memory hm, discard_memory hm]

/-- opening a file is not seen; a file that opens is called by its path, and its header could be written -/
theorem openFile_still (hm : d.medium = .memory) (file : String) (header : Framing.Identity) :
    d.Untouched (openFile d file header).1 ∧ ∀ o, (openFile d file header).2 = .ok o →
      o.name = file ∧ Framing.isName header.codec = true ∧ Framing.isName header.suffix = true := by
  have hopen := Directory.openSink_untouched hm file
  unfold openFile Output.create
  generalize d.openSink file = opened at hopen
  obtain ⟨e, result⟩ := opened
  cases result with
  | error fault => exact ⟨hopen, by simp⟩
  | ok sink =>
    have hm' : e.medium = .memory := (Directory.Untouched.medium hopen).trans hm
    obtain ⟨hstays, hnames⟩ := Output.writeHeader_stays e { name := file, sink } header
    have hsame := hstays.rewrites.memory hm'
    dsimp only
    generalize Output.writeHeader e { name := file, sink } header = written at hstays hsame hnames
    obtain ⟨e', o, result⟩ := written
    obtain rfl : e' = e := hsame
    cases result with
    | error fault =>
      dsimp only
      rw [discard_memory hm']
      exact ⟨hopen, by simp⟩
    | ok _ =>
      refine ⟨hopen, fun p hp => ?_⟩
      obtain rfl : o = p := by simpa using hp
      exact ⟨hstays.name, hnames rfl⟩

/-! ## The invariant -/

/-- nothing is seen of a writer yet: it failed for good, or both files have taken their header and more behind it -/
structure Pending (s : Segment) (naming : Naming) (d : Directory) (w : SegmentWriter) : Prop where
  memory : d.medium = .memory
  valid : naming.Valid
  suffix : Framing.isName s.suffix = true
  metadata : w.metadata.name = s.metadataFile naming
  data : w.data.name = s.dataFile naming
  bytes : w.failed = true ∨ ∃ metadata data, Open s naming d w
    (Framing.headerBytes (s.metadataHeader naming) ++ metadata) (Framing.headerBytes (s.dataHeader naming) ++ data)

theorem create_untouched (hm : d.medium = .memory) (s : Segment) (naming : Naming) :
    d.Untouched (create d s naming).1 := by
  unfold create
  split
  · exact Directory.Untouched.refl d
  · have hdata := (openFile_still hm (s.dataFile naming) (s.dataHeader naming)).1
    split
    · next hopen => rwa [hopen] at hdata
    · next e data hopen =>
      rw [hopen] at hdata
      have hm' : e.medium = .memory := (Directory.Untouched.medium hdata).trans hm
      have hmetadata := (openFile_still hm' (s.metadataFile naming) (s.metadataHeader naming)).1
      split
      · next e' fault hopen' =>
        rw [hopen'] at hmetadata
        dsimp only
        rw [discard_memory ((Directory.Untouched.medium hmetadata).trans hm')]
        exact hdata.trans hmetadata
      · next hopen' =>
        rw [hopen'] at hmetadata
        exact hdata.trans hmetadata

theorem create_pending (hd : d.Tidy) (hm : d.medium = .memory) (hcreate : create d s naming = (d', .ok w)) :
    Pending s naming d' w := by
  obtain ⟨hn, -, hmedium, hopen⟩ := create_spec hd hcreate
  have hfiles : w.data.name = s.dataFile naming ∧ w.metadata.name = s.metadataFile naming ∧
      Framing.isName s.suffix = true := by
    unfold create at hcreate
    split at hcreate
    · simp at hcreate
    · obtain ⟨hdata, hdataName⟩ := openFile_still hm (s.dataFile naming) (s.dataHeader naming)
      split at hcreate
      · simp at hcreate
      · next e data hopenData =>
        rw [hopenData] at hdata hdataName
        obtain ⟨-, hmetadataName⟩ := openFile_still ((Directory.Untouched.medium hdata).trans hm)
          (s.metadataFile naming) (s.metadataHeader naming)
        split at hcreate
        · simp at hcreate
        · next e' metadata hopenMetadata =>
          rw [hopenMetadata] at hmetadataName
          obtain ⟨-, rfl⟩ : e' = d' ∧ { metadata, data, documents := s.documents } = w := by simpa using hcreate
          obtain ⟨hname, -, hsuffix⟩ := hdataName data rfl
          exact ⟨hname, (hmetadataName metadata rfl).1, hsuffix⟩
  obtain ⟨hdata, hmetadata, hsuffix⟩ := hfiles
  refine ⟨hmedium.trans hm, hn, hsuffix, hmetadata, hdata, .inr ⟨[], [], ?_⟩⟩
  simpa using hopen

/-- every call that adds a column adds some values under some number -/
theorem Addition.run_eq (addition : Addition) :
    ∃ field name values, ∀ (d : Directory) (w : SegmentWriter), addition.run d w = w.add d field name values := by
  cases addition with
  | column field name values => exact ⟨field, name, values, fun _ _ => rfl⟩
  | merged field name parts => exact ⟨field, name, .ints (merge parts), fun _ _ => rfl⟩

/-- one call is not seen, and if it is refused, the writer failed for good -/
theorem Pending.run (h : Pending s naming d w) (addition : Addition) :
    (addition.run d w).1 = d ∧ Pending s naming d (addition.run d w).2.1 ∧
      ((w.failed = true ∨ ∃ e, (addition.run d w).2.2 = .error e) → (addition.run d w).2.1.failed = true) := by
  obtain ⟨field, name, values, hrun⟩ := addition.run_eq
  rw [hrun]
  obtain ⟨hstill, hrefused⟩ := add_still h.memory w field name values
  refine ⟨hstill.directory, ⟨h.memory, h.valid, h.suffix, hstill.metadata.trans h.metadata,
    hstill.data.trans h.data, ?_⟩, ?_⟩
  · rcases h.bytes with hfailed | ⟨metadata, data, hopen⟩
    · exact .inl (failed_add hfailed field name values)
    · rcases add_spec hopen field name values with hfailed | ⟨-, -, -, hopen'⟩
      · exact .inl hfailed
      · rw [hstill.directory, List.append_assoc, List.append_assoc] at hopen'
        exact .inr ⟨_, _, hopen'⟩
  · rintro (hfailed | ⟨e, he⟩)
    · exact failed_add hfailed field name values
    · exact hrefused e he

/-- no calls are seen, and if one of them is refused, the writer failed for good -/
theorem Pending.addEach (h : Pending s naming d w) (additions : List Addition) :
    (w.addEach d additions).1 = d ∧ Pending s naming d (w.addEach d additions).2.1 ∧
      ((w.failed = true ∨ ∃ e, .error e ∈ (w.addEach d additions).2.2) →
        (w.addEach d additions).2.1.failed = true) := by
  induction additions generalizing w with
  | nil =>
    refine ⟨rfl, h, ?_⟩
    rintro (hfailed | ⟨e, he⟩)
    · exact hfailed
    · simp [SegmentWriter.addEach] at he
  | cons addition additions ih =>
    obtain ⟨hfirst, hpending, hrefused⟩ := h.run addition
    rw [SegmentWriter.addEach]
    generalize addition.run d w = ran at hfirst hpending hrefused
    obtain ⟨e, v, answer⟩ := ran
    obtain rfl : e = d := hfirst
    obtain ⟨hrest, hpending', hrefused'⟩ := ih hpending
    refine ⟨hrest, hpending', ?_⟩
    rintro (hfailed | ⟨fault, hfault⟩)
    · exact hrefused' (.inl (hrefused (.inl hfailed)))
    · rcases List.mem_cons.1 hfault with hhere | hlater
      · exact hrefused' (.inl (hrefused (.inr ⟨fault, hhere.symm⟩)))
      · exact hrefused' (.inr ⟨fault, hlater⟩)

/-! ## Closing -/

/-- a content that passes both checks of a reader: that of the footer, and that of the header -/
def Framed (header : Framing.Identity) (content : ByteArray) : Prop :=
  ∀ name, (∃ stop, Framing.checkFooter { name := name, data := content } = .ok stop) ∧
    (Framing.checkHeader header.codec Segment.leastVersion Segment.greatestVersion header.id header.suffix).eval
      { name := name, data := content } = .ok header.version

theorem framed_of_bytes {header : Framing.Identity} {content : ByteArray} {more : Bytes}
    (hcodec : Framing.isName header.codec = true) (hsuffix : Framing.isName header.suffix = true)
    (hversion : header.version = 0) (hcontent : Bytes.ofArray content =
      Framing.headerBytes header ++ more ++ Framing.footer (Framing.headerBytes header ++ more)) :
    Framed header content := by
  intro name
  refine ⟨⟨_, Framing.checkFooter_eq_ok_iff.2 ⟨_, hcontent, rfl⟩⟩, ?_⟩
  rw [List.append_assoc] at hcontent
  have hahead : Input.Ahead { name := name, data := content } (Framing.headerBytes header) :=
    Framing.ahead_headerBytes hcodec hsuffix hcontent
  exact Reading.eval_ok (Framing.takes_checkHeader Segment.leastVersion Segment.greatestVersion hcodec hsuffix
    (by rw [hversion]; decide) (by rw [hversion]; decide) _ hahead)

/-- what can come of a writer: nothing is seen of it, or its data file was published, or both files were -/
inductive Outcome (s : Segment) (naming : Naming) (d : Directory) : Directory → Except Error Unit → Prop where
  | nothing {d' : Directory} {e : Error} (untouched : d.Untouched d') : Outcome s naming d d' (.error e)
  | data {d' : Directory} {e : Error} {o : ByteArray} (framed : Framed (s.dataHeader naming) o)
      (gained : d.Gained (s.dataFile naming) o d') : Outcome s naming d d' (.error e)
  | both {between d' : Directory} {m o : ByteArray} (framedData : Framed (s.dataHeader naming) o)
      (framedMetadata : Framed (s.metadataHeader naming) m) (gainedData : d.Gained (s.dataFile naming) o between)
      (gainedMetadata : between.Gained (s.metadataFile naming) m d') (published : Published s naming d' m o) :
      Outcome s naming d d' (.ok ())

/-- publishing goes through in the order data file, metadata file, or stops between two of its steps -/
theorem Open.publish_outcome {metadata data : Bytes} (h : Open s naming d w metadata data) (hm : d.medium = .memory)
    (hn : naming.Valid) (hmetadata : ∀ m, Bytes.ofArray m = metadata → Framed (s.metadataHeader naming) m)
    (hdata : ∀ o, Bytes.ofArray o = data → Framed (s.dataHeader naming) o) :
    Outcome s naming d (w.publish d).1 (w.publish d).2 := by
  have hdataFramed := hdata _ h.dataWrote.accepted
  have hmetadataFramed := hmetadata _ h.metadataWrote.accepted
  rcases Output.finish_cases hm w.data with ⟨fault, hfinish⟩ | hfinish
  · have hpublish : w.publish d = (d, .error (.io fault)) := by
      rw [publish, hfinish]
      dsimp only
      rw [discard_memory hm]
    rw [hpublish]
    exact .nothing (Directory.Untouched.refl d)
  · rw [h.dataPath] at hfinish
    have hput := Directory.put_memory hm (s.dataFile naming) w.data.sink.accepted
    obtain ⟨-, hm'⟩ := Directory.put_spec h.tidy (s.dataFile naming) w.data.sink.accepted
    have hgained : d.Gained (s.dataFile naming) w.data.sink.accepted
        (d.put (s.dataFile naming) w.data.sink.accepted).1 := Directory.Untouched.refl _
    generalize d.put (s.dataFile naming) w.data.sink.accepted = stored at hfinish hput hm' hgained
    obtain ⟨e, result⟩ := stored
    obtain rfl : result = .ok () := congrArg Prod.snd hput
    rcases Output.finish_cases (hm'.trans hm) w.metadata with ⟨fault, hfinish'⟩ | hfinish'
    · have hpublish : w.publish d = (e, .error (.io fault)) := by
        rw [publish, hfinish]
        dsimp only
        rw [hfinish']
      rw [hpublish]
      exact .data hdataFramed hgained
    · rw [h.metadataPath, Directory.put_memory (hm'.trans hm)] at hfinish'
      have hpublish : w.publish d = ((e.put (s.metadataFile naming) w.metadata.sink.accepted).1, .ok ()) := by
        rw [publish, hfinish, Directory.put_memory (hm'.trans hm)]
        dsimp only
        rw [hfinish']
      obtain ⟨-, -, m, o, hpublished, hmBytes, hoBytes⟩ := publish_spec hn h hpublish
      obtain rfl : m = w.metadata.sink.accepted := Bytes.ofArray_inj (hmBytes.trans h.metadataWrote.accepted.symm)
      obtain rfl : o = w.data.sink.accepted := Bytes.ofArray_inj (hoBytes.trans h.dataWrote.accepted.symm)
      rw [hpublish]
      exact .both hdataFramed hmetadataFramed hgained (Directory.Untouched.refl _) hpublished

/-- a writer of which nothing is seen yet closes in one of the three ways -/
theorem Pending.close_outcome (h : Pending s naming d w) : Outcome s naming d (w.close d).1 (w.close d).2 := by
  unfold close
  split
  · rw [drop_memory h.memory]
    exact .nothing (Directory.Untouched.refl d)
  · next hfailed =>
    have hstill := complete_still h.memory w
    split
    · next e v hcomplete =>
      obtain ⟨metadata, data, hopen⟩ := h.bytes.resolve_left hfailed
      obtain ⟨-, hopen'⟩ := complete_spec hopen hcomplete
      rw [hcomplete] at hstill
      obtain rfl : e = d := hstill.directory
      rw [List.append_assoc _ metadata] at hopen'
      exact hopen'.publish_outcome h.memory h.valid
        (fun m hm => framed_of_bytes h.valid.metadataCodec h.suffix rfl hm)
        (fun o ho => framed_of_bytes h.valid.dataCodec h.suffix rfl ho)
    · next e v fault hcomplete =>
      rw [hcomplete] at hstill
      obtain rfl : e = d := hstill.directory
      rw [drop_memory h.memory]
      exact .nothing (Directory.Untouched.refl e)

theorem publish_memory (hm : d.medium = .memory) (w : SegmentWriter) :
    (w.publish d).1.medium = .memory ∧ (w.publish d).1.faults = d.faults := by
  unfold publish
  rcases Output.finish_cases hm w.data with ⟨fault, hfinish⟩ | hfinish
  · rw [hfinish]
    dsimp only
    rw [discard_memory hm]
    exact ⟨hm, rfl⟩
  · rw [Directory.put_memory hm] at hfinish
    have hm' : (d.store (Path.components w.data.sink.path) w.data.sink.path w.data.sink.accepted).medium = .memory :=
      Directory.store_medium.trans hm
    rw [hfinish]
    dsimp only
    rcases Output.finish_cases hm' w.metadata with ⟨fault, hfinish'⟩ | hfinish'
    · rw [hfinish']
      exact ⟨hm', Directory.store_faults⟩
    · rw [hfinish', Directory.put_memory hm']
      exact ⟨Directory.store_medium.trans hm', Directory.store_faults.trans Directory.store_faults⟩

theorem close_memory (hm : d.medium = .memory) (w : SegmentWriter) :
    (w.close d).1.medium = .memory ∧ (w.close d).1.faults = d.faults := by
  unfold close
  split
  · rw [drop_memory hm]
    exact ⟨hm, rfl⟩
  · have hsame := (complete_still hm w).directory
    generalize w.complete d = completed at hsame
    obtain ⟨e, v, result⟩ := completed
    obtain rfl : e = d := hsame
    cases result with
    | error fault =>
      dsimp only
      rw [drop_memory hm]
      exact ⟨hm, rfl⟩
    | ok _ => exact publish_memory hm v

/-- a writer that failed closes with the names of its files, and nothing is seen of it -/
theorem Pending.close_failed (h : Pending s naming d w) (hfailed : w.failed = true) :
    w.close d = (d, .error (.discarded (s.metadataFile naming) (s.dataFile naming))) := by
  rw [close, if_pos hfailed, drop_memory h.memory, h.metadata, h.data]

/-- a writer whose files could not be completed does not close, and nothing is seen of it -/
theorem Pending.close_incomplete (h : Pending s naming d w) {fault : IoError}
    (hcomplete : (w.complete d).2.2 = .error fault) : ∃ e, w.close d = (d, .error e) := by
  by_cases hfailed : w.failed = true
  · exact ⟨_, h.close_failed hfailed⟩
  · have hstill := complete_still h.memory w
    rw [close, if_neg hfailed]
    generalize w.complete d = completed at hcomplete hstill
    obtain ⟨e, v, result⟩ := completed
    obtain rfl : e = d := hstill.directory
    obtain rfl : result = .error fault := hcomplete
    exact ⟨.io fault, by dsimp only; rw [drop_memory h.memory]⟩

/-- opening the files is not part of the outcome -/
theorem Outcome.before {e : Directory} {result : Except Error Unit} (h : Outcome s naming e d' result)
    (hopened : d.Untouched e) (hm : d.medium = .memory) : Outcome s naming d d' result := by
  cases h with
  | nothing untouched => exact .nothing (hopened.trans untouched)
  | data framed gained => exact .data framed (hopened.gained hm gained)
  | both framedData framedMetadata gainedData gainedMetadata published =>
    exact .both framedData framedMetadata (hopened.gained hm gainedData) gainedMetadata published

/-- a metadata file that is seen to change was published by a writer that closed -/
theorem Outcome.ok_of_changed {result : Except Error Unit} (h : Outcome s naming d d' result) (hd : d.Tidy)
    (hm : d.medium = .memory) (hn : naming.Valid)
    (hchanged : d'.read (s.metadataFile naming) ≠ d.read (s.metadataFile naming)) : result = .ok () := by
  cases h with
  | nothing untouched => exact absurd (untouched.alike.read _) hchanged
  | data framed gained =>
    rw [Directory.Gained, Directory.put_memory hm] at gained
    rw [gained.alike.read, Directory.read_store_of_ne hd hm] at hchanged
    · exact absurd rfl hchanged
    · exact (place_ne hn (e := d) (by rw [Directory.Leads, hm]) (by rw [Directory.Leads, hm])).symm
  | both _ _ _ _ _ => rfl

/-- a writer that closed has published both files, and both pass the checks of a reader -/
theorem Outcome.published_of_ok (h : Outcome s naming d d' (.ok ())) : ∃ m o, Published s naming d' m o ∧
    Framed (s.metadataHeader naming) m ∧ Framed (s.dataHeader naming) o := by
  cases h with
  | both framedData framedMetadata gainedData gainedMetadata published =>
    exact ⟨_, _, published, framedMetadata, framedData⟩

/-! ## Whole runs -/

/-- **Publication is safe.** Take a directory in memory with any faults. A writer that cannot be created leaves nothing
behind. After any calls that add columns, dropping the writer leaves nothing behind either; closing it publishes nothing,
the data file alone or both files, and both if and only if it succeeds; the metadata file changes only together with the
data file, and what is published passes the checks of a reader. If a call was refused, closing answers so and publishes
nothing, whatever the later calls answered; nor is anything published if the end of a file could not be written. -/
theorem publication (hd : d.Reachable) (hm : d.medium = .memory) (s : Segment) (naming : Naming) :
    (∀ e, (create d s naming).2 = .error e → d.Untouched (create d s naming).1) ∧
      ∀ w, (create d s naming).2 = .ok w → ∀ additions,
        let run := w.addEach (create d s naming).1 additions
        let closed := run.2.1.close run.1
        d.Untouched (run.2.1.drop run.1) ∧ Outcome s naming d closed.1 closed.2 ∧
          (closed.1.read (s.metadataFile naming) ≠ d.read (s.metadataFile naming) → ∃ m o,
            Published s naming closed.1 m o ∧ Framed (s.metadataHeader naming) m ∧ Framed (s.dataHeader naming) o) ∧
          (closed.2 = .ok () → ∃ m o,
            Published s naming closed.1 m o ∧ Framed (s.metadataHeader naming) m ∧ Framed (s.dataHeader naming) o) ∧
          ((∃ e, .error e ∈ run.2.2) → d.Untouched closed.1 ∧
            closed.2 = .error (.discarded (s.metadataFile naming) (s.dataFile naming))) ∧
          ((∃ fault, (run.2.1.complete run.1).2.2 = .error fault) → d.Untouched closed.1 ∧
            ∃ e, closed.2 = .error e) := by
  have hopened := create_untouched hm s naming
  refine ⟨fun _ _ => hopened, ?_⟩
  intro w hcreate additions
  have hpending : Pending s naming (create d s naming).1 w := create_pending hd.tidy hm (Prod.ext rfl hcreate)
  obtain ⟨hsame, hrun, hrefused⟩ := hpending.addEach additions
  generalize w.addEach (create d s naming).1 additions = run at hsame hrun hrefused ⊢
  obtain ⟨e, v, answers⟩ := run
  obtain rfl : e = (create d s naming).1 := hsame
  dsimp only at hrun hrefused ⊢
  have houtcome := hrun.close_outcome.before hopened hm
  refine ⟨?_, houtcome, ?_, ?_, ?_, ?_⟩
  · rw [drop_memory hrun.memory]
    exact hopened
  · intro hchanged
    have hok := houtcome.ok_of_changed hd.tidy hm hrun.valid hchanged
    rw [hok] at houtcome
    exact houtcome.published_of_ok
  · intro hok
    rw [hok] at houtcome
    exact houtcome.published_of_ok
  · rintro ⟨e, he⟩
    rw [hrun.close_failed (hrefused (.inr ⟨e, he⟩))]
    exact ⟨hopened, rfl⟩
  · rintro ⟨fault, hfault⟩
    obtain ⟨e, hclose⟩ := hrun.close_incomplete hfault
    rw [hclose]
    exact ⟨hopened, e, rfl⟩

/-- a writer that was refused a column of no strings does not close, although it was given one string later -/
theorem publication_refused : ∃ (s : Segment) (w : SegmentWriter), (create {} s {}).2 = .ok w ∧
    let run := w.addEach (create {} s {}).1 [.column 0 "n" (.bytes []), .column 0 "n" (.bytes [some [5]])]
    Directory.Untouched {} (run.2.1.close run.1).1 ∧
      (run.2.1.close run.1).2 = .error (.discarded (s.metadataFile {}) (s.dataFile {})) := by
  set s : Segment := ⟨⟨7⟩, 1, "a"⟩ with hs
  have hm : Directory.medium {} = .memory := rfl
  obtain ⟨d, w, hcreate, hready⟩ : ∃ d w, create {} s {} = (d, .ok w) ∧ Ready d w :=
    create_memory hm rfl rfl (by rw [hs]; rfl)
  obtain ⟨-, -, -, hopen⟩ := create_spec Directory.reachable_empty.tidy hcreate
  have hrefused : (w.add d 0 "n" (.bytes [])).2.2 = .error (.invalidArgument (.valueCount "n" 0 1)) := by
    obtain ⟨m, o, documents, failed⟩ := w
    obtain rfl : documents = 1 := hopen.documents
    obtain ⟨m', o', hcarry, -⟩ := carryOut_memory hready.memory hready.metadata hready.data
      (planBytes 0 "n" 1 o.position []).writes
    have houtcome : (planBytes 0 "n" 1 o.position []).outcome = .error (.invalidArgument (.valueCount "n" 0 1)) := rfl
    simp only [add, follow, Values.plan, hcarry, houtcome]
  have hw : (create {} s {}).2 = .ok w := congrArg Prod.snd hcreate
  have hanswer : .error (.invalidArgument (.valueCount "n" 0 1)) ∈ (w.addEach (create {} s {}).1
      [.column 0 "n" (.bytes []), .column 0 "n" (.bytes [some [5]])]).2.2 := by
    rw [hcreate, answers_cons]
    exact List.mem_cons.2 (.inl hrefused.symm)
  obtain ⟨-, -, -, -, hclosed, -⟩ := (publication Directory.reachable_empty hm s {}).2 w hw
    [.column 0 "n" (.bytes []), .column 0 "n" (.bytes [some [5]])]
  exact ⟨s, w, hw, hclosed ⟨_, hanswer⟩⟩

end SegmentWriter

end ColumnStore
