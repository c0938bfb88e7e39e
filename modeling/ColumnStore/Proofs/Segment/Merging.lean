/-
Merging segments.

A segment is given to a merge with all that it came out of (`MergeSegment`): the columns that were written, the reader that
they were opened with, and the source that was loaded. So its source answers just the integers that were written
(`MergeSegment.answers`), what is merged is the live ones of all segments (`merge_segments`), and they come back out of the
merged segment as they went in. An input that asks a source for more than it can answer is refused at the first live
document without an answer. Main results:

- `segments_merged`: what a merge writes, and what it refuses;
- `SegmentWriter.addMerged_part`: to ask for less once a live document has no answer changes nothing of what is written
  and told.
-/
import ColumnStore.Proofs.Column.Merge
import ColumnStore.Proofs.Segment.Reports

namespace ColumnStore

open Storage Column

/-! ## A column of integers among others -/

/-- other columns of a segment, before and after a column of integers, leave its number free and room for it: only they can
reach the limit of offsets -/
structure Among (s : Segment) (schema : Schema) (before : List Full) (field : FieldNumber) (after : List Full) : Prop where
  label : ∃ label, schema.field? field = some ⟨label, .int⟩
  others : ∀ c ∈ before ++ after, c.Suits s schema
  nodup : (before.map Full.field ++ field :: after.map Full.field).Nodup
  room : ((before ++ after).map fun c => (c.payload s.documents).length).sum < 2 ^ 62

namespace Among

variable {d : Directory} {s : Segment} {naming : Naming} {schema : Schema} {before after : List Full} {field : FieldNumber}
  {vs : List Int64}

/-- a column may stand alone -/
theorem alone (s : Segment) {label : String} (h : schema.field? field = some ⟨label, .int⟩) :
    Among s schema [] field [] := ⟨⟨label, h⟩, by simp, by simp, by simp⟩

theorem suits (h : Among s schema before field after) (name : String) (hlength : vs.length = s.documents.toNat) :
    ∀ c ∈ before ++ ⟨field, name, .numbers .int vs⟩ :: after, c.Suits s schema := by
  intro c hc
  rcases List.mem_append.1 hc with hbefore | hrest
  · exact h.others c (List.mem_append_left _ hbefore)
  · rcases List.mem_cons.1 hrest with rfl | hafter
    · exact ⟨hlength, h.label⟩
    · exact h.others c (List.mem_append_right _ hafter)

theorem fit (h : Among s schema before field after) (name : String) (hn : naming.Valid)
    (hsuffix : Framing.isName s.suffix = true) (hlength : vs.length = s.documents.toNat) :
    s.start naming + ((before ++ ⟨field, name, .numbers .int vs⟩ :: after).map fun c =>
      (c.payload s.documents).length).sum < 2 ^ 63 := by
  have hsmall : vs.length < 2 ^ 32 := hlength ▸ s.documents.toNat_lt
  have hstart : s.start naming ≤ 300 := Framing.length_headerBytes_le hn.dataCodec hsuffix
  have hpayload : ((⟨field, name, .numbers .int vs⟩ : Full).payload s.documents).length ≤ 2100 + 64 * vs.length :=
    length_data_le field name (some s.documents) 0 vs hsmall (if_pos hlength)
  have hroom := h.room
  simp only [List.map_append, List.sum_append, List.map_cons, List.sum_cons] at hroom ⊢
  omega

/-- without faults integers are written among other columns, and loaded again they are answered -/
theorem exists_over (h : Among s schema before field after) (name : String) (hd : d.Tidy) (hf : d.faults = {})
    (hnaming : naming.validate = .ok ()) (hsuffix : Framing.isName s.suffix = true)
    (hcreate : d.medium = .disk → ∃ d₁ w, SegmentWriter.create d s naming = (d₁, .ok w))
    (hfields : schema.fields.length < 2 ^ 32 - 1) (hlength : vs.length = s.documents.toNat) :
    ∃ (r : SegmentReader) (source : Source),
      r.Over d s naming schema (before ++ ⟨field, name, .numbers .int vs⟩ :: after) ∧ r.load field = .ok source ∧
        ∀ document, source.int document = if h : document.toNat < vs.length then .ok vs[document.toNat]
          else .error (.documentNotFound document) := by
  have hnodup : ((before ++ ⟨field, name, .numbers .int vs⟩ :: after).map Full.field).Nodup := by
    rw [List.map_append, List.map_cons]
    exact h.nodup
  obtain ⟨r, hover, hfinds⟩ := exists_over_finds hd hf hnaming hsuffix hcreate hfields (h.suits name hlength) hnodup
    (h.fit name (Naming.valid_of_validate hnaming) hsuffix hlength)
  obtain ⟨content, -, hfound⟩ := hfinds _ (List.mem_append_right before List.mem_cons_self)
  exact ⟨r, content.source, hover, hfound.load, hfound.answers⟩

end Among

/-! ## Segments to be merged -/

/-- a segment of which a column of integers is merged: how it was written, opened and loaded, and which of its documents
are live -/
structure MergeSegment where
  directory : Directory
  segment : Segment
  naming : Naming
  schema : Schema
  columns : List Full
  field : FieldNumber
  name : String
  values : List Int64
  reader : SegmentReader
  source : Source
  live : Option (List Bool) := none
  reachable : directory.Reachable
  fields : schema.fields.length < 2 ^ 32 - 1
  suits : ∀ c ∈ columns, c.Suits segment schema
  nodup : (columns.map Full.field).Nodup
  fit : segment.start naming + (columns.map fun c => (c.payload segment.documents).length).sum < 2 ^ 63
  member : ⟨field, name, .numbers .int values⟩ ∈ columns
  written : reader.Over directory segment naming schema columns
  loaded : reader.load field = .ok source

namespace MergeSegment

/-- the source as it is merged, over all its documents -/
def input (m : MergeSegment) : MergeInput := ⟨m.source, m.source.documents, m.live⟩

def liveValues (m : MergeSegment) : List Int64 := Column.liveValues m.values m.live

theorem length_values (m : MergeSegment) : m.values.length = m.segment.documents.toNat := (m.suits _ m.member).length

/-- the source covers the documents of its segment, and answers for each the value that was written -/
theorem answers (m : MergeSegment) : m.source.documents = m.segment.documents ∧ ∀ document, m.source.int document =
    if h : document.toNat < m.values.length then .ok m.values[document.toNat] else .error (.documentNotFound document) := by
  obtain ⟨content, hkeeps, hfound⟩ := m.written.finds m.reachable.tidy m.fields m.suits m.nodup m.fit _ m.member
  have hsource := Except.ok.inj (hfound.load.symm.trans m.loaded)
  obtain ⟨entry, reader, -, hreader, -⟩ := hkeeps .int m.values rfl
  have hanswers := hfound.answers
  rw [hsource] at hreader hanswers
  exact ⟨by rw [hreader]; rfl, hanswers⟩

theorem slots_answers (m : MergeSegment) :
    m.input.slots.map (fun p => (p.1.int p.2).toOption) = m.liveValues.map some := by
  obtain ⟨hdocuments, hint⟩ := m.answers
  have hlength := m.length_values
  have hinside : ∀ i ∈ liveDocuments m.values.length m.live, i < m.values.length := by
    intro i hi
    exact List.mem_range.1 (List.mem_of_mem_filter hi)
  have hlive : m.liveValues.map some = (liveDocuments m.values.length m.live).map (m.values[·]?) := by
    rw [liveValues, Column.liveValues, List.map_filterMap_some_eq_filter_map_isSome, List.filter_eq_self]
    intro v hv
    obtain ⟨i, hi, rfl⟩ := List.mem_map.1 hv
    rw [List.getElem?_eq_getElem (hinside i hi)]
    rfl
  rw [hlive, MergeInput.slots, input, hdocuments, ← hlength, List.map_map]
  refine List.map_congr_left fun i hi => ?_
  have hi := hinside i hi
  have hword : (UInt32.ofNat i).toNat = i := UInt32.toNat_ofNat_of_lt' (lt_trans hi (hlength ▸ m.segment.documents.toNat_lt))
  have hanswer := hint (UInt32.ofNat i)
  simp only [hword, hi, dite_true] at hanswer
  rw [Function.comp_apply, hanswer, List.getElem?_eq_getElem hi]
  rfl

theorem length_liveValues_le (m : MergeSegment) : m.liveValues.length ≤ m.values.length := by
  refine le_trans (List.length_filterMap_le _ _) (le_trans (List.length_filter_le _ _) ?_)
  rw [List.length_range]

/-- every sequence of integers is that of a segment to be merged -/
theorem exists_values (vs : List Int64) (live : Option (List Bool)) (hlen : vs.length < 2 ^ 32) :
    ∃ m : MergeSegment, m.values = vs ∧ m.live = live := by
  have hnaming : Naming.validate {} = .ok () := by rfl
  have hsuffix : Framing.isName "a" = true := by rfl
  have hlength : vs.length = (UInt32.ofNat vs.length).toNat := (UInt32.toNat_ofNat_of_lt' hlen).symm
  have halone : Among ⟨⟨7⟩, UInt32.ofNat vs.length, "a"⟩ ⟨[⟨"n", .int⟩]⟩ [] 0 [] := .alone _ (by rfl)
  obtain ⟨r, source, hover, hload, -⟩ := halone.exists_over "n" Directory.reachable_empty.tidy rfl hnaming hsuffix
    (by simp) (by decide) hlength
  exact ⟨
    { directory := {}, segment := ⟨⟨7⟩, UInt32.ofNat vs.length, "a"⟩, naming := {}, schema := ⟨[⟨"n", .int⟩]⟩,
      columns := [⟨0, "n", .numbers .int vs⟩], field := 0, name := "n", values := vs, reader := r, source, live,
      reachable := Directory.reachable_empty, fields := by decide, suits := halone.suits "n" hlength, nodup := by simp,
      fit := halone.fit "n" (Naming.valid_of_validate hnaming) hsuffix hlength, member := List.mem_singleton_self _,
      written := hover, loaded := hload }, rfl, rfl⟩

end MergeSegment

def mergedValues (segments : List MergeSegment) : List Int64 := segments.flatMap MergeSegment.liveValues

theorem length_mergedValues_le (segments : List MergeSegment) :
    (mergedValues segments).length ≤ (segments.map fun m => m.values.length).sum := by
  rw [mergedValues, List.length_flatMap]
  exact List.sum_le_sum fun m _ => m.length_liveValues_le

theorem merge_segments (segments : List MergeSegment) :
    merge (segments.map fun m => m.input.whole) = (mergedValues segments).map some := by
  have hparts := merge_whole (segments.map MergeSegment.input)
  rw [List.map_map, slots, List.flatMap_map, List.map_flatMap] at hparts
  refine hparts.trans ?_
  rw [mergedValues, List.map_flatMap]
  congr 1
  funext m
  exact m.slots_answers

/-! ## Runs -/

/-- a reader of the segment that a writer makes of columns, of which the one in the middle is merged of parts -/
def SegmentReader.OverMerged (r : SegmentReader) (d : Directory) (s : Segment) (naming : Naming) (schema : Schema)
    (before : List Full) (field : FieldNumber) (name : String) (parts : List MergePart) (after : List Full) : Prop :=
  ∃ d₁ w d₂ w₂ layout d₃ w₃ d₄ w₄ d₅, SegmentWriter.create d s naming = (d₁, .ok w) ∧
    SegmentBuilder.addAll d₁ w (before.map Full.added) = (d₂, w₂, .ok ()) ∧
    w₂.addMerged d₂ field name parts = (d₃, w₃, .ok layout) ∧
    SegmentBuilder.addAll d₃ w₃ (after.map Full.added) = (d₄, w₄, .ok ()) ∧ w₄.close d₄ = (d₅, .ok ()) ∧
    ofDirectory d₅ schema s naming = .ok r

/-- a column is written of parts just as it is of the values that are merged of them -/
theorem SegmentReader.OverAnswered.merged {r : SegmentReader} {d : Directory} {s : Segment} {naming : Naming}
    {schema : Schema} {before after : List Full} {field : FieldNumber} {name : String} {vs : List Int64} {layout : Layout}
    {parts : List MergePart} (hmerge : merge parts = vs.map some)
    (h : r.OverAnswered d s naming schema before ⟨field, name, .numbers .int vs⟩ layout after) :
    r.OverMerged d s naming schema before field name parts after := by
  obtain ⟨d₁, w, d₂, w₂, d₃, w₃, d₄, w₄, d₅, hcreate, hbefore, hadd, hrest⟩ := h
  refine ⟨d₁, w, d₂, w₂, layout, d₃, w₃, d₄, w₄, d₅, hcreate, hbefore, ?_, hrest⟩
  rw [SegmentWriter.addMerged, hmerge]
  exact hadd

namespace SegmentWriter

/-- **What is not asked for is not missed**: the part of its inputs that is asked for is written just as all of them. -/
theorem addMerged_part (d : Directory) (w : SegmentWriter) (field : FieldNumber) (name : String)
    (inputs : List MergeInput) :
    w.addMerged d field name (inputs.map MergeInput.part) = w.addMerged d field name (inputs.map MergeInput.whole) := by
  rw [addMerged, addMerged, add, add, Values.plan, Values.plan, (merge_parts inputs).planNumbers_eq]

/-- a merge is refused at the first live document that cannot be answered -/
theorem addMerged_refused (d : Directory) {w : SegmentWriter} (h : w.Faultless) (field : FieldNumber) (name : String)
    {inputs : List MergeInput} {i : Nat} (hfirst : (slots inputs).findIdx? (fun p => !(p.1.int p.2).isOk) = some i) :
    (w.addMerged d field name (inputs.map MergeInput.whole)).2.2 = .error (.nullValue name i) := by
  have hanswer := (add_answer d h field name (.ints (merge (inputs.map MergeInput.whole)))).1
  rw [← findIdx?_merge_whole] at hfirst
  rw [addMerged, hanswer, Values.plan, planNumbers_error (Stats.collect_null name hfirst)]
  rfl

end SegmentWriter

/-- **Merged segments.** Take a directory without faults, on disk one in which the files of the segment can be opened.
Segments are merged whose columns of integers were written before, with masks of any length. They have as many entries
together as there are live documents, and merged into a segment with that many documents, among any other columns, they
are its values, segment after segment: it opens, and the loaded column answers just them. But if a document is asked for
that is live and that its source cannot answer, the merge is refused, whatever the writer was given before, and what is
told is the place of the first such document among all that are live. No source answers past its documents, and none but
one of integers answers at all. -/
theorem segments_merged (d : Directory) (s : Segment) (naming : Naming) (schema : Schema) (hd : d.Reachable)
    (hf : d.faults = {}) (hnaming : naming.validate = .ok ()) (hsuffix : Framing.isName s.suffix = true)
    (hcreate : d.medium = .disk → ∃ d₁ w, SegmentWriter.create d s naming = (d₁, .ok w))
    (hfields : schema.fields.length < 2 ^ 32 - 1) :
    (∀ segments : List MergeSegment, (segments.map fun m => m.values.length).sum < 2 ^ 32 →
      let parts := segments.map fun m => m.input.whole
      let merged := mergedValues segments
      mergedCount parts = merged.length ∧
        ∀ (before after : List Full) (field : FieldNumber) (name : String),
          s.documents = UInt32.ofNat (mergedCount parts) → Among s schema before field after →
          ∃ (r : SegmentReader) (source : Source), r.OverMerged d s naming schema before field name parts after ∧
            r.load field = .ok source ∧ ∀ document, source.int document =
              if h : document.toNat < merged.length then .ok merged[document.toNat]
              else .error (.documentNotFound document)) ∧
    (∀ inputs : List MergeInput, ∀ m ∈ inputs, ∀ document < m.documents, isLive m.live document.toNat = true →
      (m.source.int document).isOk = false →
      ∃ i, (slots inputs).findIdx? (fun p => !(p.1.int p.2).isOk) = some i ∧
        ∀ d₁ w, SegmentWriter.create d s naming = (d₁, .ok w) →
          ∀ (calls : List SegmentWriter.Addition) (field : FieldNumber) (name : String),
            let ran := w.addEach d₁ calls
            (ran.2.1.addMerged ran.1 field name (inputs.map MergeInput.whole)).2.2 = .error (.nullValue name i)) ∧
    ∀ (source : Source) (document : UInt32), source.documents ≤ document ∨ ¬ source.Ints →
      (source.int document).isOk = false := by
  refine ⟨?_, ?_, fun source document => source.int_unanswered⟩
  · intro segments hfew parts merged
    have hmerge : merge parts = merged.map some := merge_segments segments
    have hcount : mergedCount parts = merged.length := by rw [mergedCount_eq, hmerge, List.length_map]
    refine ⟨hcount, ?_⟩
    intro before after field name hdocuments hamong
    have hsmall : merged.length < 2 ^ 32 := lt_of_le_of_lt (length_mergedValues_le segments) hfew
    have hlength : merged.length = s.documents.toNat := by rw [hdocuments, hcount, UInt32.toNat_ofNat_of_lt' hsmall]
    obtain ⟨r, source, hover, hload, hint⟩ := hamong.exists_over name hd.tidy hf hnaming hsuffix hcreate hfields hlength
    exact ⟨r, source, (hover.answered hd.tidy hlength).merged hmerge, hload, hint⟩
  · intro inputs m hm document hdocument hlive hunanswered
    have hslot := mem_slots hm hdocument hlive
    obtain ⟨i, hfirst⟩ : ∃ i, (slots inputs).findIdx? (fun p => !(p.1.int p.2).isOk) = some i := by
      rw [← Option.isSome_iff_exists, List.findIdx?_isSome, List.any_eq_true]
      exact ⟨_, hslot, by simp [hunanswered]⟩
    refine ⟨i, hfirst, ?_⟩
    intro d₁ w hcreated calls field name
    have hfaultless := SegmentWriter.create_faultless hd.tidy hf hcreated
    exact SegmentWriter.addMerged_refused _ (hfaultless.addEach calls).1 field name hfirst

/-- five documents of two segments, of which one is dead; asked for a third document, the second segment has no answer -/
theorem segments_merged_two :
    let s : Segment := ⟨⟨8⟩, 4, "m"⟩
    ∃ a b : MergeSegment, a.values = [5, 7, 9] ∧ a.live = some [true, false] ∧ b.values = [0, -1] ∧ b.live = none ∧
      (∃ (r : SegmentReader) (source : Source),
        r.OverMerged {} s {} ⟨[⟨"n", .int⟩]⟩ [] 0 "n" [a.input.whole, b.input.whole] [] ∧ r.load 0 = .ok source ∧
          source.int 1 = .ok 9 ∧ source.int 3 = .ok (-1)) ∧
      ∃ d w, SegmentWriter.create {} s {} = (d, .ok w) ∧
        (w.addMerged d 0 "n" [a.input.whole, (⟨b.source, 3, none⟩ : MergeInput).whole]).2.2 =
          .error (.nullValue "n" 4) := by
  intro s
  obtain ⟨a, havalues, halive⟩ := MergeSegment.exists_values [5, 7, 9] (some [true, false]) (by decide)
  obtain ⟨b, hbvalues, hblive⟩ := MergeSegment.exists_values [0, -1] none (by decide)
  have hsuffix : Framing.isName "m" = true := by rfl
  obtain ⟨hmerged, hrefused, hunanswered⟩ := segments_merged {} s {} ⟨[⟨"n", .int⟩]⟩ Directory.reachable_empty rfl rfl
    hsuffix (by simp) (by decide)
  have hvalues : mergedValues [a, b] = [5, 9, 0, -1] := by
    simp only [mergedValues, List.flatMap_cons, List.flatMap_nil, MergeSegment.liveValues, havalues, halive, hbvalues,
      hblive]
    decide
  refine ⟨a, b, havalues, halive, hbvalues, hblive, ?_, ?_⟩
  · obtain ⟨hcount, hsegment⟩ := hmerged [a, b] (by simp [havalues, hbvalues])
    rw [hvalues] at hcount hsegment
    obtain ⟨r, source, hover, hload, hint⟩ := hsegment [] [] 0 "n" (by rw [hcount]; rfl) (.alone _ (by rfl))
    exact ⟨r, source, hover, hload, hint 1, hint 3⟩
  · obtain ⟨hadocuments, haint⟩ := a.answers
    obtain ⟨hbdocuments, hbint⟩ := b.answers
    rw [havalues] at haint
    rw [hbvalues] at hbint
    have hthree : a.source.documents.toNat = 3 := by
      rw [hadocuments, ← a.length_values, havalues]
      rfl
    have htwo : b.source.documents = 2 := by
      rw [← UInt32.toNat_inj, hbdocuments, ← b.length_values, hbvalues]
      rfl
    have hcovered : (2 : UInt32) < 3 := by decide
    have hnone := hunanswered b.source 2 (.inl (by rw [htwo]; exact UInt32.le_refl 2))
    obtain ⟨i, hfirst, hfails⟩ := hrefused [a.input, ⟨b.source, 3, none⟩] ⟨b.source, 3, none⟩ (by simp) 2 hcovered rfl
      hnone
    have hslots : slots [a.input, ⟨b.source, 3, none⟩] =
        [(a.source, 0), (a.source, 2), (b.source, 0), (b.source, 1), (b.source, 2)] := by
      simp only [slots, List.flatMap_cons, List.flatMap_nil, MergeInput.slots, MergeSegment.input, hthree, halive]
      rfl
    have hzero : a.source.int 0 = .ok 5 := haint 0
    have hlast : a.source.int 2 = .ok 9 := haint 2
    have hzero' : b.source.int 0 = .ok 0 := hbint 0
    have hone' : b.source.int 1 = .ok (-1) := hbint 1
    rw [hslots] at hfirst
    simp only [List.findIdx?_cons, hzero, hlast, hzero', hone', hnone] at hfirst
    obtain rfl : 4 = i := Option.some.inj hfirst
    have hnaming : Naming.validate {} = .ok () := by rfl
    obtain ⟨d, w, hcreate, -⟩ := SegmentWriter.create_memory (d := {}) (s := s) rfl rfl hnaming hsuffix
    exact ⟨d, w, hcreate, hfails d w hcreate [] 0 "n"⟩

end ColumnStore
