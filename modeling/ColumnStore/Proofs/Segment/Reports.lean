/-
What a segment reports of its columns.

A reader tells for a column of numbers its layout, the number of values stored, and the layout of the values that are
nested in a sparse column. `SegmentReader.Reports` says what each of these has to be, by the values that were written and
by the layout that the writer answered. No value that is nested is missing, so what is nested is never sparse itself
(`layoutRule_presentValues`), and entries nest one level deep, or two below a dictionary. Main result: `numbers_reported`.
-/
import ColumnStore.Proofs.Segment.Answers
import ColumnStore.Proofs.Segment.Columns
import ColumnStore.Proofs.Segment.Sorted

namespace ColumnStore

open Storage Column

namespace Column

/-! ## Nesting -/

/-- levels of entries below the entry of a column -/
def Entry.nesting : Entry → Nat
  | .numbers entry => entry.depth - 1
  | .bytes .. => 0
  | .sorted _ _ ordinals => ordinals.depth

@[simp] theorem NumberEntry.depth_form (entry : NumberEntry) : entry.form.depth = entry.depth := by
  induction entry with
  | indirect count offset values ih => rw [form, depth, depth, ih]
  | const value => rfl
  | uncompressed count offset => rfl
  | table count offset => rfl
  | delta count offset => rfl

@[simp] theorem Entry.nesting_form (entry : Entry) : entry.form.nesting = entry.nesting := by
  cases entry <;> simp [form, nesting]

/-- no present value is missing, so they are never stored by their present values again -/
theorem layoutRule_presentValues (vs : List Int64) : layoutRule (presentValues vs) ≠ .indirect := by
  have hzero : (presentValues vs).count 0 = 0 := by
    rw [List.count_eq_zero]
    simp [presentValues, missing]
  unfold layoutRule
  rw [hzero, if_neg (by omega : ¬ (256 < (presentValues vs).length ∧ _))]
  split_ifs <;> decide

/-! ## What is stored -/

/-- how many of the values a layout stores, where it counts them -/
def storedCount? (vs : List Int64) : Layout → Option Nat
  | .const => none
  | .indirect => some (presentValues vs).length
  | _ => some vs.length

section

variable {plan : Plan} {field : FieldNumber} {offset : Nat} {vs : List Int64} {entry : NumberEntry}
  {reader : NumberReader}

theorem Stores.storedCount (h : Stores plan field offset vs entry reader) :
    entry.count?.map UInt32.toNat = storedCount? vs entry.layout := by
  cases entry with
  | const value => rfl
  | uncompressed count place => exact congrArg some (h.count (by simp [NumberEntry.layout]) count rfl)
  | table count place => exact congrArg some (h.count (by simp [NumberEntry.layout]) count rfl)
  | delta count place => exact congrArg some (h.count (by simp [NumberEntry.layout]) count rfl)
  | indirect count place values => exact congrArg some (h.present rfl count rfl)

/-- an entry has another one nested in it just if its layout is that of a sparse column -/
theorem Stores.nestedLayout (h : Stores plan field offset vs entry reader) :
    (Entry.numbers entry).nestedLayout? =
      if entry.layout = .indirect then some (layoutRule (presentValues vs)) else none := by
  cases entry with
  | const value => rfl
  | uncompressed count place => rfl
  | table count place => rfl
  | delta count place => rfl
  | indirect count place values => exact congrArg some (h.nested count place values rfl)

end

end Column

/-! ## What is reported -/

/-- what a reader tells of a column of numbers, against its values and the layout that was answered when it was added -/
structure SegmentReader.Reports (r : SegmentReader) (field : FieldNumber) (name : String) (vs : List Int64)
    (layout : Layout) : Prop where
  answered : (r.entry? field).map Entry.layout = some layout
  chosen : ∃ stats, Stats.collect name (vs.map some) = .ok stats ∧ stats.layout = layout
  stored : ((r.entry? field).bind Entry.count?).map UInt32.toNat = storedCount? vs layout
  loaded : ∃ source, r.load field = .ok source ∧ UInt32.toNat <$> source.count =
    match storedCount? vs layout with
    | some count => .ok count
    | none => .error (.unsupported .countOfConst)
  flat : layout ≠ .indirect → (r.entry? field).bind Entry.nestedLayout? = none
  nested : layout = .indirect → ∃ stats, Stats.collect name ((presentValues vs).map some) = .ok stats ∧
    (r.entry? field).bind Entry.nestedLayout? = some stats.layout ∧ stats.layout ≠ .indirect
  nesting : ∃ entry, r.entry? field = some entry ∧ entry.nesting ≤ 1

/-- a reader that finds what is kept of a column of numbers reports it -/
theorem SegmentReader.Finds.reports {r : SegmentReader} {documents : UInt32} {field : FieldNumber} {name : String}
    {kind : NumberKind} {vs : List Int64} {content : Content} (h : r.Finds ⟨field, name, .numbers kind vs⟩ content)
    (hkeeps : content.Keeps documents ⟨field, name, .numbers kind vs⟩) (hlength : vs.length = documents.toNat) :
    r.Reports field name vs (layoutRule vs) := by
  have hlen : vs.length < 2 ^ 32 := hlength ▸ documents.toNat_lt
  have hpresent : (presentValues vs).length < 2 ^ 32 := lt_of_le_of_lt (List.length_filter_le _ _) hlen
  obtain ⟨entry, reader, hform, hsource, hstores⟩ := hkeeps kind vs rfl
  obtain ⟨⟨found, hfound, hsame⟩, hload, -⟩ := h
  rw [hform] at hsame
  have hfound : r.entry? field = some found := hfound
  -- the entry that is found differs from the one that is stored in its offsets only
  have hlayout : found.layout = entry.layout := by rw [← Entry.layout_form, hsame, Entry.layout, NumberEntry.layout_form]
  have hcount : found.count? = entry.count? := by rw [← Entry.count?_form, hsame, Entry.count?, NumberEntry.count?_form]
  have hnested : found.nestedLayout? = (Entry.numbers entry).nestedLayout? := by
    rw [← Entry.nestedLayout?_form, hsame, ← Entry.nestedLayout?_form (.numbers entry)]
    rfl
  have hnesting : found.nesting = entry.depth - 1 := by
    rw [← Entry.nesting_form, hsame, Entry.nesting, NumberEntry.depth_form]
  have hrule : entry.layout = layoutRule vs :=
    Except.ok.inj (hstores.outcome.symm.trans (outcome_planNumbers field name (some documents) 0 vs hlen (if_pos hlength)))
  have hstored := hstores.storedCount
  have hdeep := hstores.nestedLayout
  rw [hrule] at hstored hdeep
  refine ⟨?_, ?_, ?_, ?_, ?_, ?_, ?_⟩
  · rw [hfound, Option.map_some, hlayout, hrule]
  · obtain ⟨stats, hscan, -, hstats⟩ := Stats.collect_exact name vs hlen
    exact ⟨stats, hscan, hstats⟩
  · rw [hfound, Option.bind_some, hcount, hstored]
  · refine ⟨content.source, hload, ?_⟩
    rw [← hstored, hsource, Source.count, hstores.counted]
    cases entry.count? <;> rfl
  · intro hflat
    rw [hfound, Option.bind_some, hnested, hdeep, if_neg hflat]
  · intro hindirect
    obtain ⟨stats, hscan, -, hstats⟩ := Stats.collect_exact name (presentValues vs) hpresent
    refine ⟨stats, hscan, ?_, ?_⟩
    · rw [hfound, Option.bind_some, hnested, hdeep, if_pos hindirect, hstats]
    · rw [hstats]
      exact layoutRule_presentValues vs
  · refine ⟨found, hfound, ?_⟩
    have hdepth := hstores.depth_le
    omega

/-! ## Runs -/

/-- a reader of the segment that a writer makes of columns, where the writer answered a layout for the one in the middle -/
def SegmentReader.OverAnswered (r : SegmentReader) (d : Directory) (s : Segment) (naming : Naming) (schema : Schema)
    (before : List Full) (c : Full) (layout : Layout) (after : List Full) : Prop :=
  ∃ d₁ w d₂ w₂ d₃ w₃ d₄ w₄ d₅, SegmentWriter.create d s naming = (d₁, .ok w) ∧
    SegmentBuilder.addAll d₁ w (before.map Full.added) = (d₂, w₂, .ok ()) ∧
    w₂.add d₂ c.field c.name c.series.values = (d₃, w₃, .ok layout) ∧
    SegmentBuilder.addAll d₃ w₃ (after.map Full.added) = (d₄, w₄, .ok ()) ∧ w₄.close d₄ = (d₅, .ok ()) ∧
    ofDirectory d₅ schema s naming = .ok r

namespace SegmentWriter

variable {d d' : Directory} {w w' : SegmentWriter}

/-- columns that were all added are some columns, one more, and the rest -/
theorem addAll_split {before after : List (FieldNumber × String × Values)} {c : FieldNumber × String × Values}
    (h : SegmentBuilder.addAll d w (before ++ c :: after) = (d', w', .ok ())) :
    ∃ d₁ w₁ layout d₂ w₂, SegmentBuilder.addAll d w before = (d₁, w₁, .ok ()) ∧ w₁.documents = w.documents ∧
      w₁.add d₁ c.1 c.2.1 c.2.2 = (d₂, w₂, .ok layout) ∧ SegmentBuilder.addAll d₂ w₂ after = (d', w', .ok ()) := by
  induction before generalizing d w with
  | nil =>
    obtain ⟨field, name, values⟩ := c
    rw [List.nil_append, SegmentBuilder.addAll] at h
    split at h
    · next hadd => exact ⟨d, w, _, _, _, rfl, rfl, hadd, h⟩
    · simp at h
  | cons first before ih =>
    obtain ⟨field, name, values⟩ := first
    rw [List.cons_append, SegmentBuilder.addAll] at h
    split at h
    · next hadd =>
      obtain ⟨d₁, w₁, layout, d₂, w₂, hbefore, hdocuments, hrest⟩ := ih h
      refine ⟨d₁, w₁, layout, d₂, w₂, ?_, hdocuments.trans (outcome_of_add hadd).2.1, hrest⟩
      rw [SegmentBuilder.addAll, hadd]
      exact hbefore
    · simp at h

end SegmentWriter

/-- what a writer answers for a column of numbers is the layout of the rule -/
theorem SegmentReader.Over.answered {r : SegmentReader} {d : Directory} {s : Segment} {naming : Naming} {schema : Schema}
    {before after : List Full} {field : FieldNumber} {name : String} {kind : NumberKind} {vs : List Int64}
    (hd : d.Tidy) (hlength : vs.length = s.documents.toNat)
    (h : r.Over d s naming schema (before ++ ⟨field, name, .numbers kind vs⟩ :: after)) :
    r.OverAnswered d s naming schema before ⟨field, name, .numbers kind vs⟩ (layoutRule vs) after := by
  obtain ⟨d₁, w, d₄, w₄, d₅, hcreate, hadd, hclose, hopen⟩ := h
  obtain ⟨-, -, -, hbytes⟩ := SegmentWriter.create_spec hd hcreate
  rw [List.map_append, List.map_cons] at hadd
  obtain ⟨d₂, w₂, layout, d₃, w₃, hbefore, hdocuments, hmiddle, hafter⟩ := SegmentWriter.addAll_split hadd
  have houtcome := (SegmentWriter.outcome_of_add hmiddle).1
  have hplan : (Full.added ⟨field, name, .numbers kind vs⟩).2.2.plan field name w₂.documents w₂.data.position =
      planNumbers field name (some w₂.documents) w₂.data.position (vs.map some) := by
    cases kind <;> rfl
  have hrule := outcome_planNumbers field name (some w₂.documents) w₂.data.position vs
    (hlength ▸ s.documents.toNat_lt) (if_pos (by rw [hlength, hdocuments, hbytes.documents]))
  obtain rfl : layout = layoutRule vs := Except.ok.inj (houtcome.symm.trans (hplan ▸ hrule))
  exact ⟨d₁, w, d₂, w₂, d₃, w₃, d₄, w₄, d₅, hcreate, hbefore, hmiddle, hafter, hclose, hopen⟩

/-- an entry that is written for a sorted column nests two levels deep at most -/
theorem Column.StoresSorted.nesting {plan : Plan} {field : FieldNumber} {offset : Nat} {ws : List Bytes}
    {ordinals : NumberEntry} {reader : NumberReader} (h : StoresSorted plan field offset ws ordinals reader)
    (hoffset : offset < 2 ^ 63) :
    ∃ rest entry, plan.bytes .metadata = Varint.encode field.toNat ++ rest ∧
      Reading.Takes (Entry.read field 0) rest entry ∧ entry.layout = .sorted ∧ entry.nesting ≤ 2 := by
  obtain ⟨rest, hrest, htakes⟩ := h.takes hoffset
  exact ⟨rest, _, hrest, htakes, rfl, h.depth_le⟩

/-- **What is reported of a column is true of it.** Take a directory without faults, on disk one in which the files of the
segment can be opened, and columns of different numbers with a value for every document. The writer answers a layout for
each column of numbers, and the segment reports of it that layout, as many stored values as the layout keeps of them, and
for a sparse column the layout that its present values have by themselves, which is never that of a sparse column. So
entries nest one level deep at most. The entry of a column that goes through a dictionary is read back with two levels at
most, fewer than a reader allows. -/
theorem numbers_reported (d : Directory) (s : Segment) (naming : Naming) (schema : Schema) (hd : d.Reachable)
    (hf : d.faults = {}) (hnaming : naming.validate = .ok ()) (hsuffix : Framing.isName s.suffix = true)
    (hcreate : d.medium = .disk → ∃ d₁ w, SegmentWriter.create d s naming = (d₁, .ok w))
    (hfields : schema.fields.length < 2 ^ 32 - 1) :
    (∀ (before after : List Full) (field : FieldNumber) (name : String) (kind : NumberKind) (vs : List Int64),
      let columns := before ++ ⟨field, name, .numbers kind vs⟩ :: after
      (∀ c ∈ columns, c.Suits s schema) → (columns.map Full.field).Nodup →
      s.start naming + (columns.map fun c => (c.payload s.documents).length).sum < 2 ^ 63 →
      ∃ (r : SegmentReader) (layout : Layout),
        r.OverAnswered d s naming schema before ⟨field, name, .numbers kind vs⟩ layout after ∧
          r.Reports field name vs layout) ∧
    ∀ (field : FieldNumber) (name : String) (offset : Nat) (ws : List Bytes), ws.length = s.documents.toNat →
      offset + (sortedPayload field name s.documents offset ws).length < 2 ^ 63 →
      ∃ rest entry, (planSorted field name s.documents offset (ws.map some)).bytes .metadata =
          Varint.encode field.toNat ++ rest ∧
        Reading.Takes (Entry.read field 0) rest entry ∧ entry.layout = .sorted ∧ entry.nesting ≤ 2 ∧ 2 < maxNesting := by
  constructor
  · intro before after field name kind vs columns hsuits hnodup hfit
    have hmem : ⟨field, name, .numbers kind vs⟩ ∈ columns := List.mem_append_right _ List.mem_cons_self
    have hlength : vs.length = s.documents.toNat := (hsuits _ hmem).length
    obtain ⟨r, hover, hfinds⟩ := exists_over_finds hd.tidy hf hnaming hsuffix hcreate hfields hsuits hnodup hfit
    obtain ⟨content, hkeeps, hfound⟩ := hfinds _ hmem
    exact ⟨r, layoutRule vs, hover.answered hd.tidy hlength, hfound.reports hkeeps hlength⟩
  · intro field name offset ws hlength hfit
    obtain ⟨ordinals, reader, hstores⟩ := planSorted_stores field name hlength hfit
    obtain ⟨rest, entry, hrest, htakes, hlayout, hnesting⟩ := hstores.nesting (by omega)
    exact ⟨rest, entry, hrest, htakes, hlayout, hnesting, by decide⟩

/-- one value among 299 missing ones is stored alone, as a constant -/
theorem numbers_reported_sparse :
    let s : Segment := ⟨⟨7⟩, 300, "a"⟩
    let n : Full := ⟨0, "n", .numbers .int (List.replicate 299 0 ++ [7])⟩
    ∃ r : SegmentReader, r.OverAnswered {} s {} ⟨[⟨"n", .int⟩]⟩ [] n .indirect [] ∧
      ((r.entry? 0).bind Entry.count?).map UInt32.toNat = some 1 ∧
      (r.entry? 0).bind Entry.nestedLayout? = some .const := by
  have hlength : (List.replicate 299 (0 : Int64) ++ [7]).length = 300 := by decide +kernel
  have hpresent : presentValues (List.replicate 299 0 ++ [7]) = [7] := by decide +kernel
  have hrule : layoutRule (List.replicate 299 0 ++ [7]) = .indirect := by decide +kernel
  generalize List.replicate 299 (0 : Int64) ++ [7] = vs at hlength hpresent hrule ⊢
  intro s n
  have hcheck : checkLength "n" vs.length (some 300) = .ok () := by
    rw [hlength]
    rfl
  have hsuffix : Framing.isName "a" = true := by rfl
  have hstart : s.start {} ≤ 300 := Framing.length_headerBytes_le (h := s.dataHeader {})
    (Naming.valid_of_validate (by rfl) : Naming.Valid {}).dataCodec hsuffix
  have hpayload : (n.payload 300).length ≤ 2100 + 64 * vs.length :=
    length_data_le 0 "n" (some 300) 0 vs (by omega) hcheck
  have hsuits : ∀ c ∈ [n], c.Suits s ⟨[⟨"n", .int⟩]⟩ := by
    intro c hc
    rw [List.mem_singleton.1 hc]
    exact ⟨hlength, "n", rfl⟩
  have hfit : s.start {} + ([n].map fun c => (c.payload 300).length).sum < 2 ^ 63 := by
    simp only [List.map_cons, List.map_nil, List.sum_cons, List.sum_nil]
    omega
  obtain ⟨r, layout, hanswered, hreports⟩ := (numbers_reported {} s {} ⟨[⟨"n", .int⟩]⟩ Directory.reachable_empty rfl rfl
    hsuffix (by simp) (by decide)).1 [] [] 0 "n" .int vs hsuits (by simp) hfit
  -- the layout is that of the rule, and so is the nested one
  obtain ⟨stats, hscan, -, hstats⟩ := Stats.collect_exact "n" vs (by omega)
  obtain ⟨stats', hscan', hchosen⟩ := hreports.chosen
  obtain rfl : stats = stats' := Except.ok.inj (hscan.symm.trans hscan')
  obtain rfl : layout = .indirect := hchosen.symm.trans (hstats.trans hrule)
  obtain ⟨nested, hnested, hreported, -⟩ := hreports.nested rfl
  obtain ⟨nested', hnested', -, hconst⟩ := Stats.collect_exact "n" (presentValues vs) (by rw [hpresent]; decide)
  obtain rfl : nested = nested' := Except.ok.inj (hnested.symm.trans hnested')
  refine ⟨r, hanswered, ?_, ?_⟩
  · rw [hreports.stored, storedCount?, hpresent]
    rfl
  · rw [hreported, hconst, hpresent]
    rfl

end ColumnStore
