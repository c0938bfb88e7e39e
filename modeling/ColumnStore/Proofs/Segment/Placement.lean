/-
Where a column stands in the data file does not matter.

`Content` is what a segment keeps of a column: its payload, its entry without offsets, and the source that is loaded from
it. `Placed` says that a record in the metadata file leads to this content, whose payload starts at an offset of the data
file. A column with a value for every document has one content, with a record for every offset (`portable`).
-/
import ColumnStore.Proofs.Column.Strings
import ColumnStore.Proofs.Segment.RoundTrip

namespace ColumnStore

open Storage Column

namespace Column

/-! ## Columns -/

/-- a value for every document: words of a kind, or byte strings -/
inductive Series where
  | numbers (kind : NumberKind) (vs : List Int64)
  | strings (ws : List Bytes)

namespace Series

def values : Series → Values
  | numbers .int vs => .ints (vs.map some)
  | numbers .float vs => .floats (vs.map some)
  | strings ws => .bytes (ws.map some)

def type : Series → ValueType
  | numbers .int _ => .int
  | numbers .float _ => .float
  | strings _ => .bytes

def length : Series → Nat
  | numbers _ vs => vs.length
  | strings ws => ws.length

/-- a source that answers just the value of each document, and for no other document; floats are told by their bits -/
def AnsweredBy (source : Source) : Series → Prop
  | numbers .int vs => ∀ document, source.int document =
      if h : document.toNat < vs.length then .ok vs[document.toNat] else .error (.documentNotFound document)
  | numbers .float vs => ∀ document, source.float document =
      if h : document.toNat < vs.length then .ok vs[document.toNat].toUInt64 else .error (.documentNotFound document)
  | strings ws => ∀ document, source.bytes document =
      if h : document.toNat < ws.length then .ok ws[document.toNat] else .error (.documentNotFound document)

end Series

/-- a column to be written, with a value for every document -/
structure Full where
  field : FieldNumber
  name : String
  series : Series

namespace Full

/-- the column as it is added to a segment -/
def added (c : Full) : FieldNumber × String × Values := (c.field, c.name, c.series.values)

def plan (c : Full) (documents : UInt32) (offset : Nat) : Plan :=
  c.series.values.plan c.field c.name documents offset

/-- the payload of a column, wherever it stands -/
def payload (c : Full) (documents : UInt32) : Bytes :=
  match c.series with
  | .numbers _ vs => (planNumbers c.field c.name (some documents) 0 (vs.map some)).bytes .data
  | .strings ws => stringBytes ws

end Full

/-! ## Contents -/

/-- an entry without its offsets -/
def Entry.form : Entry → Entry
  | .numbers entry => .numbers entry.form
  | .bytes count _ => .bytes count 0
  | .sorted count _ ordinals => .sorted count 0 ordinals.form

@[simp] theorem Entry.layout_form (entry : Entry) : entry.form.layout = entry.layout := by
  cases entry <;> simp [form, layout]

@[simp] theorem Entry.nestedLayout?_form (entry : Entry) : entry.form.nestedLayout? = entry.nestedLayout? := by
  cases entry with
  | numbers entry => cases entry <;> simp [form, NumberEntry.form, nestedLayout?]
  | bytes count offset => rfl
  | sorted count offset ordinals => simp [form, nestedLayout?]

@[simp] theorem Entry.count?_form (entry : Entry) : entry.form.count? = entry.count? := by
  cases entry <;> simp [form, count?]

/-- what a segment keeps of a column, wherever the column stands -/
structure Content where
  payload : Bytes
  form : Entry
  source : Source

open SegmentReader in
/-- a column whose payload starts at an offset of the data file, with its record in the metadata file -/
structure Placed (documents : UInt32) (c : Full) (content : Content) (offset : Nat) (r : Record) : Prop where
  field : r.field = c.field
  outcome : (c.plan documents offset).outcome = .ok r.entry.layout
  metadata : (c.plan documents offset).bytes .metadata = r.whole
  data : (c.plan documents offset).bytes .data = content.payload
  takes : Reading.Takes (Entry.read r.field 0) r.bytes r.entry
  count : ∀ file, r.entry.checkCount file r.field documents = .ok ()
  short : r.whole.length ≤ 38
  form : r.entry.form = content.form
  fits : fits c.series.type r.entry = true
  offsets : ∀ start stop, start ≤ offset → offset + content.payload.length ≤ stop →
    r.entry.checkOffsets start stop = .ok ()
  loads : ∀ q : SegmentReader, q.entry c.field = .ok r.entry → q.documents = documents →
    (∃ label, q.schema.field? c.field = some ⟨label, c.series.type⟩) → q.data.Holds offset content.payload →
    q.load c.field = .ok content.source
  answers : c.series.AnsweredBy content.source

/-! ## Byte strings -/

variable {documents : UInt32}

/-- what is kept of a column of byte strings -/
def stringsContent (ws : List Bytes) (documents : UInt32) : Content :=
  ⟨stringBytes ws, .bytes documents 0, .strings (StringTable.table ws documents)⟩

def stringsRecord (field : FieldNumber) (ws : List Bytes) (documents : UInt32) (offset : Nat) : SegmentReader.Record :=
  ⟨field, .bytes documents (UInt64.ofNat offset), entryBytes ws.length .bytes offset⟩

theorem placed_strings {ws : List Bytes} {offset : Nat} (field : FieldNumber) (name : String)
    (hlength : ws.length = documents.toNat) (hfit : ws.flatten.length < 2 ^ 63) (hoffset : offset < 2 ^ 63) :
    Placed documents ⟨field, name, .strings ws⟩ (stringsContent ws documents) offset
      (stringsRecord field ws documents offset) := by
  obtain ⟨pieces, hflat, hplan⟩ := planBytes_eq field name hlength hfit
  have hplan : (⟨field, name, .strings ws⟩ : Full).plan documents offset = _ := hplan offset
  have hbound : ws.length < 2 ^ 32 := hlength ▸ documents.toNat_lt
  refine
    { field := rfl, outcome := ?_, metadata := ?_, data := ?_, takes := ?_, count := fun file => if_pos rfl,
      short := ?_, form := rfl, fits := rfl, offsets := ?_, loads := ?_, answers := strings_document hlength hfit }
  · rw [hplan]
    rfl
  · rw [hplan]
    simp [stringsRecord, SegmentReader.Record.whole, entryBytes]
  · rw [hplan]
    simp [hflat, stringsContent]
  · rw [stringsRecord, hlength]
    exact Entry.takes_bytes hoffset
  · have hnumber := length_encode_count field.toNat_lt
    have hentry := length_entryBytes_le hbound .bytes offset
    change (Varint.encode field.toNat ++ entryBytes ws.length .bytes offset).length ≤ 38
    rw [List.length_append]
    omega
  · intro start stop hstart hstop
    exact checkOffset_ok hstart (by omega) hoffset
  · intro q hentry hdocuments _ hholds
    obtain ⟨j, hread, -⟩ := StringTable.read_eq hlength hfit hoffset hholds
    have hentry : q.entry field = .ok (.bytes documents (UInt64.ofNat offset)) := hentry
    rw [SegmentReader.load, hentry]
    simp only [bind, Except.bind, Reading.eval_ok hread]
    rfl

/-! ## Numbers -/

/-- a column of numbers answers its words as they are meant -/
theorem answeredBy_numbers {reader : NumberReader} {vs : List Int64} (h : reader.Gives vs) (kind : NumberKind)
    (hlength : vs.length = documents.toNat) :
    (Series.numbers kind vs).AnsweredBy (.numbers ⟨reader, kind, documents⟩) := by
  cases kind with
  | int =>
    intro document
    exact NumberSource.word_eq h .int hlength
  | float =>
    intro document
    change Int64.toUInt64 <$> NumberSource.word _ .float document = _
    rw [NumberSource.word_eq h .float hlength]
    split_ifs <;> rfl

theorem placed_numbers {field : FieldNumber} {name : String} {kind : NumberKind} {vs : List Int64} {offset : Nat}
    {entry : NumberEntry} {reader : NumberReader} (hlength : vs.length = documents.toNat)
    (h : Stores (planNumbers field name (some documents) offset (vs.map some)) field offset vs entry reader) :
    ∃ r, Placed documents ⟨field, name, .numbers kind vs⟩
      ⟨(planNumbers field name (some documents) offset (vs.map some)).bytes .data, .numbers entry.form,
        .numbers ⟨reader, kind, documents⟩⟩ offset r := by
  have hplan : (⟨field, name, .numbers kind vs⟩ : Full).plan documents offset =
      planNumbers field name (some documents) offset (vs.map some) := by
    cases kind <;> rfl
  obtain ⟨rest, hrest, htakes⟩ := h.metadata
  refine ⟨⟨field, .numbers entry, rest⟩, ?_⟩
  refine
    { field := rfl, outcome := hplan ▸ h.outcome, metadata := hplan ▸ hrest, data := by rw [hplan],
      takes := htakes _ (le_trans h.depth_le (by decide)), count := h.checkCount hlength, short := ?_, form := rfl,
      fits := by cases kind <;> rfl, offsets := h.offsets, loads := ?_,
      answers := answeredBy_numbers h.gives kind hlength }
  · have hbound : vs.length < 2 ^ 32 := hlength ▸ documents.toNat_lt
    have hmetadata := length_metadata_le field name (some documents) offset vs hbound (if_pos hlength)
    have hsmall : (if Sparse vs then 38 else 19) ≤ 38 := by split_ifs <;> decide
    change (Varint.encode field.toNat ++ rest).length ≤ 38
    rw [← hrest]
    exact le_trans hmetadata hsmall
  · rintro q hentry hdocuments ⟨label, hlabel⟩ hholds
    have hkind : q.kind field = .ok kind := by
      have hlabel : q.schema.field? field = some ⟨label, (Series.numbers kind vs).type⟩ := hlabel
      rw [SegmentReader.kind, hlabel]
      cases kind <;> rfl
    rw [← hdocuments]
    exact h.decodes.load hentry hkind hholds

/-! ## Columns of both -/

/-- what is kept of a column of numbers is what its plan stores -/
def Content.Keeps (content : Content) (documents : UInt32) (c : Full) : Prop :=
  ∀ kind vs, c.series = .numbers kind vs → ∃ entry reader, content.form = .numbers entry.form ∧
    content.source = .numbers ⟨reader, kind, documents⟩ ∧
    Stores (planNumbers c.field c.name (some documents) 0 (vs.map some)) c.field 0 vs entry reader

theorem portable_keeps (c : Full) (hlength : c.series.length = documents.toNat) :
    ∃ content : Content, content.payload = c.payload documents ∧ content.Keeps documents c ∧
      ∀ offset, offset + content.payload.length < 2 ^ 63 → ∃ r, Placed documents c content offset r := by
  obtain ⟨field, name, series⟩ := c
  cases series with
  | numbers kind vs =>
    have hlength : vs.length = documents.toNat := hlength
    have hbound : vs.length < 2 ^ 32 := hlength ▸ documents.toNat_lt
    obtain ⟨payload, form, reader, hall⟩ := planNumbers_stores_anywhere field name (some documents) vs hbound
      (if_pos hlength)
    refine ⟨⟨payload, .numbers form, .numbers ⟨reader, kind, documents⟩⟩, (hall 0).1.symm, ?_, ?_⟩
    · rintro kind' vs' hseries
      obtain ⟨rfl, rfl⟩ : kind = kind' ∧ vs = vs' := by simpa using hseries
      have hsize := length_data_le field name (some documents) 0 vs hbound (if_pos hlength)
      obtain ⟨hpayload, hstores⟩ := hall 0
      rw [hpayload] at hsize
      obtain ⟨entry, rfl, hentry⟩ := hstores (by omega)
      exact ⟨entry, reader, rfl, rfl, hentry⟩
    · intro offset hfit
      obtain ⟨hpayload, hstores⟩ := hall offset
      obtain ⟨entry, rfl, hentry⟩ := hstores hfit
      subst hpayload
      exact placed_numbers hlength hentry
  | strings ws =>
    refine ⟨stringsContent ws documents, rfl, ?_, ?_⟩
    · intro kind vs hseries
      simp at hseries
    · intro offset hfit
      -- the strings are part of their payload
      have hle : ws.flatten.length ≤ (stringsContent ws documents).payload.length := by
        simp only [stringsContent, stringBytes, List.length_append]
        omega
      exact ⟨_, placed_strings field name hlength (by omega) (by omega)⟩

/-- **Where a column stands does not matter.** As long as its payload ends below the limit of offsets, the same is kept
of it at every offset. -/
theorem portable (c : Full) (hlength : c.series.length = documents.toNat) :
    ∃ content : Content, content.payload = c.payload documents ∧
      ∀ offset, offset + content.payload.length < 2 ^ 63 → ∃ r, Placed documents c content offset r := by
  obtain ⟨content, hpayload, -, hplaced⟩ := portable_keeps c hlength
  exact ⟨content, hpayload, hplaced⟩

end Column

end ColumnStore
