/-
A segment under construction: what its columns hold after calls in any order.

A call is carried out, or it is refused for its column or for the type of its value (`Built.put_missing`,
`Built.put_wrong`) and the builder stays as it is. A call that is carried out keeps `Built`: the builder has as many
documents as the calls so far have asked for, and each column, which is never longer, holds at every place the value that
was recorded there last, or "no value" (`Built.call`, `Built.callAll`). A column may be shorter than the segment, so it is
only complete once it is padded (`Collector.series`).
-/
import ColumnStore.Proofs.Column.Collector
import ColumnStore.Proofs.Segment.Placement
import ColumnStore.Segment.Builder

namespace ColumnStore

open Storage Column SegmentReader

/-! ## Columns under construction -/

/-- what stands for "no value" in a column of a type -/
def Value.absent : ValueType → Value
  | .int => .int 0
  | .float => .float 0
  | .bytes => .bytes []
  | .sortedBytes => .sorted []

/-- the value of a document, by the getter of a type -/
def Column.Source.value (s : Source) (type : ValueType) (document : UInt32) : Except Error Value :=
  match type with
  | .int => Value.int <$> s.int document
  | .float => Value.float <$> s.float document
  | .bytes => Value.bytes <$> s.bytes document
  | .sortedBytes => Value.sorted <$> s.bytes document

namespace Collector

/-- documents covered so far -/
def length : Collector → Nat
  | ints c => c.values.size
  | floats c => c.values.size
  | bytes c => c.values.size
  | sorted c => c.values.size

def held (place : Nat) : Collector → Value
  | ints c => .int (c.held place)
  | floats c => .float (c.held place).toUInt64
  | bytes c => .bytes (c.held place)
  | sorted c => .sorted (c.held place)

@[simp] theorem type_ofType (type : ValueType) : (ofType type).type = type := by cases type <;> rfl

@[simp] theorem length_ofType (type : ValueType) : (ofType type).length = 0 := by cases type <;> rfl

@[simp] theorem held_ofType (type : ValueType) (place : Nat) : (ofType type).held place = Value.absent type := by
  cases type <;> rfl

variable {c : Collector} {value : Value}

theorem type_add (document : UInt32) (value : Value) (c : Collector) : (c.add document value).type = c.type := by
  cases c <;> cases value <;> rfl

theorem length_add (document : UInt32) (h : c.type = value.type) :
    (c.add document value).length = max c.length (document.toNat + 1) := by
  cases c <;> cases value <;> simp only [type, Value.type, reduceCtorEq] at h
  · exact NumberCollector.size_add _ _ _
  · exact NumberCollector.size_add _ _ _
  · exact StringCollector.size_add _ _ _
  · exact StringCollector.size_add _ _ _

theorem held_add (document : UInt32) (h : c.type = value.type) (place : Nat) :
    (c.add document value).held place = if place = document.toNat then value else c.held place := by
  cases c <;> cases value <;> simp only [type, Value.type, reduceCtorEq] at h
  · simp only [add, held, NumberCollector.held_add]
    split_ifs <;> rfl
  · simp only [add, held, NumberCollector.held_add]
    split_ifs
    · rw [UInt64.toUInt64_toInt64]
    · rfl
  · simp only [add, held, StringCollector.held_add]
    split_ifs <;> rfl
  · simp only [add, held, StringCollector.held_add]
    split_ifs <;> rfl

/-- the column over `documents` documents, all of which have a value -/
def series (documents : UInt32) : Collector → Series
  | ints c => .numbers .int (c.padTo documents).values.toList
  | floats c => .numbers .float (c.padTo documents).values.toList
  | bytes c => .strings (c.padTo documents).values.toList
  | sorted c => .strings (c.padTo documents).values.toList

theorem column_eq (documents : UInt32) (h : c.type ≠ .sortedBytes) :
    c.column documents = (c.series documents).values := by
  cases c with
  | sorted c => exact absurd rfl h
  | _ => rfl

theorem type_series (documents : UInt32) (h : c.type ≠ .sortedBytes) : (c.series documents).type = c.type := by
  cases c with
  | sorted c => exact absurd rfl h
  | _ => rfl

theorem length_series {documents : UInt32} (h : c.length ≤ documents.toNat) :
    (c.series documents).length = documents.toNat := by
  cases c <;>
    simp only [series, Series.length, Array.length_toList, NumberCollector.size_padTo, StringCollector.size_padTo] <;>
    exact max_eq_right h

/-- a source that answers a column answers what is held for each document -/
theorem value_eq {source : Source} {documents document : UInt32} (h : (c.series documents).AnsweredBy source)
    (hsorted : c.type ≠ .sortedBytes) (hlength : c.length ≤ documents.toNat)
    (hdocument : document.toNat < documents.toNat) :
    source.value c.type document = .ok (c.held document.toNat) := by
  have hinside := length_series hlength ▸ hdocument
  cases c with
  | ints c =>
    have hplace : document.toNat < (c.padTo documents).values.toList.length := hinside
    have hanswer : source.int document = _ := (h document).trans (dif_pos hplace)
    rw [NumberCollector.getElem_padTo] at hanswer
    simp only [type, Source.value, hanswer]
    rfl
  | floats c =>
    have hplace : document.toNat < (c.padTo documents).values.toList.length := hinside
    have hanswer : source.float document = _ := (h document).trans (dif_pos hplace)
    rw [NumberCollector.getElem_padTo] at hanswer
    simp only [type, Source.value, hanswer]
    rfl
  | bytes c =>
    have hplace : document.toNat < (c.padTo documents).values.toList.length := hinside
    have hanswer : source.bytes document = _ := (h document).trans (dif_pos hplace)
    rw [StringCollector.getElem_padTo] at hanswer
    simp only [type, Source.value, hanswer]
    rfl
  | sorted c => exact absurd rfl hsorted

end Collector

/-! ## Calls -/

inductive Call where
  | ensure (count : UInt32)
  | put (field : FieldNumber) (document : UInt32) (value : Value)

namespace Call

/-- documents that a call asks for -/
def reach : Call → Nat
  | .ensure count => count.toNat
  | .put _ document _ => document.toNat + 1

/-- the value that a call records for a document of a column -/
def recorded? (field : FieldNumber) (document : UInt32) : Call → Option Value
  | .ensure _ => none
  | .put field' document' value => if field' = field ∧ document' = document then some value else none

/-- documents that calls ask for -/
def extent (calls : List Call) : Nat := (calls.map reach).foldl max 0

/-- the value that calls have recorded last for a document of a column -/
def last? (field : FieldNumber) (document : UInt32) (calls : List Call) : Option Value :=
  calls.reverse.findSome? (recorded? field document)

theorem extent_concat (calls : List Call) (call : Call) : extent (calls ++ [call]) = max (extent calls) call.reach := by
  rw [extent, List.map_append, List.foldl_append]
  rfl

theorem last?_concat (field : FieldNumber) (document : UInt32) (calls : List Call) (call : Call) :
    last? field document (calls ++ [call]) = (call.recorded? field document).or (last? field document calls) := by
  rw [last?, List.reverse_concat, List.findSome?_cons]
  cases call.recorded? field document <;> rfl

/-- the last document of all is not asked for: it would not count itself -/
def Countable : Call → Prop
  | .ensure _ => True
  | .put _ document _ => document ≠ 0xffffffff

end Call

namespace SegmentBuilder

variable {b : SegmentBuilder} {schema : Schema} {done : List Call}

def call (b : SegmentBuilder) : Call → SegmentBuilder × Except Error Unit
  | .ensure count => (b.ensure count, .ok ())
  | .put field document value => b.put field document value

/-- make calls one after the other, whatever they answer -/
def callAll (b : SegmentBuilder) (calls : List Call) : SegmentBuilder := calls.foldl (fun b call => (b.call call).1) b

/-- the calls that are carried out, when they are made one after the other -/
def accepted (b : SegmentBuilder) : List Call → List Call
  | [] => []
  | call :: calls =>
    match b.call call with
    | (b, .ok ()) => call :: b.accepted calls
    | (b, .error _) => b.accepted calls

/-! ## What calls keep -/

/-- a builder after calls were carried out: as many documents as they asked for, and in each column what was recorded
last -/
structure Built (schema : Schema) (done : List Call) (b : SegmentBuilder) : Prop where
  schema_eq : b.schema = schema
  size : b.collectors.size = schema.fields.length
  documents : b.documents.toNat = Call.extent done
  collectors : ∀ (field : FieldNumber) (f : Field), schema.field? field = some f → ∃ c, b.collectors[field.toNat]? = some c ∧
    c.type = f.type ∧ c.length ≤ b.documents.toNat ∧
    ∀ document : UInt32, c.held document.toNat = (Call.last? field document done).getD (Value.absent f.type)

theorem built_ofSchema (schema : Schema) : Built schema [] (ofSchema schema) where
  schema_eq := rfl
  size := by simp [ofSchema]
  documents := rfl
  collectors := by
    intro field f hf
    refine ⟨Collector.ofType f.type, ?_, by simp, by simp, fun document => ?_⟩
    · have hf : schema.fields[field.toNat]? = some f := hf
      simp [ofSchema, hf]
    · rw [Collector.held_ofType]
      rfl

/-- a column that the schema does not have has no collector -/
theorem Built.collector_none (h : Built schema done b) {field : FieldNumber} (hf : schema.field? field = none) :
    b.collectors[field.toNat]? = none := by
  have hf : schema.fields[field.toNat]? = none := hf
  rw [List.getElem?_eq_none_iff] at hf
  rw [Array.getElem?_eq_none_iff, h.size]
  exact hf

/-- a value for a column that is not there is refused by its number, and the builder is left as it is -/
theorem Built.put_missing (h : Built schema done b) {field : FieldNumber} (document : UInt32) (value : Value)
    (hf : schema.field? field = none) : b.put field document value = (b, .error (.fieldNotFound s!"#{field}")) := by
  have henter : b.enter field document value.type = (b, .error (.fieldNotFound s!"#{field}")) := by
    rw [enter, h.collector_none hf]
  rw [put, henter]

/-- a value that a column does not take is refused by its type, and the builder is left as it is -/
theorem Built.put_wrong (h : Built schema done b) {field : FieldNumber} {f : Field} (document : UInt32) {value : Value}
    (hf : schema.field? field = some f) (htype : f.type ≠ value.type) :
    b.put field document value = (b, .error (.wrongType f.type value.type)) := by
  obtain ⟨c, hc, hctype, -⟩ := h.collectors field f hf
  have henter : b.enter field document value.type = (b, .error (.wrongType f.type value.type)) := by
    rw [enter, hc, ← hctype]
    exact if_neg (hctype ▸ htype)
  rw [put, henter]

theorem Built.put_ok (h : Built schema done b) {field : FieldNumber} {f : Field} (document : UInt32) {value : Value}
    (hf : schema.field? field = some f) (htype : f.type = value.type) : b.put field document value =
      ({ b.ensure (through document) with
        collectors := b.collectors.modify field.toNat (·.add document value) }, .ok ()) := by
  obtain ⟨c, hc, hctype, -⟩ := h.collectors field f hf
  have henter : b.enter field document value.type = (b.ensure (through document), .ok ()) := by
    rw [enter, hc]
    exact if_pos (hctype.trans htype)
  rw [put, henter]
  rfl

theorem toNat_through {document : UInt32} (h : document ≠ 0xffffffff) : (through document).toNat = document.toNat + 1 := by
  have hlt : document.toNat < 2 ^ 32 - 1 := by
    have hne : document.toNat ≠ 2 ^ 32 - 1 := fun heq => h (UInt32.toNat_inj.1 heq)
    have := document.toNat_lt
    omega
  rw [through, if_neg h, UInt32.toNat_add, Nat.mod_eq_of_lt]
  · rfl
  · change document.toNat + 1 < 2 ^ 32
    omega

theorem Built.ensure (h : Built schema done b) (count : UInt32) : Built schema (done ++ [.ensure count]) (b.ensure count) := by
  have hdocuments : (b.ensure count).documents.toNat = max b.documents.toNat count.toNat := UInt32.toNat_max _ _
  refine ⟨h.schema_eq, h.size, ?_, ?_⟩
  · rw [Call.extent_concat, ← h.documents]
    exact hdocuments
  · intro field f hf
    obtain ⟨c, hc, hctype, hlength, hheld⟩ := h.collectors field f hf
    refine ⟨c, hc, hctype, by omega, fun document => ?_⟩
    rw [Call.last?_concat]
    exact hheld document

/-- a value that is recorded is the last one of its document, and the other documents keep theirs -/
theorem Built.put (h : Built schema done b) {field : FieldNumber} {f : Field} {document : UInt32} {value : Value}
    (hf : schema.field? field = some f) (htype : f.type = value.type) (hdocument : document ≠ 0xffffffff) :
    Built schema (done ++ [.put field document value])
      { b.ensure (through document) with collectors := b.collectors.modify field.toNat (·.add document value) } := by
  set b' := { b.ensure (through document) with collectors := b.collectors.modify field.toNat (·.add document value) }
    with hb'
  have hdocuments : b'.documents.toNat = max b.documents.toNat (document.toNat + 1) := by
    rw [← toNat_through hdocument]
    exact UInt32.toNat_max _ _
  refine ⟨h.schema_eq, ?_, ?_, ?_⟩
  · rw [hb']
    simpa using h.size
  · rw [Call.extent_concat, ← h.documents]
    exact hdocuments
  · intro other g hg
    obtain ⟨c, hc, hctype, hlength, hheld⟩ := h.collectors other g hg
    have hmodify : b'.collectors[other.toNat]? =
        some (if field.toNat = other.toNat then c.add document value else c) := by
      rw [hb', Array.getElem?_modify, hc]
      split_ifs <;> rfl
    by_cases hsame : field = other
    · subst hsame
      obtain rfl : f = g := Option.some.inj (hf.symm.trans hg)
      rw [if_pos rfl] at hmodify
      have hvalue : c.type = value.type := hctype.trans htype
      refine ⟨_, hmodify, (Collector.type_add _ _ _).trans hctype, ?_, fun document' => ?_⟩
      · rw [Collector.length_add document hvalue]
        omega
      · rw [Collector.held_add document hvalue, Call.last?_concat, hheld]
        by_cases hhere : document = document'
        · simp [Call.recorded?, hhere]
        · have hplace : document'.toNat ≠ document.toNat := fun heq => hhere (UInt32.toNat_inj.1 heq).symm
          simp [Call.recorded?, hhere, hplace]
    · have hplace : field.toNat ≠ other.toNat := fun heq => hsame (UInt32.toNat_inj.1 heq)
      rw [if_neg hplace] at hmodify
      refine ⟨c, hmodify, hctype, by omega, fun document' => ?_⟩
      rw [hheld, Call.last?_concat]
      simp [Call.recorded?, hsame]

/-- **A call is carried out or refused.** What is built has then grown by this call, or is left as it is. -/
theorem Built.call (h : Built schema done b) {call : Call} (hcall : call.Countable) :
    (∃ b', b.call call = (b', .ok ()) ∧ Built schema (done ++ [call]) b') ∨ ∃ e, b.call call = (b, .error e) := by
  cases call with
  | ensure count => exact .inl ⟨b.ensure count, rfl, h.ensure count⟩
  | put field document value =>
    cases hf : schema.field? field with
    | none => exact .inr ⟨_, h.put_missing document value hf⟩
    | some f =>
      by_cases htype : f.type = value.type
      · exact .inl ⟨_, h.put_ok document hf htype, h.put hf htype hcall⟩
      · exact .inr ⟨_, h.put_wrong document hf htype⟩

/-- **A run of calls builds** what those asked for and recorded that were carried out. -/
theorem Built.callAll (h : Built schema done b) (calls : List Call) (hcalls : ∀ call ∈ calls, call.Countable) :
    Built schema (done ++ b.accepted calls) (b.callAll calls) := by
  induction calls generalizing done b with
  | nil => simpa [accepted, SegmentBuilder.callAll] using h
  | cons call calls ih =>
    have hrest : ∀ other ∈ calls, other.Countable := fun other hother => hcalls other (List.mem_cons_of_mem _ hother)
    rcases h.call (hcalls call List.mem_cons_self) with ⟨b', hanswer, hbuilt⟩ | ⟨e, hanswer⟩
    · have hrun := ih hbuilt hrest
      rw [List.append_assoc] at hrun
      simpa [accepted, SegmentBuilder.callAll, hanswer] using hrun
    · simpa [accepted, SegmentBuilder.callAll, hanswer] using ih h hrest

end SegmentBuilder

end ColumnStore
