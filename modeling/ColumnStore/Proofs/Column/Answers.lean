/-
What the plan of a column answers.

What has to be answered is told by the column alone (`Values.Answered`): the first null if there is one, else a wrong number
of entries, else a layout. Columns of numbers and of strings are scanned in different ways, and a column that goes through
a dictionary is planned twice, but every plan answers so (`plan_answered`).
-/
import ColumnStore.Proofs.Column.Sorted

namespace ColumnStore.Column

/-! ## What a column has to be answered -/

namespace Values

/-- the first document without an entry -/
def firstNull? : Values → Option Nat
  | ints values | floats values => values.findIdx? Option.isNone
  | bytes values | sorted values => Column.firstNull? values

/-- entries of a column, nulls included -/
def length : Values → Nat
  | ints values | floats values => values.length
  | bytes values | sorted values => values.length

/-- bytes of the strings that are stored of a column -/
def stringSize : Values → Nat
  | ints _ | floats _ => 0
  | bytes values => (values.filterMap id).flatten.length
  | sorted values => (Dictionary.ofStrings values).entries.toList.flatten.length

/-- the answer names the first null; without one a wrong number of entries; else it is a layout, as long as the strings can
be addressed -/
structure Answered (values : Values) (name : String) (documents : UInt32) (answer : Except Error Layout) : Prop where
  null : ∀ i, values.firstNull? = some i → answer = .error (.nullValue name i)
  count : values.firstNull? = none → values.length ≠ documents.toNat →
    answer = .error (.invalidArgument (.valueCount name values.length documents))
  layout : values.firstNull? = none → values.length = documents.toNat → values.stringSize < 2 ^ 63 →
    ∃ layout, answer = .ok layout

end Values

/-! ## Scans -/

theorem exists_map_some {α : Type} {values : List (Option α)} (h : values.findIdx? Option.isNone = none) :
    ∃ vs : List α, values = vs.map some := by
  induction values with
  | nil => exact ⟨[], rfl⟩
  | cons v values ih =>
    cases v with
    | none => simp [List.findIdx?_cons] at h
    | some v =>
      obtain ⟨vs, rfl⟩ := ih (by simpa [List.findIdx?_cons] using h)
      exact ⟨v :: vs, rfl⟩

/-- a scan stops at the first null, and has counted the entries before it -/
theorem Stats.scan_null (name : String) (s : Stats) {values : Numbers} {i : Nat}
    (h : values.findIdx? Option.isNone = some i) : scan name s values = .error (.nullValue name (s.count + i)) := by
  induction values generalizing s i with
  | nil => simp at h
  | cons v values ih =>
    cases v with
    | none =>
      obtain rfl : 0 = i := by simpa [List.findIdx?_cons] using h
      rfl
    | some v =>
      obtain ⟨j, hj, rfl⟩ : ∃ j, values.findIdx? Option.isNone = some j ∧ j + 1 = i := by
        simpa [List.findIdx?_cons] using h
      rw [scan, ih (s.observe v) hj, observe, Nat.add_assoc, Nat.add_comm 1 j]

theorem Stats.collect_null (name : String) {values : Numbers} {i : Nat} (h : values.findIdx? Option.isNone = some i) :
    collect name values = .error (.nullValue name i) := by
  have hscan := scan_null name {} h
  rw [Nat.zero_add] at hscan
  rw [collect, hscan]

theorem Stats.collect_count (name : String) (vs : List Int64) :
    ∃ s, collect name (vs.map some) = .ok s ∧ s.count = vs.length := by
  obtain ⟨t, ht, hcollect⟩ := collect_eq name vs
  refine ⟨_, hcollect, ?_⟩
  split_ifs <;> exact ht.count

theorem checkLength_error (name : String) {count : Nat} {documents : UInt32} (h : count ≠ documents.toNat) :
    checkLength name count (some documents) = .error (.invalidArgument (.valueCount name count documents)) := if_neg h

/-! ## Plans -/

section

variable {name : String} {documents : UInt32}

theorem planNumbers_error {field : FieldNumber} {offset : Nat} {values : Numbers} {documents : Option UInt32} {e : Error}
    (hscan : Stats.collect name values = .error e) :
    planNumbers field name documents offset values = .after .metadata (Varint.pieces field.toNat) (.refuse e) := by
  rw [planNumbers]
  congr 1
  split
  · next e' he => rw [Except.error.inj (hscan.symm.trans he)]
  · next he => exact absurd (hscan.symm.trans he) (by simp)

theorem planNumbers_miscounted {field : FieldNumber} {offset : Nat} {values : Numbers} {documents : Option UInt32}
    {stats : Stats} {e : Error} (hscan : Stats.collect name values = .ok stats)
    (hlength : checkLength name stats.count documents = .error e) :
    planNumbers field name documents offset values = .after .metadata (Varint.pieces field.toNat) (.refuse e) := by
  rw [planNumbers]
  congr 1
  split
  · next he => exact absurd (hscan.symm.trans he) (by simp)
  · next stats' he =>
    obtain rfl : stats = stats' := Except.ok.inj (hscan.symm.trans he)
    rw [hlength]

theorem numbers_answered (field : FieldNumber) (offset : Nat) {values : Numbers} (hlen : values.length < 2 ^ 32) :
    (Values.ints values).Answered name documents (planNumbers field name (some documents) offset values).outcome where
  null i hi := by
    rw [planNumbers_error (Stats.collect_null name hi)]
    rfl
  count hnone hlength := by
    obtain ⟨vs, rfl⟩ := exists_map_some hnone
    rw [Values.length, List.length_map] at hlength ⊢
    obtain ⟨stats, hscan, hcount⟩ := Stats.collect_count name vs
    rw [planNumbers_miscounted hscan (by rw [hcount]; exact checkLength_error name hlength)]
    rfl
  layout hnone hlength _ := by
    obtain ⟨vs, rfl⟩ := exists_map_some hnone
    rw [Values.length, List.length_map] at hlength
    exact ⟨_, outcome_planNumbers field name (some documents) offset vs (by simpa using hlen) (if_pos hlength)⟩

/-- the check of a column of strings finds the first null before it looks at the length -/
theorem checkStrings_null {values : Strings} {i : Nat} (h : firstNull? values = some i) :
    checkStrings name documents values = .error (.nullValue name i) := by
  rw [checkStrings, h]

theorem checkStrings_length {values : Strings} (h : firstNull? values = none)
    (hlength : values.length ≠ documents.toNat) :
    checkStrings name documents values = .error (.invalidArgument (.valueCount name values.length documents)) := by
  rw [checkStrings, h]
  exact checkLength_error name hlength

theorem planBytes_refused (field : FieldNumber) (offset : Nat) {values : Strings} {e : Error}
    (h : checkStrings name documents values = .error e) :
    (planBytes field name documents offset values).outcome = .error e := by
  rw [planBytes, h]
  rfl

theorem planSorted_refused (field : FieldNumber) (offset : Nat) {values : Strings} {e : Error}
    (h : checkStrings name documents values = .error e) :
    (planSorted field name documents offset values).outcome = .error e := by
  rw [planSorted, h]
  rfl

theorem bytes_answered (field : FieldNumber) (offset : Nat) (values : Strings) :
    (Values.bytes values).Answered name documents (planBytes field name documents offset values).outcome where
  null i hi := planBytes_refused field offset (checkStrings_null hi)
  count hnone hlength := planBytes_refused field offset (checkStrings_length hnone hlength)
  layout hnone hlength hsize := by
    obtain ⟨ws, rfl⟩ := exists_map_some hnone
    rw [Values.length, List.length_map] at hlength
    have hall : (ws.map some).filterMap id = ws := by simp
    rw [Values.stringSize, hall] at hsize
    obtain ⟨pieces, -, hplan⟩ := planBytes_eq field name hlength hsize
    rw [hplan offset]
    exact ⟨_, rfl⟩

theorem sorted_answered (field : FieldNumber) (offset : Nat) (values : Strings) :
    (Values.sorted values).Answered name documents (planSorted field name documents offset values).outcome where
  null i hi := planSorted_refused field offset (checkStrings_null hi)
  count hnone hlength := planSorted_refused field offset (checkStrings_length hnone hlength)
  layout hnone hlength hsize := by
    obtain ⟨ws, rfl⟩ := exists_map_some hnone
    rw [Values.length, List.length_map] at hlength
    rw [Values.stringSize, ofStrings_map_some] at hsize
    obtain ⟨pieces, -, hplan⟩ := planSorted_pieces field name offset hlength hsize
    -- the ordinals are as many as the strings, so they are not refused either
    have hordinals := outcome_planNumbers field name (some documents) (offset + (dictionaryBytes ws).length)
      (stringOrdinals ws) (by rw [length_stringOrdinals, hlength]; exact documents.toNat_lt)
      (checkLength_stringOrdinals name hlength)
    rw [hplan]
    exact ⟨_, Plan.outcome_within hordinals⟩

/-- **Every plan answers as it has to**, whatever the type of the column and wherever its payload starts. -/
theorem plan_answered (values : Values) (field : FieldNumber) (name : String) (documents : UInt32) (offset : Nat)
    (hlen : values.length < 2 ^ 32) : values.Answered name documents (values.plan field name documents offset).outcome := by
  cases values with
  | ints values => exact numbers_answered field offset hlen
  | floats values =>
    have hints : (Values.ints values).Answered name documents _ := numbers_answered field offset hlen
    exact ⟨hints.null, hints.count, hints.layout⟩
  | bytes values => exact bytes_answered field offset values
  | sorted values => exact sorted_answered field offset values

end

end ColumnStore.Column
