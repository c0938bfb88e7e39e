/-
What a parsed entry is known to be.

Parsing an entry ends with an entry whose nested columns hold as many values as the columns around them ask for
(`Entry.checked_read`), or with a corrupt file. Held against the number of documents, such an entry covers every
document (`Entry.Whole.covers`): `NumberEntry.Covers` is the invariant that all later look-ups rest on.
-/
import ColumnStore.Proofs.Column.Plan
import ColumnStore.Proofs.Storage.Checked
import ColumnStore.Segment.Reader

namespace ColumnStore.Column

open Storage Storage.Reading

namespace NumberEntry

/-! ## The invariant -/

/-- the column answers the indices below `count`: it counts just them, or answers any index -/
def Covers (count : Nat) : NumberEntry → Prop
  | const _ => True
  | uncompressed n _ | table n _ | delta n _ => n.toNat = count
  | indirect n _ values => values.Covers n.toNat

/-- the present values of the column, where they are stored apart, cover its documents -/
def Whole : NumberEntry → Prop
  | indirect n _ values => values.Covers n.toNat
  | _ => True

theorem Whole.covers {entry : NumberEntry} {file : String} {field : FieldNumber} {expected : UInt32} (h : entry.Whole)
    (hcount : entry.checkCount file field expected = .ok ()) : entry.Covers expected.toNat := by
  have heq : ∀ n, entry.count? = some n → n = expected := by
    intro n hn
    unfold checkCount at hcount
    rw [hn] at hcount
    dsimp only at hcount
    split_ifs at hcount with hsame
    exact hsame
  cases entry with
  | const value => trivial
  | uncompressed n offset => exact congrArg UInt32.toNat (heq n rfl)
  | table n offset => exact congrArg UInt32.toNat (heq n rfl)
  | delta n offset => exact congrArg UInt32.toNat (heq n rfl)
  | indirect n offset values => exact h

theorem checkCount_cases (entry : NumberEntry) (file : String) (field : FieldNumber) (expected : UInt32) :
    entry.checkCount file field expected = .ok () ∨
      ∃ cause, entry.checkCount file field expected = .error (.corruption cause) := by
  unfold checkCount
  split
  · split_ifs
    · exact .inl rfl
    · exact .inr ⟨_, rfl⟩
  · exact .inl rfl

end NumberEntry

namespace Entry

/-- the nested columns of an entry cover what the entry asks of them -/
def Whole : Entry → Prop
  | numbers entry => entry.Whole
  | bytes .. => True
  | sorted _ _ ordinals => ordinals.Whole

/-- every document of the segment can be asked for -/
def Covers (documents : Nat) : Entry → Prop
  | numbers entry => entry.Covers documents
  | bytes n _ => n.toNat = documents
  | sorted _ _ ordinals => ordinals.Covers documents

/-! ## Parsing -/

theorem checked_readOffset : Checked readOffset fun _ => True := by
  refine checked_int64.bind fun offset _ => ?_
  split_ifs
  · exact checked_corrupt_bind _ _
  · exact checked_pure trivial

theorem checked_readNested {field : FieldNumber} {readEntry : Reading Entry} (h : Checked readEntry Whole) :
    Checked (readNested field readEntry) NumberEntry.Whole := by
  refine checked_varint32.bind fun label _ => ?_
  split_ifs
  · exact checked_corrupt_bind _ _
  · refine h.bind fun entry hentry => ?_
    cases entry with
    | numbers entry => exact checked_pure hentry
    | bytes n offset => exact checked_corrupt _
    | sorted n offset ordinals => exact checked_corrupt _

/-- a check that can only find a corrupt file leaves what it found -/
theorem checked_checking {check : (file : String) → Except Error Unit}
    (h : ∀ file, check file = .ok () ∨ ∃ cause, check file = .error (.corruption cause)) :
    Checked (checking check) fun _ => ∃ file, check file = .ok () := by
  intro i
  unfold checking
  rcases h i.name with hok | ⟨cause, hcorrupt⟩
  · rw [hok]
    exact ⟨i.name, hok⟩
  · rw [hcorrupt]
    exact ⟨cause, rfl⟩

theorem checked_readBody {field : FieldNumber} {levels : Nat} (hnested : Checked (readLevels field levels) Whole)
    (count : UInt32) (layout : Layout) : Checked (readBody field levels count layout) Whole := by
  cases layout with
  | const => exact checked_int64.bind fun value _ => checked_pure trivial
  | uncompressed => exact checked_readOffset.bind fun offset _ => checked_pure trivial
  | table => exact checked_readOffset.bind fun offset _ => checked_pure trivial
  | delta => exact checked_readOffset.bind fun offset _ => checked_pure trivial
  | bytes => exact checked_readOffset.bind fun offset _ => checked_pure trivial
  | indirect =>
    refine checked_readOffset.bind fun offset _ => ?_
    refine (checked_readNested hnested).bind fun values hvalues => ?_
    refine (checked_checking fun file => values.checkCount_cases file field count).bind fun _ hcount => ?_
    obtain ⟨file, hcount⟩ := hcount
    exact checked_pure (hvalues.covers hcount)
  | sorted =>
    refine checked_readOffset.bind fun offset _ => ?_
    exact (checked_readNested hnested).bind fun ordinals hordinals => checked_pure hordinals

/-- **Parsing an entry** ends with an entry that is whole, or with a corrupt file. -/
theorem checked_readLevels (field : FieldNumber) (levels : Nat) : Checked (readLevels field levels) Whole := by
  induction levels with
  | zero => exact checked_corrupt _
  | succ levels ih =>
    rw [readLevels_succ]
    refine checked_varint32.bind fun count _ => ?_
    refine checked_byte.bind fun tag _ => ?_
    cases Layout.ofTag? tag with
    | none => exact checked_corrupt _
    | some layout => exact checked_readBody ih count layout

theorem checked_read (field : FieldNumber) (level : Nat) : Checked (read field level) Whole := checked_readLevels field _

/-! ## Held against the segment -/

theorem checkCount_cases (entry : Entry) (file : String) (field : FieldNumber) (documents : UInt32) :
    entry.checkCount file field documents = .ok () ∨
      ∃ cause, entry.checkCount file field documents = .error (.corruption cause) := by
  cases entry with
  | numbers entry =>
    cases entry with
    | indirect n offset values =>
      rw [checkCount]
      split_ifs
      · exact .inl rfl
      · exact .inr ⟨_, rfl⟩
    | const value => exact NumberEntry.checkCount_cases (.const value) file field documents
    | uncompressed n offset => exact NumberEntry.checkCount_cases (.uncompressed n offset) file field documents
    | table n offset => exact NumberEntry.checkCount_cases (.table n offset) file field documents
    | delta n offset => exact NumberEntry.checkCount_cases (.delta n offset) file field documents
  | bytes n offset =>
    rw [checkCount]
    split_ifs
    · exact .inl rfl
    · exact .inr ⟨_, rfl⟩
  | sorted n offset ordinals => exact NumberEntry.checkCount_cases ordinals file field documents

theorem Whole.covers {entry : Entry} {file : String} {field : FieldNumber} {documents : UInt32} (h : entry.Whole)
    (hcount : entry.checkCount file field documents = .ok ()) : entry.Covers documents.toNat := by
  cases entry with
  | numbers entry =>
    cases entry with
    | indirect n offset values => exact h
    | const value => trivial
    | uncompressed n offset => exact NumberEntry.Whole.covers h hcount
    | table n offset => exact NumberEntry.Whole.covers h hcount
    | delta n offset => exact NumberEntry.Whole.covers h hcount
  | bytes n offset =>
    rw [checkCount] at hcount
    split_ifs at hcount with hsame
    exact congrArg UInt32.toNat hsame
  | sorted n offset ordinals => exact NumberEntry.Whole.covers h hcount

end Entry

end ColumnStore.Column

namespace ColumnStore.SegmentReader

open Storage Storage.Reading Column

/-! ## All entries -/

/-- an entry that is put in its place is there, besides the ones that were there before -/
theorem perm_of_insert? {number : FieldNumber} {entry : Entry} {entries inserted : List (FieldNumber × Entry)}
    (h : insert? number entry entries = some inserted) : inserted.Perm ((number, entry) :: entries) := by
  induction entries generalizing inserted with
  | nil =>
    obtain rfl : [(number, entry)] = inserted := Option.some.inj h
    exact List.Perm.refl _
  | cons first entries ih =>
    rw [insert?] at h
    split_ifs at h with hlt heq
    · obtain rfl : (number, entry) :: first :: entries = inserted := Option.some.inj h
      exact List.Perm.refl _
    · cases hrest : insert? number entry entries with
      | none => simp [hrest] at h
      | some rest =>
        rw [hrest] at h
        obtain rfl : first :: rest = inserted := Option.some.inj h
        exact ((ih hrest).cons first).trans (List.Perm.swap _ _ _)

def AllCover (documents : UInt32) (entries : List (FieldNumber × Entry)) : Prop :=
  ∀ e ∈ entries, e.2.Covers documents.toNat

theorem checked_readEntriesWithin (documents : UInt32) (fuel : Nat) (entries : List (FieldNumber × Entry))
    (h : AllCover documents entries) : Checked (readEntriesWithin documents fuel entries) (AllCover documents) := by
  induction fuel generalizing entries with
  | zero => exact checked_pure h
  | succ fuel ih =>
    refine checked_varint32.bind fun number _ => ?_
    split_ifs
    · exact checked_pure h
    refine (Entry.checked_read number 0).bind fun entry hentry => ?_
    refine (Entry.checked_checking fun file => entry.checkCount_cases file number documents).bind fun _ hcount => ?_
    obtain ⟨file, hcount⟩ := hcount
    cases hinsert : insert? number entry entries with
    | none => exact checked_corrupt _
    | some inserted =>
      refine ih inserted fun e he => ?_
      rcases List.mem_cons.1 ((perm_of_insert? hinsert).mem_iff.1 he) with rfl | hold
      · exact hentry.covers hcount
      · exact h e hold

/-- **Reading the entries** of a segment ends with entries that cover its documents, or with a corrupt file. -/
theorem checked_readEntries (documents : UInt32) : Checked (readEntries documents) (AllCover documents) := by
  intro i
  exact checked_readEntriesWithin documents (i.remaining + 1) [] (by simp [AllCover]) i

end ColumnStore.SegmentReader
