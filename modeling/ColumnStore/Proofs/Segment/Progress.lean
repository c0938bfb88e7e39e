/-
Reading the entries of a segment comes to an end by itself.

`readEntriesWithin` counts down a fuel, one for each entry. Every entry takes at least one byte (`Consumes`), so with
more fuel than bytes ahead the fuel never runs out: more of it changes nothing (`readEntriesWithin_enough`), and
`readEntries`, which starts with one more than the bytes ahead, reads what an unbounded loop would read.
-/
import ColumnStore.Proofs.Column.Plan
import ColumnStore.Segment.Reader

namespace ColumnStore

open Storage Column

namespace Storage.Reading

/-! ## Bytes taken -/

/-- a reading that succeeds leaves at least `count` bytes fewer ahead -/
def Consumes {α : Type} (r : Reading α) (count : Nat) : Prop :=
  ∀ i a j, r i = .ok a j → j.remaining + count ≤ i.remaining

variable {α β : Type} {r : Reading α} {f : α → Reading β} {m n : Nat}

theorem Consumes.bind (hr : Consumes r m) (hf : ∀ a, Consumes (f a) n) : Consumes (r >>= f) (m + n) := by
  intro i b k h
  cases hfirst : r i with
  | error e j =>
    rw [bind_error hfirst] at h
    simp at h
  | ok a j =>
    rw [bind_ok hfirst] at h
    have hm := hr i a j hfirst
    have hn := hf a j b k h
    omega

/-- whatever follows, at least the bytes of the first step are taken -/
theorem Consumes.first (hr : Consumes r m) (hf : ∀ a, Consumes (f a) 0) : Consumes (r >>= f) m := hr.bind hf

/-- whatever comes first, no byte is given back -/
theorem Consumes.zero (hr : Consumes r m) : Consumes r 0 := by
  intro i a j h
  have := hr i a j h
  omega

theorem consumes_pure (a : α) : Consumes (pure a) 0 := by
  rintro i b j h
  obtain ⟨rfl, rfl⟩ : a = b ∧ i = j := by simpa [pure, EStateM.pure] using h
  omega

theorem consumes_corrupt (cause : Input → Corruption) : Consumes (corrupt cause : Reading α) n := by
  intro i a j h
  simp [corrupt] at h

theorem consumes_corrupt_bind (cause : Input → Corruption) : Consumes (corrupt cause >>= f) n := by
  intro i b j h
  simp [corrupt, bind, EStateM.bind] at h

theorem consumes_bytes (count : Nat) : Consumes (bytes count) 0 := by
  intro i a j h
  rw [bytes_eq] at h
  split_ifs at h
  obtain ⟨-, rfl⟩ : _ ∧ { i with position := i.position + count } = j := by simpa using h
  unfold Input.remaining
  dsimp only
  omega

theorem consumes_byte : Consumes byte 1 := by
  intro i a j h
  unfold byte at h
  split_ifs at h with hinside
  obtain ⟨-, rfl⟩ : _ ∧ { i with position := i.position + 1 } = j := by simpa using h
  unfold Input.remaining
  dsimp only
  omega

theorem consumes_int64 : Consumes int64 0 :=
  ((consumes_bytes 8).first fun _ => consumes_pure _).first fun _ => consumes_pure _

theorem consumes_varintFrom {groups : Nat} {shift : UInt64} (h : Fits groups shift) (acc : UInt64) :
    Consumes (varintFrom groups shift acc) 1 := by
  induction groups generalizing shift acc with
  | zero => exact consumes_corrupt _
  | succ groups ih =>
    rw [varintFrom_succ h]
    refine consumes_byte.first fun b => ?_
    split_ifs
    · exact (ih h.next _).zero
    · exact consumes_pure _

theorem consumes_varint32 : Consumes varint32 1 := by
  refine (consumes_varintFrom fits_maxGroups 0).first fun value => ?_
  split_ifs
  · exact consumes_pure _
  · exact consumes_corrupt _

end Storage.Reading

open Storage.Reading

namespace Column.Entry

/-! ## Entries -/

theorem consumes_readOffset : Consumes readOffset 0 := by
  refine consumes_int64.first fun offset => ?_
  split_ifs
  · exact consumes_corrupt_bind _
  · exact consumes_pure _

theorem consumes_readNested {field : FieldNumber} {readEntry : Reading Entry} (h : Consumes readEntry 0) :
    Consumes (readNested field readEntry) 0 := by
  refine consumes_varint32.zero.first fun label => ?_
  split_ifs
  · exact consumes_corrupt_bind _
  · refine h.first fun entry => ?_
    cases entry with
    | numbers entry => exact consumes_pure _
    | bytes n offset => exact consumes_corrupt _
    | sorted n offset ordinals => exact consumes_corrupt _

theorem consumes_checking (check : (file : String) → Except Error Unit) : Consumes (checking check) 0 := by
  intro i a j h
  unfold checking at h
  split at h
  · obtain rfl : i = j := by simpa using h
    omega
  · simp at h

theorem consumes_readBody {field : FieldNumber} {levels : Nat} (hnested : Consumes (readLevels field levels) 0)
    (count : UInt32) (layout : Layout) : Consumes (readBody field levels count layout) 0 := by
  cases layout with
  | const => exact consumes_int64.first fun _ => consumes_pure _
  | uncompressed => exact consumes_readOffset.first fun _ => consumes_pure _
  | table => exact consumes_readOffset.first fun _ => consumes_pure _
  | delta => exact consumes_readOffset.first fun _ => consumes_pure _
  | bytes => exact consumes_readOffset.first fun _ => consumes_pure _
  | indirect =>
    refine consumes_readOffset.first fun _ => (consumes_readNested hnested).first fun values => ?_
    exact (consumes_checking _).first fun _ => consumes_pure _
  | sorted => exact consumes_readOffset.first fun _ => (consumes_readNested hnested).first fun _ => consumes_pure _

theorem consumes_readLevels (field : FieldNumber) (levels : Nat) : Consumes (readLevels field levels) 0 := by
  induction levels with
  | zero => exact consumes_corrupt _
  | succ levels ih =>
    rw [readLevels_succ]
    refine consumes_varint32.zero.first fun count => consumes_byte.zero.first fun tag => ?_
    cases Layout.ofTag? tag with
    | none => exact consumes_corrupt _
    | some layout => exact consumes_readBody ih count layout

end Column.Entry

namespace SegmentReader

/-! ## Fuel -/

/-- **The fuel lasts.** With more fuel than bytes ahead, still more of it changes nothing. -/
theorem readEntriesWithin_enough (documents : UInt32) {fuel : Nat} (more : Nat) (entries : List (FieldNumber × Entry))
    (i : Input) (h : i.remaining < fuel) :
    readEntriesWithin documents (fuel + more) entries i = readEntriesWithin documents fuel entries i := by
  induction fuel generalizing entries i with
  | zero => omega
  | succ fuel ih =>
    rw [Nat.add_right_comm, readEntriesWithin, readEntriesWithin]
    cases hnumber : Reading.varint32 i with
    | error e j => rw [bind_error hnumber, bind_error hnumber]
    | ok number j =>
      rw [bind_ok hnumber, bind_ok hnumber]
      have hfirst := consumes_varint32 i number j hnumber
      by_cases hend : number = SegmentWriter.endMark
      · rw [if_pos hend, if_pos hend]
      · rw [if_neg hend, if_neg hend]
        cases hentry : Entry.read number 0 j with
        | error e k => rw [bind_error hentry, bind_error hentry]
        | ok entry k =>
          rw [bind_ok hentry, bind_ok hentry]
          have hsecond := Entry.consumes_readLevels number _ j entry k hentry
          cases hcheck : Entry.checking (fun file => entry.checkCount file number documents) k with
          | error e l => rw [bind_error hcheck, bind_error hcheck]
          | ok u l =>
            rw [bind_ok hcheck, bind_ok hcheck]
            have hthird := Entry.consumes_checking _ k u l hcheck
            cases insert? number entry entries with
            | none => rfl
            | some inserted => exact ih inserted l (by omega)

/-- the entries are read as with any greater fuel -/
theorem readEntries_eq (documents : UInt32) (i : Input) (more : Nat) :
    readEntries documents i = readEntriesWithin documents (i.remaining + 1 + more) [] i :=
  (readEntriesWithin_enough documents more [] i (Nat.lt_succ_self _)).symm

end SegmentReader

end ColumnStore
