/-
Where a call leaves the cursor of an input.

A `Move` is one call on an input: a value is read, or the cursor is set. Whatever is called, the file stays the same and
the cursor stays within it (`Move.stays`, `Input.stays_after`), also when the call fails. A failing call leaves the cursor
where it was if it looks at all of its bytes before it takes them (`Steady`). A varint is taken byte by byte, and a text or
a narrow varint starts with one (`Advances`), so these fail behind the bytes they have taken: after a failure
the cursor has moved unless no byte was left (`failed_move_stays_iff`).
-/
import ColumnStore.Proofs.Storage.Checked
import ColumnStore.Proofs.Storage.Items
import ColumnStore.Proofs.Storage.Varint

namespace ColumnStore.Storage

/-! ## Where a reading leaves the cursor -/

/-- the same file, with the cursor in it and not before where it was -/
structure Input.Onward (i j : Input) : Prop where
  name : j.name = i.name
  data : j.data = i.data
  forward : i.position ≤ j.position
  inside : j.position ≤ i.data.size

theorem Input.Onward.refl {i : Input} (hin : i.position ≤ i.data.size) : i.Onward i := ⟨rfl, rfl, le_rfl, hin⟩

theorem Input.Onward.trans {i j k : Input} (hij : i.Onward j) (hjk : j.Onward k) : i.Onward k where
  name := hjk.name.trans hij.name
  data := hjk.data.trans hij.data
  forward := hij.forward.trans hjk.forward
  inside := hij.data ▸ hjk.inside

namespace Reading

variable {α β : Type} {r : Reading α} {f : α → Reading β} {i j : Input} {a : α} {e : Error}

/-- the input that a reading leaves, whether it answers or fails -/
def leave (r : Reading α) (i : Input) : Input :=
  match r i with
  | .ok _ j => j
  | .error _ j => j

theorem leave_ok (h : r i = .ok a j) : r.leave i = j := by rw [leave, h]

theorem leave_error (h : r i = .error e j) : r.leave i = j := by rw [leave, h]

/-- from within a file, the cursor is left within it and not before where it was -/
def Onward (r : Reading α) : Prop := ∀ i : Input, i.position ≤ i.data.size → i.Onward (r.leave i)

/-- while there are bytes left the cursor is moved, even if the reading fails -/
def Advances (r : Reading α) : Prop := ∀ i : Input, i.position < i.data.size → i.position < (r.leave i).position

/-- a reading that fails leaves the input as it was -/
def Steady (r : Reading α) : Prop := ∀ i e j, r i = .error e j → j = i

theorem onward_pure (a : α) : Onward (pure a) := fun _ hin => .refl hin

theorem onward_corrupt (cause : Input → Corruption) : Onward (corrupt cause : Reading α) := fun _ hin => .refl hin

theorem Onward.bind (hr : Onward r) (hf : ∀ a, Onward (f a)) : Onward (r >>= f) := by
  intro i hin
  have hfirst := hr i hin
  cases hri : r i with
  | ok a j =>
    rw [leave_ok hri] at hfirst
    rw [leave, bind_ok hri]
    exact hfirst.trans (hf a j (hfirst.data ▸ hfirst.inside))
  | error e j =>
    rw [leave_error hri] at hfirst
    rwa [leave_error (bind_error hri)]

theorem Onward.map {g : α → β} (hr : Onward r) : Onward (r >>= fun a => pure (g a)) := hr.bind fun _ => onward_pure _

/-- what comes next does not take the cursor back -/
theorem Advances.bind (hr : Advances r) (hon : Onward r) (hf : ∀ a, Onward (f a)) : Advances (r >>= f) := by
  intro i hlt
  have hfirst := hr i hlt
  have hinside := hon i hlt.le
  cases hri : r i with
  | ok a j =>
    rw [leave_ok hri] at hfirst hinside
    rw [leave, bind_ok hri]
    exact lt_of_lt_of_le hfirst (hf a j (hinside.data ▸ hinside.inside)).forward
  | error e j =>
    rw [leave_error hri] at hfirst
    rwa [leave_error (bind_error hri)]

theorem Advances.map {g : α → β} (hr : Advances r) (hon : Onward r) : Advances (r >>= fun a => pure (g a)) :=
  hr.bind hon fun _ => onward_pure _

/-- nothing can fail after the last byte was taken -/
theorem Steady.map {g : α → β} (hr : Steady r) : Steady (r >>= fun a => pure (g a)) := by
  intro i e j h
  cases hri : r i with
  | ok a k =>
    rw [bind_ok hri] at h
    cases h
  | error e' k =>
    rw [bind_error hri] at h
    obtain ⟨rfl, rfl⟩ : e' = e ∧ k = j := by simpa using h
    exact hr i e' k hri

/-! ## Values -/

theorem onward_byte : Onward byte := by
  intro i hin
  unfold leave byte
  by_cases h : i.position < i.data.size
  · rw [dif_pos h]
    exact ⟨rfl, rfl, Nat.le_succ _, h⟩
  · rw [dif_neg h]
    exact .refl hin

theorem steady_byte : Steady byte := by
  intro i e j h
  unfold byte at h
  split_ifs at h
  cases h
  rfl

theorem advances_byte : Advances byte := by
  intro i hlt
  unfold leave byte
  rw [dif_pos hlt]
  exact Nat.lt_succ_self _

theorem onward_bytes (count : Nat) : Onward (bytes count) := by
  intro i hin
  unfold leave
  rw [bytes_eq]
  by_cases hlimit : addressLimit ≤ i.position + count
  · rw [if_pos hlimit]
    exact .refl hin
  · rw [if_neg hlimit]
    by_cases hend : i.data.size < i.position + count
    · rw [if_pos hend]
      exact .refl hin
    · rw [if_neg hend]
      exact ⟨rfl, rfl, Nat.le_add_right _ _, not_lt.1 hend⟩

theorem steady_bytes (count : Nat) : Steady (bytes count) := by
  intro i e j h
  rw [bytes_eq] at h
  split_ifs at h <;> cases h <;> rfl

theorem onward_littleEndian (width : Nat) : Onward (littleEndian width) := (onward_bytes width).map

theorem steady_littleEndian (width : Nat) : Steady (littleEndian width) := (steady_bytes width).map

theorem onward_varintFrom {groups : Nat} {shift : UInt64} (h : Fits groups shift) (acc : UInt64) :
    Onward (varintFrom groups shift acc) := by
  induction groups generalizing shift acc with
  | zero => exact onward_corrupt _
  | succ groups ih =>
    rw [varintFrom_succ h]
    refine onward_byte.bind fun b => ?_
    split_ifs
    · exact ih h.next _
    · exact onward_pure _

theorem onward_varint : Onward varint := onward_varintFrom fits_maxGroups 0

/-- a varint takes its first byte before anything of it can be wrong -/
theorem advances_varint : Advances varint := by
  rw [varint, Varint.maxGroups, varintFrom_succ fits_maxGroups]
  refine advances_byte.bind onward_byte fun b => ?_
  split_ifs
  · exact onward_varintFrom fits_maxGroups.next _
  · exact onward_pure _

theorem onward_varint32_last (value : UInt64) :
    Onward (if value.toNat < 2 ^ 32 then pure value.toUInt32
      else corrupt fun i => .varintTooWide i.name value i.position) := by
  split_ifs
  · exact onward_pure _
  · exact onward_corrupt _

theorem onward_varint32 : Onward varint32 := onward_varint.bind onward_varint32_last

theorem advances_varint32 : Advances varint32 := advances_varint.bind onward_varint onward_varint32_last

theorem onward_text_last (length : UInt32) :
    Onward (bytes length.toNat >>= fun bs =>
      match Text.Utf8.decode (Bytes.ofArray bs) with
      | .ok text => pure text
      | .error fault => corrupt fun i => .invalidUtf8 i.name fault) := by
  refine (onward_bytes length.toNat).bind fun bs => ?_
  cases Text.Utf8.decode (Bytes.ofArray bs) with
  | ok text => exact onward_pure _
  | error fault => exact onward_corrupt _

theorem onward_text : Onward text := onward_varint32.bind onward_text_last

theorem advances_text : Advances text := advances_varint32.bind onward_varint32 onward_text_last

end Reading

namespace Kind

open Reading

/-- the bytes of a value are looked at as a whole before they are taken -/
def Single : Kind → Prop
  | .varint32 | .varint | .text => False
  | _ => True

theorem onward_read (kind : Kind) : Onward kind.read := by
  cases kind with
  | byte => exact onward_byte.map
  | bytes count => exact (onward_bytes count).map
  | uint32 => exact (onward_littleEndian 4).map.map
  | int64 => exact (onward_littleEndian 8).map.map
  | uint128 => exact (onward_littleEndian 16).map.map
  | varint32 => exact onward_varint32.map
  | varint => exact onward_varint.map
  | text => exact onward_text.map

theorem steady_read {kind : Kind} (h : kind.Single) : Steady kind.read := by
  cases kind with
  | byte => exact steady_byte.map
  | bytes count => exact (steady_bytes count).map
  | uint32 => exact (steady_littleEndian 4).map.map
  | int64 => exact (steady_littleEndian 8).map.map
  | uint128 => exact (steady_littleEndian 16).map.map
  | varint32 | varint | text => exact h.elim

theorem advances_read {kind : Kind} (h : ¬ kind.Single) : Advances kind.read := by
  cases kind with
  | varint32 => exact advances_varint32.map onward_varint32
  | varint => exact advances_varint.map onward_varint
  | text => exact advances_text.map onward_text
  | byte | bytes | uint32 | int64 | uint128 => exact absurd trivial h

theorem checked_read (kind : Kind) : Checked kind.read fun _ => True := by
  cases kind with
  | byte => exact checked_byte.bind fun _ _ => checked_pure trivial
  | bytes count => exact (checked_bytes count).bind fun _ _ => checked_pure trivial
  | uint32 => exact checked_uint32.bind fun _ _ => checked_pure trivial
  | int64 => exact checked_int64.bind fun _ _ => checked_pure trivial
  | uint128 => exact checked_uint128.bind fun _ _ => checked_pure trivial
  | varint32 => exact checked_varint32.bind fun _ _ => checked_pure trivial
  | varint => exact checked_varint.bind fun _ _ => checked_pure trivial
  | text => exact checked_text.bind fun _ _ => checked_pure trivial

end Kind

/-! ## Moves -/

/-- one call on an input: a value is read, or the cursor is set -/
inductive Move where
  | read (kind : Kind)
  | seek (place : Nat)

namespace Move

open Reading

def run : Move → Reading Unit
  | .read kind => do let _ ← kind.read
  | .seek place => Reading.seek place

/-- the call takes all of its bytes at once, or none -/
def Single : Move → Prop
  | .read kind => kind.Single
  | .seek _ => True

end Move

/-- the input after some calls, of which any may fail -/
def Input.after (i : Input) (moves : List Move) : Input := moves.foldl (fun i m => m.run.leave i) i

/-- the same file, and the cursor in it -/
structure Input.Stays (i j : Input) : Prop where
  name : j.name = i.name
  data : j.data = i.data
  inside : j.position ≤ i.data.size

variable {i j : Input}

theorem Input.Stays.trans {k : Input} (hij : i.Stays j) (hjk : j.Stays k) : i.Stays k :=
  ⟨hjk.name.trans hij.name, hjk.data.trans hij.data, hij.data ▸ hjk.inside⟩

theorem Input.Onward.stays (h : i.Onward j) : i.Stays j := ⟨h.name, h.data, h.inside⟩

theorem Reading.stays_seek (place : Nat) (hin : i.position ≤ i.data.size) : i.Stays ((seek place).leave i) := by
  unfold leave seek
  by_cases h : i.data.size < place
  · rw [if_pos h]
    exact ⟨rfl, rfl, hin⟩
  · rw [if_neg h]
    exact ⟨rfl, rfl, not_lt.1 h⟩

theorem Reading.steady_seek (place : Nat) : Steady (seek place) := by
  intro i e j h
  unfold seek at h
  split_ifs at h
  cases h
  rfl

/-- a call keeps the file, and the cursor in it -/
theorem Move.stays (m : Move) (hin : i.position ≤ i.data.size) : i.Stays (m.run.leave i) := by
  cases m with
  | read kind => exact (kind.onward_read.map i hin).stays
  | seek place => exact Reading.stays_seek place hin

/-- so do any calls, one after the other -/
theorem Input.stays_after (hin : i.position ≤ i.data.size) (moves : List Move) : i.Stays (i.after moves) := by
  induction moves generalizing i with
  | nil => exact ⟨rfl, rfl, hin⟩
  | cons m moves ih =>
    have hfirst := m.stays hin
    exact hfirst.trans (ih (hfirst.data ▸ hfirst.inside))

theorem Move.corruption {m : Move} {e : Error} (h : m.run i = .error e j) : e.IsCorruption := by
  have hchecked : Reading.Checked m.run fun _ => True := by
    cases m with
    | read kind => exact kind.checked_read.bind fun _ _ => Reading.checked_pure trivial
    | seek place => exact Reading.checked_seek place
  have hi := hchecked i
  rwa [h] at hi

/-- **Where a failed call leaves the cursor.** From within a file, no calls lead out of it, whether they fail or not. A call
that fails says that the file is corrupt, and breaks nothing else. The cursor is then where it was before if the call
takes its bytes at once, or if none were left; a varint or a text that fails leaves it behind the bytes it has taken. -/
theorem failed_move_stays_iff (i : Input) (hin : i.position ≤ i.data.size) :
    (∀ moves : List Move, i.Stays (i.after moves)) ∧
    ∀ (m : Move) (e : Error) (j : Input), m.run i = .error e j →
      e.IsCorruption ∧ (j.position = i.position ↔ m.Single ∨ i.position = i.data.size) := by
  refine ⟨Input.stays_after hin, fun m e j h => ⟨Move.corruption h, ?_⟩⟩
  cases m with
  | seek place => exact ⟨fun _ => .inl trivial, fun _ => by rw [Reading.steady_seek place i e j h]⟩
  | read kind =>
    by_cases hsingle : kind.Single
    · exact ⟨fun _ => .inl hsingle, fun _ => by rw [(Kind.steady_read hsingle).map i e j h]⟩
    · have honward : Reading.Onward (Move.read kind).run := kind.onward_read.map
      have hadvances : Reading.Advances (Move.read kind).run := (Kind.advances_read hsingle).map kind.onward_read
      have hleave : (Move.read kind).run.leave i = j := Reading.leave_error h
      obtain ⟨-, -, hforward, hinside⟩ := hleave ▸ honward i hin
      constructor
      · intro hstill
        refine .inr (le_antisymm hin (not_lt.1 fun hleft => ?_))
        have hmoved := hadvances i hleft
        rw [hleave, hstill] at hmoved
        exact lt_irrefl _ hmoved
      · rintro (h | hend)
        · exact absurd h hsingle
        · omega

/-- a varint that the end of the file cuts off takes the byte there is with it, and an integer takes none of it -/
theorem failed_move_stays_iff_unfinished :
    let i : Input := { name := "tiny", data := Bytes.toByteArray [0x80] }
    i.position ≤ i.data.size ∧ (i.after [.read .varint, .read .text, .seek 3]).position ≤ i.data.size ∧
      (∃ e j, (Move.read .varint).run i = .error e j ∧ e.IsCorruption ∧ j.position = 1 ∧ j.position ≠ i.position) ∧
      ∃ e j, (Move.read .uint32).run i = .error e j ∧ e.IsCorruption ∧ j.position = i.position := by
  intro i
  have hin : i.position ≤ i.data.size := by decide
  obtain ⟨hruns, hfails⟩ := failed_move_stays_iff i hin
  have hall : ∀ b ∈ ([0x80] : Bytes), Varint.continues b = true := List.forall_mem_singleton.2 rfl
  have hvarint : (Move.read .varint).run i = .error (i.pastEnd 2) (i.skip 1) :=
    Reading.bind_error (Reading.bind_error (Reading.varint_unfinished hin (by decide) hall))
  have hint : (Move.read .uint32).run i = .error (i.pastEnd 4) i := rfl
  obtain ⟨hcorrupt, hmoved⟩ := hfails _ _ _ hvarint
  obtain ⟨hcorrupt', hstill⟩ := hfails _ _ _ hint
  refine ⟨hin, (hruns _).inside, ⟨_, _, hvarint, hcorrupt, rfl, ?_⟩, _, _, hint, hcorrupt', hstill.2 (.inl trivial)⟩
  rw [ne_eq, hmoved]
  rintro (h | h)
  · exact h
  · exact absurd h (by decide)

end ColumnStore.Storage
