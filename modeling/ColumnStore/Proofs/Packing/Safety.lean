/-
Packed payloads that come from nowhere in particular.

Nothing is known about the bytes here. Parsing ends with a reader that answers every index below its length, or with a
corrupt file; in between stand the checks of widths and sizes, and what a reader keeps of them:
- `FixedWidth.Reader.ofBytes_cases`, `guarded_get`: one value per index, below the power of the width;
- `Delta.Reader.checked_read` and `Monotone.Reader.checked_read`: as many blocks as the length asks for, each of a
  width that a word can hold (`Table.Sound`), and so an answer for every index.
-/
import ColumnStore.Proofs.Packing.FixedWidth
import ColumnStore.Proofs.Packing.Monotone
import ColumnStore.Proofs.Storage.Checked

namespace ColumnStore.Packing

open Storage Storage.Reading

/-! ## Fixed width -/

namespace FixedWidth.Reader

/-- the payload has a word for every value -/
structure Sound (r : Reader) (width length : Nat) : Prop where
  supported : isSupported width = true
  width_eq : r.width = width
  length_eq : r.length = length
  size_eq : r.data.size = byteLength length width

theorem ofBytes_cases (data : ByteArray) (width length : Nat) :
    (∃ r, ofBytes data width length = .ok r ∧ r.Sound width length) ∨
      ∃ cause, ofBytes data width length = .error (.corruption cause) := by
  by_cases hwidth : isSupported width = true
  · rw [ofBytes_eq _ hwidth]
    split_ifs with hshort
    · exact .inr ⟨_, rfl⟩
    · refine .inl ⟨_, rfl, hwidth, rfl, rfl, ?_⟩
      rw [ByteArray.size_extract]
      omega
  · rw [ofBytes, if_neg hwidth]
    exact .inr ⟨_, rfl⟩

theorem guarded_get {r : Reader} {width length index : Nat} (h : r.Sound width length) (hindex : index < length) :
    Guarded (r.get index) fun v => v.toNat < 2 ^ width := by
  obtain ⟨hwidth, rfl, -, hsize⟩ := h
  have hpos : 0 < perWord r.width ∧ r.width < 64 := by
    rcases supported_cases hwidth with hw | hw | hw | hw <;> rw [hw] <;> decide
  have hgroup : index / perWord r.width < (length + perWord r.width - 1) / perWord r.width := by
    rw [Nat.div_lt_iff_lt_mul hpos.1]
    have hup := Nat.lt_div_mul_add (a := length + perWord r.width - 1) hpos.1
    omega
  have hinside : index / perWord r.width * 8 + 8 ≤ r.data.size := by
    rw [hsize, byteLength]
    omega
  rw [get_eq hpos.1 hinside hpos.2]
  refine Guarded.ok ?_
  rw [toNat_lowBits (Nat.le_of_lt hpos.2)]
  exact Nat.mod_lt _ (by positivity)

end FixedWidth.Reader

/-! ## Blocks -/

namespace Table

variable {β : Type}

/-- as many blocks as `length` values of a table ask for, each with a width that a word can hold -/
structure Sound (blocks : Array β) (width : β → Nat) (size length : Nat) : Prop where
  pos : 0 < size
  count : blocks.size = blockCount size length
  width_le : ∀ b ∈ blocks, width b ≤ 64

theorem checked_read {readBlock : (number count : Nat) → Reading β} (width : β → Nat)
    {size : Nat} (hblock : ∀ number count, count ≤ size → Checked (readBlock number count) fun b => width b ≤ 64)
    (left number count : Nat) {parsed : Array β} (hparsed : ∀ b ∈ parsed, width b ≤ 64) :
    Checked (read readBlock size left number count parsed) fun blocks =>
      blocks.size = parsed.size + left ∧ ∀ b ∈ blocks, width b ≤ 64 := by
  induction left generalizing number count parsed with
  | zero => exact checked_pure ⟨rfl, hparsed⟩
  | succ left ih =>
    refine (hblock number (min size count) (Nat.min_le_left _ _)).bind fun block hwidth => ?_
    have hpushed : ∀ b ∈ parsed.push block, width b ≤ 64 := by
      intro b hb
      rcases Array.mem_push.1 hb with hold | rfl
      · exact hparsed b hold
      · exact hwidth
    refine (ih (number + 1) (count - size) hpushed).mono ?_
    rintro blocks ⟨hsize, hall⟩
    refine ⟨?_, hall⟩
    rw [hsize, Array.size_push]
    omega

/-- the block of an index below the length is there -/
theorem Sound.getElem? {blocks : Array β} {width : β → Nat} {size length index : Nat} (h : Sound blocks width size length)
    (hindex : index < length) : ∃ b ∈ blocks, blocks[index / size]? = some b := by
  have hplace : index / size < blocks.size := by
    rw [h.count, blockCount, Nat.div_lt_iff_lt_mul h.pos]
    have hup := Nat.lt_div_mul_add (a := length + size - 1) h.pos
    omega
  exact ⟨blocks[index / size], Array.getElem_mem hplace, Array.getElem?_eq_getElem hplace⟩

end Table

/-- blocks are counted where each of them holds something -/
theorem checked_countBlocks {size length : Nat} (h : tabledSize * blockCount size length ≤ memoryLimit) :
    Checked (countBlocks size length) fun count => 0 < size ∧ count = blockCount size length := by
  rcases Nat.eq_zero_or_pos size with rfl | hpos
  · exact checked_corrupt_bind _ _
  · rw [countBlocks_eq hpos h]
    exact checked_pure ⟨hpos, rfl⟩

/-- within a block a field of at most a word can be read at every place -/
theorem guarded_get_mod {data : ByteArray} {width size : Nat} (hwidth : width ≤ 64) (hpos : 0 < size)
    (hsize : size < 2 ^ 32) (index : Nat) : Guarded (get data width (index % size)) fun _ => True := by
  have hplace : index % size * width < 2 ^ 64 := by
    have hmod := Nat.mod_lt index hpos
    calc index % size * width ≤ 2 ^ 32 * 64 := Nat.mul_le_mul (by omega) hwidth
      _ < 2 ^ 64 := by decide
  rw [get_eq_field data hwidth hplace]
  trivial

namespace Delta.Reader

theorem checked_readBlock (number : Nat) {count : Nat} (hcount : count < 2 ^ 32) :
    Checked (readBlock number count) fun b => b.width ≤ 64 := by
  refine checked_byte.bind fun token _ => ?_
  dsimp only
  by_cases hwide : 64 < token.toNat / 2
  · rw [if_pos hwide]
    exact checked_corrupt_bind _ _
  · rw [if_neg hwide, packedLength?_eq hcount (Nat.not_lt.1 hwide), lift_ok]
    split_ifs
    · refine (checked_pure (P := fun _ => True) trivial).bind fun base _ => ?_
      exact (checked_bytes _).bind fun data _ => checked_pure (Nat.not_lt.1 hwide)
    · refine (checked_varint.map (Q := fun _ => True) fun _ _ => trivial).bind fun base _ => ?_
      exact (checked_bytes _).bind fun data _ => checked_pure (Nat.not_lt.1 hwide)

/-- **Parsing offsets in blocks** ends with a reader for every index, or with a corrupt file. -/
theorem checked_read {size length : Nat} (hsize : size < 2 ^ 32)
    (htable : tabledSize * blockCount size length ≤ memoryLimit) :
    Checked (read size length) fun r => r.size = size ∧ Table.Sound r.blocks Block.width size length := by
  refine (checked_countBlocks htable).bind fun count hcount => ?_
  obtain ⟨hpos, rfl⟩ := hcount
  rw [Table.delta_readBlocks_eq]
  have hblock : ∀ number count, count ≤ size → Checked (readBlock number count) fun b => b.width ≤ 64 :=
    fun number _ hcount => checked_readBlock number (Nat.lt_of_le_of_lt hcount hsize)
  refine (Table.checked_read Block.width hblock _ 0 length (by simp)).bind fun blocks h => ?_
  exact checked_pure ⟨rfl, hpos, by simpa using h.1, h.2⟩

theorem guarded_get {r : Reader} {size length index : Nat} (hr : r.size = size) (hsize : size < 2 ^ 32)
    (h : Table.Sound r.blocks Block.width size length) (hindex : index < length) :
    Guarded (r.get index) fun _ => True := by
  subst hr
  obtain ⟨b, hb, hblock⟩ := h.getElem? hindex
  rw [get, Strict.divMod_eq h.pos]
  simp only [bind, Except.bind, hblock]
  exact (guarded_get_mod (h.width_le b hb) h.pos hsize index).bind fun _ _ => trivial

end Delta.Reader

namespace Monotone.Reader

theorem checked_readBlock (number : Nat) {count : Nat} (hcount : count < 2 ^ 32) :
    Checked (readBlock number count) fun b => b.width ≤ 64 := by
  refine checked_varint.bind fun w _ => ?_
  refine checked_uint32.bind fun slope _ => ?_
  refine checked_byte.bind fun token _ => ?_
  dsimp only
  split_ifs with hwide
  · exact checked_corrupt_bind _ _
  · rw [packedLength?_eq hcount (Nat.not_lt.1 hwide), lift_ok]
    exact (checked_bytes _).bind fun data _ => checked_pure (Nat.not_lt.1 hwide)

/-- **Parsing a rising sequence** ends with a reader for every index, or with a corrupt file. -/
theorem checked_read {size length : Nat} (hsize : size < 2 ^ 32)
    (htable : tabledSize * blockCount size length ≤ memoryLimit) :
    Checked (read size length) fun r =>
      r.size = size ∧ r.length = length ∧ Table.Sound r.blocks Block.width size length := by
  refine (checked_countBlocks htable).bind fun count hcount => ?_
  obtain ⟨hpos, rfl⟩ := hcount
  rw [Table.monotone_readBlocks_eq]
  have hblock : ∀ number count, count ≤ size → Checked (readBlock number count) fun b => b.width ≤ 64 :=
    fun number _ hcount => checked_readBlock number (Nat.lt_of_le_of_lt hcount hsize)
  refine (Table.checked_read Block.width hblock _ 0 length (by simp)).bind fun blocks h => ?_
  exact checked_pure ⟨rfl, rfl, hpos, by simpa using h.1, h.2⟩

theorem guarded_get {r : Reader} {size length index : Nat} (hr : r.size = size) (hsize : size < 2 ^ 32)
    (h : Table.Sound r.blocks Block.width size length) (hindex : index < length) :
    Guarded (r.get index) fun _ => True := by
  subst hr
  obtain ⟨b, hb, hblock⟩ := h.getElem? hindex
  rw [get, Strict.divMod_eq h.pos]
  simp only [bind, Except.bind, hblock]
  exact (guarded_get_mod (h.width_le b hb) h.pos hsize index).bind fun _ _ => trivial

end Monotone.Reader

end ColumnStore.Packing
