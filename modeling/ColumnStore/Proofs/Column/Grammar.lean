/-
Entries and the bytes that they are parsed from.

`Entry.Written field levels entry bs` is the grammar of entries: an entry is its count, the tag of its layout, and what the
layout asks for; one that nests another goes on with the number of its column and the nested entry, which is one of
numbers and has a level less. Parsing is exact: what is parsed is written in the bytes that were taken (`sound_readLevels`),
and what is written is parsed (`takes_written`). So everything that is known of a parsed entry is read off the grammar:
- `Written.depth_le`: it nests as deep as there are levels;
- `Written.balanced`: a sparse column counts just what is nested in it;
- `Written.positive`: every offset comes from a signed word that is not negative.

The checks of an entry are told by all its nodes: `checkOffsets_eq_ok_iff` by its offsets, `checkCount_counts` by the counts
of its columns. Main result: `entries_parsed`, with `within_readLevels` for the bytes that parsing takes, also when it fails.
-/
import ColumnStore.Proofs.Bytes.Values
import ColumnStore.Proofs.Column.Numbers
import ColumnStore.Proofs.Column.Parsing
import ColumnStore.Proofs.Storage.Grammar

namespace ColumnStore.Column

open Storage Storage.Reading

/-! ## Nodes of an entry -/

namespace NumberEntry

def offsets : NumberEntry → List UInt64
  | const _ => []
  | uncompressed _ offset | table _ offset | delta _ offset => [offset]
  | indirect _ offset values => offset :: values.offsets

/-- a sparse column counts what is nested in it, unless that is not counted, and so does every column nested in it -/
def Balanced : NumberEntry → Prop
  | indirect count _ values => (values.layout = .const ∨ values.count? = some count) ∧ values.Balanced
  | _ => True

end NumberEntry

namespace Entry

def depth : Entry → Nat
  | numbers entry => entry.depth
  | bytes .. => 1
  | sorted _ _ ordinals => ordinals.depth + 1

def offsets : Entry → List UInt64
  | numbers entry => entry.offsets
  | bytes _ offset => [offset]
  | sorted _ offset ordinals => offset :: ordinals.offsets

/-- sparse columns anywhere in the entry count what is nested in them -/
def Balanced : Entry → Prop
  | numbers entry => entry.Balanced
  | bytes .. => True
  | sorted _ _ ordinals => ordinals.Balanced

/-- the column of numbers that an entry is, or that holds its ordinals -/
def stream? : Entry → Option NumberEntry
  | numbers entry => some entry
  | bytes .. => none
  | sorted _ _ ordinals => some ordinals

/-- an entry counts the documents of its segment: all of them, or at most all of them in a sparse column; sparse ordinals
are counted like dense ones -/
structure Counts (documents : UInt32) (entry : Entry) : Prop where
  dense : ∀ stream, entry.stream? = some stream → stream.layout ≠ .const → stream.layout ≠ .indirect →
    stream.count? = some documents
  bytes : ∀ count offset, entry = .bytes count offset → count = documents
  sparse : ∀ count offset values, entry.stream? = some (.indirect count offset values) → count ≤ documents
  ordinals : ∀ size place ordinals, entry = .sorted size place ordinals → ordinals.layout = .indirect →
    ordinals.count? = some documents

/-! ## The grammar -/

/-- these bytes are an offset: a signed word, the lowest byte first, that is not negative -/
structure Place (offset : UInt64) (bs : Bytes) : Prop where
  length : bs.length = 8
  value : Bytes.value bs = offset.toNat
  positive : offset.toNat < 2 ^ 63

/-- these bytes are the entry of a column, with at most `levels` levels of entries -/
inductive Written (field : FieldNumber) : (levels : Nat) → Entry → Bytes → Prop where
  | const {levels : Nat} {count : UInt32} {value : Int64} {cs vs : Bytes} (hcount : Word32 count cs)
      (hvalue : Word64 value vs) :
      Written field (levels + 1) (.numbers (.const value)) (cs ++ ([Layout.const.tag] ++ vs))
  | uncompressed {levels : Nat} {count : UInt32} {offset : UInt64} {cs os : Bytes} (hcount : Word32 count cs)
      (hoffset : Place offset os) :
      Written field (levels + 1) (.numbers (.uncompressed count offset)) (cs ++ ([Layout.uncompressed.tag] ++ os))
  | table {levels : Nat} {count : UInt32} {offset : UInt64} {cs os : Bytes} (hcount : Word32 count cs)
      (hoffset : Place offset os) :
      Written field (levels + 1) (.numbers (.table count offset)) (cs ++ ([Layout.table.tag] ++ os))
  | delta {levels : Nat} {count : UInt32} {offset : UInt64} {cs os : Bytes} (hcount : Word32 count cs)
      (hoffset : Place offset os) :
      Written field (levels + 1) (.numbers (.delta count offset)) (cs ++ ([Layout.delta.tag] ++ os))
  | indirect {levels : Nat} {count : UInt32} {offset : UInt64} {values : NumberEntry} {cs os ls bs : Bytes}
      (hcount : Word32 count cs) (hoffset : Place offset os) (hlabel : Word32 field ls)
      (hnested : Written field levels (.numbers values) bs)
      (hsame : values.layout = .const ∨ values.count? = some count) :
      Written field (levels + 1) (.numbers (.indirect count offset values))
        (cs ++ ([Layout.indirect.tag] ++ (os ++ (ls ++ bs))))
  | bytes {levels : Nat} {count : UInt32} {offset : UInt64} {cs os : Bytes} (hcount : Word32 count cs)
      (hoffset : Place offset os) :
      Written field (levels + 1) (.bytes count offset) (cs ++ ([Layout.bytes.tag] ++ os))
  | sorted {levels : Nat} {count : UInt32} {offset : UInt64} {ordinals : NumberEntry} {cs os ls bs : Bytes}
      (hcount : Word32 count cs) (hoffset : Place offset os) (hlabel : Word32 field ls)
      (hnested : Written field levels (.numbers ordinals) bs) :
      Written field (levels + 1) (.sorted count offset ordinals)
        (cs ++ ([Layout.sorted.tag] ++ (os ++ (ls ++ bs))))

variable {field : FieldNumber} {levels : Nat} {entry : Entry} {bs : Bytes}

theorem Written.depth_le (h : Written field levels entry bs) : entry.depth ≤ levels := by
  induction h with
  | indirect _ _ _ _ _ ih => exact Nat.succ_le_succ ih
  | sorted _ _ _ _ ih => exact Nat.succ_le_succ ih
  | _ => exact Nat.succ_le_succ (Nat.zero_le _)

theorem Written.balanced (h : Written field levels entry bs) : entry.Balanced := by
  induction h with
  | indirect _ _ _ _ hsame ih => exact ⟨hsame, ih⟩
  | sorted _ _ _ _ ih => exact ih
  | _ => trivial

/-- offsets are never negative as the signed words that are stored -/
theorem Written.positive (h : Written field levels entry bs) : ∀ offset ∈ entry.offsets, offset.toNat < 2 ^ 63 := by
  induction h with
  | const => simp [offsets, NumberEntry.offsets]
  | indirect _ hoffset _ _ _ ih => exact List.forall_mem_cons.2 ⟨hoffset.positive, ih⟩
  | sorted _ hoffset _ _ ih => exact List.forall_mem_cons.2 ⟨hoffset.positive, ih⟩
  | uncompressed _ hoffset => exact List.forall_mem_singleton.2 hoffset.positive
  | table _ hoffset => exact List.forall_mem_singleton.2 hoffset.positive
  | delta _ hoffset => exact List.forall_mem_singleton.2 hoffset.positive
  | bytes _ hoffset => exact List.forall_mem_singleton.2 hoffset.positive

/-! ## What is parsed is written -/

theorem toInt64_neg_iff (w : UInt64) : w.toInt64 < 0 ↔ 2 ^ 63 ≤ w.toNat := by
  have hlt := w.toNat_lt
  have hint : w.toInt64.toInt = if 2 * w.toNat < 2 ^ 64 then (w.toNat : Int) else w.toNat - (2 ^ 64 : Nat) :=
    BitVec.toInt_eq_toNat_cond w.toBitVec
  rw [Int64.lt_iff_toInt_lt, hint, Int64.toInt_zero]
  split_ifs <;> omega

theorem sound_readOffset : Sound readOffset Place := by
  refine sound_int64.bind fun v bs hv => ?_
  obtain ⟨hlength, rfl⟩ := hv
  split_ifs with hneg
  · exact sound_corrupt_bind _ _
  · refine sound_pure ?_
    rw [List.append_nil]
    rw [toInt64_neg_iff] at hneg
    have hvalue : (UInt64.ofNat (Bytes.value bs)).toNat = Bytes.value bs := by
      have hlt := Bytes.value_lt bs
      rw [hlength] at hlt
      rw [UInt64.toNat_ofNat', Nat.mod_eq_of_lt (by omega)]
    rw [UInt64.toUInt64_toInt64]
    exact ⟨hlength, hvalue.symm, not_le.1 hneg⟩

theorem sound_readNested (h : Sound (readLevels field levels) (Written field levels)) :
    Sound (readNested field (readLevels field levels)) fun values bs =>
      ∃ ls ns, bs = ls ++ ns ∧ Word32 field ls ∧ Written field levels (.numbers values) ns := by
  refine sound_varint32.bind fun label ls hls => ?_
  split_ifs with hlabel
  · exact sound_corrupt_bind _ _
  · obtain rfl : label = field := not_not.1 hlabel
    refine h.bind fun nested ns hns => ?_
    cases nested with
    | numbers values =>
      refine sound_pure ⟨ls, ns, ?_, hls, hns⟩
      rw [List.append_nil]
    | bytes count offset => exact sound_corrupt _
    | sorted count offset ordinals => exact sound_corrupt _


/-- a tag stands for one layout only -/
theorem tag_of_ofTag? {tag : UInt8} {layout : Layout} (h : Layout.ofTag? tag = some layout) : layout.tag = tag := by
  unfold Layout.ofTag? at h
  split at h
  case h_8 => cases h
  all_goals
    next htag =>
      obtain rfl := Option.some.inj h
      exact UInt8.toNat_inj.1 htag.symm

/-- a count check that passes finds the count, unless there is none -/
theorem checkCount_eq_ok_iff (entry : NumberEntry) (file : String) (field : FieldNumber) (expected : UInt32) :
    entry.checkCount file field expected = .ok () ↔ entry.layout = .const ∨ entry.count? = some expected := by
  unfold NumberEntry.checkCount
  cases entry with
  | const value => simp [NumberEntry.count?, NumberEntry.layout]
  | _ => simp [NumberEntry.count?, NumberEntry.layout]

theorem sound_checking (check : (file : String) → Except Error Unit) :
    Sound (checking check) fun _ bs => bs = [] ∧ ∃ file, check file = .ok () := by
  intro i a j _ h
  unfold checking at h
  split at h
  · next hok =>
    obtain rfl : i = j := by simpa using h
    exact ⟨[], List.nil_prefix, rfl, rfl, i.name, hok⟩
  · cases h

theorem sound_readBody (hnested : Sound (readLevels field levels) (Written field levels)) {count : UInt32} {cs : Bytes}
    (hcount : Word32 count cs) (layout : Layout) :
    Sound (readBody field levels count layout) fun entry bs =>
      Written field (levels + 1) entry (cs ++ ([layout.tag] ++ bs)) := by
  cases layout with
  | const =>
    refine sound_int64.bind fun value vs hvalue => sound_pure ?_
    rw [List.append_nil]
    exact .const hcount hvalue
  | uncompressed =>
    refine sound_readOffset.bind fun offset os hoffset => sound_pure ?_
    rw [List.append_nil]
    exact .uncompressed hcount hoffset
  | table =>
    refine sound_readOffset.bind fun offset os hoffset => sound_pure ?_
    rw [List.append_nil]
    exact .table hcount hoffset
  | delta =>
    refine sound_readOffset.bind fun offset os hoffset => sound_pure ?_
    rw [List.append_nil]
    exact .delta hcount hoffset
  | bytes =>
    refine sound_readOffset.bind fun offset os hoffset => sound_pure ?_
    rw [List.append_nil]
    exact .bytes hcount hoffset
  | indirect =>
    refine sound_readOffset.bind fun offset os hoffset => ?_
    refine (sound_readNested hnested).bind fun values ns hns => ?_
    obtain ⟨ls, bs, rfl, hlabel, hvalues⟩ := hns
    refine (sound_checking _).bind fun _ xs hxs => sound_pure ?_
    obtain ⟨rfl, file, hsame⟩ := hxs
    rw [List.append_nil, List.append_nil]
    exact .indirect hcount hoffset hlabel hvalues ((checkCount_eq_ok_iff values file field count).1 hsame)
  | sorted =>
    refine sound_readOffset.bind fun offset os hoffset => ?_
    refine (sound_readNested hnested).bind fun ordinals ns hns => sound_pure ?_
    obtain ⟨ls, bs, rfl, hlabel, hordinals⟩ := hns
    rw [List.append_nil]
    exact .sorted hcount hoffset hlabel hordinals

/-- **What is parsed is written.** The bytes that parsing an entry takes are an entry by the grammar. -/
theorem sound_readLevels (field : FieldNumber) (levels : Nat) : Sound (readLevels field levels) (Written field levels) := by
  induction levels with
  | zero => exact sound_corrupt _
  | succ levels ih =>
    rw [readLevels_succ]
    refine sound_varint32.bind fun count cs hcount => ?_
    refine sound_byte.bind fun tag ts hts => ?_
    subst hts
    cases htag : Layout.ofTag? tag with
    | none => exact sound_corrupt _
    | some layout =>
      rw [← tag_of_ofTag? htag]
      exact sound_readBody ih hcount layout

/-! ## What is written is parsed -/

theorem takes_place {offset : UInt64} (h : Place offset bs) : Takes readOffset bs offset := by
  have hword : Word64 offset.toInt64 bs := ⟨h.length, by rw [h.value, UInt64.ofNat_toNat]⟩
  refine (takes_word64 hword).bind_last ?_
  have hpos := h.positive
  rw [if_neg (by rw [toInt64_neg_iff]; omega), UInt64.toUInt64_toInt64]
  exact takes_pure _

theorem takes_headed {count : UInt32} {cs rest : Bytes} {layout : Layout} (hcount : Word32 count cs)
    (h : Takes (readBody field levels count layout) rest entry) :
    Takes (readLevels field (levels + 1)) (cs ++ ([layout.tag] ++ rest)) entry := by
  rw [readLevels_succ]
  refine (takes_word32 hcount).bind ?_
  refine (takes_byte layout.tag).bind ?_
  rw [Layout.ofTag?_tag]
  exact h

theorem takes_labelled {values : NumberEntry} {ls : Bytes} (hlabel : Word32 field ls)
    (h : Takes (readLevels field levels) bs (.numbers values)) :
    Takes (readNested field (readLevels field levels)) (ls ++ bs) values := by
  refine (takes_word32 hlabel).bind ?_
  rw [if_neg (not_not.2 rfl)]
  exact h.bind_last (takes_pure _)

/-- **What is written is parsed.** With the bytes of an entry ahead, parsing answers it and takes just them. -/
theorem takes_written (h : Written field levels entry bs) : Takes (readLevels field levels) bs entry := by
  induction h with
  | const hcount hvalue => exact takes_headed hcount ((takes_word64 hvalue).bind_last (takes_pure _))
  | uncompressed hcount hoffset => exact takes_headed hcount ((takes_place hoffset).bind_last (takes_pure _))
  | table hcount hoffset => exact takes_headed hcount ((takes_place hoffset).bind_last (takes_pure _))
  | delta hcount hoffset => exact takes_headed hcount ((takes_place hoffset).bind_last (takes_pure _))
  | bytes hcount hoffset => exact takes_headed hcount ((takes_place hoffset).bind_last (takes_pure _))
  | indirect hcount hoffset hlabel _ hsame ih =>
    refine takes_headed hcount ((takes_place hoffset).bind ((takes_labelled hlabel ih).bind_last ?_))
    refine (takes_checking fun file => ?_).bind_last (takes_pure _)
    exact (checkCount_eq_ok_iff _ file field _).2 hsame
  | sorted hcount hoffset hlabel _ ih =>
    exact takes_headed hcount ((takes_place hoffset).bind ((takes_labelled hlabel ih).bind_last (takes_pure _)))

/-! ## Bytes taken -/

theorem within_readOffset : Within readOffset 8 := by
  refine within_int64.bind (n := 0) fun offset => ?_
  split_ifs
  · exact within_corrupt_bind _ _
  · exact within_pure _

theorem within_readNested {readEntry : Reading Entry} {n : Nat} (h : Within readEntry n) :
    Within (readNested field readEntry) (10 + n) := by
  refine within_varint32.bind fun label => ?_
  split_ifs
  · exact (within_corrupt_bind _ _).mono (Nat.zero_le n)
  · refine h.bind (n := 0) fun nested => ?_
    cases nested with
    | numbers values => exact within_pure _
    | bytes count offset => exact within_corrupt _
    | sorted count offset ordinals => exact within_corrupt _

theorem within_checking (check : (file : String) → Except Error Unit) : Within (checking check) 0 := by
  intro i
  unfold leave checking
  cases check i.name <;> exact le_rfl

theorem within_readBody {n : Nat} (hnested : Within (readLevels field levels) n) (count : UInt32) (layout : Layout) :
    Within (readBody field levels count layout) (18 + n) := by
  have hplain : ∀ make : UInt64 → Entry, Within (readOffset >>= fun offset => pure (make offset)) (18 + n) :=
    fun make => (within_readOffset.bind fun _ => within_pure _).mono (by omega)
  cases layout with
  | const => exact (within_int64.bind fun value => within_pure _).mono (by omega)
  | uncompressed => exact hplain _
  | table => exact hplain _
  | delta => exact hplain _
  | bytes => exact hplain _
  | indirect =>
    refine (within_readOffset.bind fun offset => (within_readNested hnested).bind fun values => ?_).mono
      (show 8 + (10 + n + 0) ≤ 18 + n by omega)
    exact (within_checking _).bind (n := 0) fun _ => within_pure _
  | sorted =>
    refine (within_readOffset.bind fun offset => (within_readNested hnested).bind fun ordinals => within_pure _).mono ?_
    omega

/-- most bytes of one level of an entry: two varints, a tag and a word -/
def levelSize : Nat := 29

theorem within_readLevels (field : FieldNumber) (levels : Nat) : Within (readLevels field levels) (levelSize * levels) := by
  induction levels with
  | zero => exact within_corrupt _
  | succ levels ih =>
    rw [readLevels_succ]
    refine (within_varint32.bind fun count => within_byte.bind fun tag => ?_).mono
      (show 10 + (1 + (18 + levelSize * levels)) ≤ levelSize * (levels + 1) by rw [levelSize]; omega)
    cases Layout.ofTag? tag with
    | none => exact (within_corrupt _).mono (Nat.zero_le _)
    | some layout => exact within_readBody ih count layout

/-! ## Checks -/

theorem checkOffset_eq_ok_iff (start stop : Nat) (offset : UInt64) :
    checkOffset start stop offset = .ok () ↔ start ≤ offset.toNat ∧ offset.toNat ≤ stop := by
  unfold checkOffset
  split_ifs with h <;> simp <;> omega

theorem numbers_checkOffsets_eq_ok_iff (start stop : Nat) (entry : NumberEntry) :
    entry.checkOffsets start stop = .ok () ↔ ∀ offset ∈ entry.offsets, start ≤ offset.toNat ∧ offset.toNat ≤ stop := by
  induction entry with
  | const value => simp [NumberEntry.checkOffsets, NumberEntry.offsets]
  | indirect count offset values ih =>
    rw [NumberEntry.offsets, List.forall_mem_cons, ← ih, ← checkOffset_eq_ok_iff, NumberEntry.checkOffsets]
    cases values.checkOffsets start stop <;> simp
  | _ =>
    rw [NumberEntry.offsets, List.forall_mem_singleton]
    exact checkOffset_eq_ok_iff start stop _

/-- **Bounds of offsets.** The check looks at every offset of the entry, however deep it is nested. -/
theorem checkOffsets_eq_ok_iff (start stop : Nat) (entry : Entry) :
    entry.checkOffsets start stop = .ok () ↔ ∀ offset ∈ entry.offsets, start ≤ offset.toNat ∧ offset.toNat ≤ stop := by
  cases entry with
  | numbers entry => exact numbers_checkOffsets_eq_ok_iff start stop entry
  | bytes count offset =>
    rw [offsets, List.forall_mem_singleton]
    exact checkOffset_eq_ok_iff start stop offset
  | sorted count offset ordinals =>
    rw [offsets, List.forall_mem_cons, ← numbers_checkOffsets_eq_ok_iff, ← checkOffset_eq_ok_iff, checkOffsets]
    cases checkOffset start stop offset <;> simp

/-- a column of numbers that is not sparse passes the check just if it is constant or counts all documents -/
theorem numbers_checkCount_eq_ok_iff {entry : NumberEntry} (hdense : entry.layout ≠ .indirect) (file : String)
    (field : FieldNumber) (documents : UInt32) :
    (numbers entry).checkCount file field documents = .ok () ↔
      entry.layout = .const ∨ entry.count? = some documents := by
  rw [← checkCount_eq_ok_iff entry file field documents]
  cases entry with
  | indirect count offset values => exact absurd rfl hdense
  | _ => rfl

theorem counts_sparse_iff {documents count : UInt32} {offset : UInt64} {values : NumberEntry} :
    (numbers (.indirect count offset values)).Counts documents ↔ count ≤ documents := by
  constructor
  · intro h
    exact h.sparse count offset values rfl
  · intro hle
    refine ⟨?_, by simp, ?_, by simp⟩
    · rintro stream ⟨⟩ - hdense
      exact absurd rfl hdense
    · rintro count' offset' values' ⟨⟩
      exact hle

theorem counts_dense_iff {documents : UInt32} {stream : NumberEntry} (hdense : stream.layout ≠ .indirect) :
    (numbers stream).Counts documents ↔ stream.layout = .const ∨ stream.count? = some documents := by
  constructor
  · intro h
    by_cases hconst : stream.layout = .const
    · exact .inl hconst
    · exact .inr (h.dense stream rfl hconst hdense)
  · intro h
    refine ⟨?_, by simp, ?_, by simp⟩
    · rintro stream ⟨⟩ hconst -
      exact h.resolve_left hconst
    · rintro count offset values ⟨⟩
      exact absurd rfl hdense

theorem counts_bytes_iff {documents count : UInt32} {offset : UInt64} :
    (bytes count offset).Counts documents ↔ count = documents := by
  constructor
  · intro h
    exact h.bytes count offset rfl
  · intro heq
    refine ⟨by simp [stream?], ?_, by simp [stream?], by simp⟩
    rintro count' offset' ⟨⟩
    exact heq

theorem counts_sorted_iff {documents size : UInt32} {place : UInt64} {ordinals : NumberEntry} :
    (sorted size place ordinals).Counts documents ↔ ordinals.layout = .const ∨ ordinals.count? = some documents := by
  constructor
  · intro h
    by_cases hconst : ordinals.layout = .const
    · exact .inl hconst
    · by_cases hsparse : ordinals.layout = .indirect
      · exact .inr (h.ordinals size place ordinals rfl hsparse)
      · exact .inr (h.dense ordinals rfl hconst hsparse)
  · intro h
    refine ⟨?_, by simp, ?_, ?_⟩
    · rintro stream ⟨⟩ hconst -
      exact h.resolve_left hconst
    · rintro count offset values ⟨⟩
      obtain rfl : count = documents := Option.some.inj (h.resolve_left (by simp [NumberEntry.layout]))
      exact UInt32.le_refl _
    · rintro size' place' ordinals' ⟨⟩ hsparse
      exact h.resolve_left (by simp [hsparse])

/-- **Counts of documents.** The check passes just for the entries that count the documents of the segment. -/
theorem checkCount_counts (file : String) (field : FieldNumber) (documents : UInt32) (entry : Entry) :
    entry.checkCount file field documents = .ok () ↔ entry.Counts documents := by
  cases entry with
  | numbers stream =>
    by_cases hsparse : stream.layout = .indirect
    · cases stream with
      | indirect count offset values =>
        rw [counts_sparse_iff, checkCount]
        split_ifs with hle <;> simp [hle]
      | _ => cases hsparse
    · rw [counts_dense_iff hsparse]
      exact numbers_checkCount_eq_ok_iff hsparse file field documents
  | bytes count offset =>
    rw [counts_bytes_iff, checkCount]
    split_ifs with heq <;> simp [heq]
  | sorted size place ordinals =>
    rw [counts_sorted_iff]
    exact checkCount_eq_ok_iff ordinals file field documents

/-! ## Parsing as a whole -/

/-- what is known of an entry that was parsed for a column from these bytes, starting at a level of nesting -/
structure WellFormed (field : FieldNumber) (level : Nat) (entry : Entry) (bs : Bytes) : Prop where
  /-- the bytes are that entry by the grammar: what is nested is an entry of numbers behind the number of the column -/
  written : Written field (maxNesting + 1 - level) entry bs
  /-- the entry stays above the limit of nesting -/
  depth : entry.depth + level ≤ maxNesting + 1
  /-- sparse columns count what is nested in them -/
  balanced : entry.Balanced
  /-- no offset is negative as the signed word that is stored -/
  positive : ∀ offset ∈ entry.offsets, offset.toNat < 2 ^ 63
  /-- the check of offsets passes just if all of them are within bounds -/
  bounded (start stop : Nat) : entry.checkOffsets start stop = .ok () ↔
    ∀ offset ∈ entry.offsets, start ≤ offset.toNat ∧ offset.toNat ≤ stop
  /-- the check of counts passes just if the documents of the segment are counted -/
  counted (file : String) (documents : UInt32) :
    entry.checkCount file field documents = .ok () ↔ entry.Counts documents

theorem Written.wellFormed {level : Nat} (h : Written field (maxNesting + 1 - level) entry bs) :
    WellFormed field level entry bs where
  written := h
  depth := by
    have hdepth := h.depth_le
    have hlevels : 0 < maxNesting + 1 - level := by
      generalize maxNesting + 1 - level = levels at h
      cases h <;> exact Nat.succ_pos _
    omega
  balanced := h.balanced
  positive := h.positive
  bounded start stop := checkOffsets_eq_ok_iff start stop entry
  counted file documents := checkCount_counts file field documents entry

/-- **Entries as they are parsed.** Whatever bytes are ahead, and whatever level of nesting parsing starts at:
- it ends with an entry that is well formed, or says that the file is corrupt;
- bytes that are an entry by the grammar are parsed to it;
- below the limit of nesting nothing is parsed at all, so no more than the levels above it are, and the bytes of as many
  levels are the most that parsing takes, also when it fails. -/
theorem entries_parsed (field : FieldNumber) (level : Nat) (i : Input) (hin : i.position ≤ i.data.size) :
    ((∃ entry bs, bs <+: i.unread ∧ Entry.read field level i = .ok entry (i.skip bs.length) ∧
        WellFormed field level entry bs) ∨
      ∃ cause j, Entry.read field level i = .error (.corruption cause) j) ∧
    (∀ entry bs, Written field (maxNesting + 1 - level) entry bs → i.Ahead bs →
      Entry.read field level i = .ok entry (i.skip bs.length)) ∧
    (maxNesting < level → Entry.read field level i = .error (.corruption (.nestedTooDeep i.name field)) i) ∧
    ((Entry.read field level).leave i).position ≤ i.position + levelSize * (maxNesting + 1 - level) := by
  refine ⟨?_, fun entry bs hwritten hahead => takes_written hwritten i hahead, fun hdeep => ?_, within_readLevels _ _ i⟩
  · cases hread : Entry.read field level i with
    | ok entry j =>
      obtain ⟨bs, hbs, rfl, hwritten⟩ := sound_readLevels field _ i entry j hin hread
      exact .inl ⟨entry, bs, hbs, rfl, hwritten.wellFormed⟩
    | error e j =>
      have hchecked := checked_read field level i
      rw [hread] at hchecked
      obtain ⟨cause, rfl⟩ := hchecked
      exact .inr ⟨cause, j, rfl⟩
  · rw [Entry.read, Nat.sub_eq_zero_of_le hdeep]
    rfl

/-- a sparse column of 20 values in a table, with a byte behind its entry: it is parsed from 21 bytes, one offset is out of
bounds if the other one is the last that is allowed, and five levels down nothing is parsed -/
theorem entries_parsed_nested :
    let bs : Bytes := [20, 4, 100, 0, 0, 0, 0, 0, 0, 0, 7, 20, 1, 140, 0, 0, 0, 0, 0, 0, 0]
    let i : Input := { name := "meta", data := Bytes.toByteArray (bs ++ [9]) }
    let entry : Entry := .numbers (.indirect 20 100 (.table 20 140))
    i.position ≤ i.data.size ∧ WellFormed 7 0 entry bs ∧ i.Ahead bs ∧ Entry.read 7 0 i = .ok entry (i.skip 21) ∧
      entry.checkOffsets 100 100 ≠ .ok () ∧ entry.Counts 1000 ∧
      maxNesting < 5 ∧ Entry.read 7 5 i = .error (.corruption (.nestedTooDeep "meta" 7)) i ∧
      ((Entry.read 7 0).leave i).position ≤ 0 + levelSize * (maxNesting + 1 - 0) := by
  intro bs i entry
  have hin : i.position ≤ i.data.size := by decide
  have hahead : i.Ahead bs := ⟨hin, by decide, [9], rfl⟩
  have hcount : Word32 20 [20] := ⟨.last rfl, by decide, rfl⟩
  have hlabel : Word32 7 [7] := ⟨.last rfl, by decide, rfl⟩
  have hplace : Place 100 [100, 0, 0, 0, 0, 0, 0, 0] := ⟨rfl, rfl, by decide⟩
  have hplace' : Place 140 [140, 0, 0, 0, 0, 0, 0, 0] := ⟨rfl, rfl, by decide⟩
  have hwritten : Written 7 5 entry bs := .indirect hcount hplace hlabel (.table hcount hplace') (.inr rfl)
  obtain ⟨hparsed, hanswered, -, hwithin⟩ := entries_parsed 7 0 i hin
  have hread : Entry.read 7 0 i = .ok entry (i.skip 21) := hanswered entry bs hwritten hahead
  have hwell : WellFormed 7 0 entry bs := by
    obtain ⟨found, taken, htaken, hfound, hknown⟩ | ⟨cause, j, hfailed⟩ := hparsed
    · rw [hread] at hfound
      obtain ⟨rfl, hskip⟩ : entry = found ∧ i.skip 21 = i.skip taken.length := by simpa using hfound
      -- both are what stands at the start of the file, and as long as each other
      have hlength : bs.length = taken.length := Nat.add_left_cancel (congrArg Input.position hskip)
      rwa [(List.prefix_of_prefix_length_le hahead.found htaken hlength.le).eq_of_length hlength]
    · rw [hread] at hfailed
      cases hfailed
  refine ⟨hin, hwell, hahead, hread, ?_, ?_, by decide, ?_, hwithin⟩
  · rw [ne_eq, hwell.bounded]
    intro hbounds
    have hlast : (140 : UInt64) ∈ entry.offsets := List.mem_cons_of_mem 100 List.mem_cons_self
    exact absurd (hbounds 140 hlast).2 (by decide)
  · exact (hwell.counted "meta" 1000).1 (by decide)
  · exact (entries_parsed 7 5 i hin).2.2.1 (by decide)

end Entry

end ColumnStore.Column
