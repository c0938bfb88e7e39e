/-
What a plan writes, and how an entry is read back from it.

- `Plan.bytes`: the bytes that a plan adds to one file, with one law for each way of making a plan;
- `Entry.takes_const`, `takes_uncompressed`, ..., `takes_sorted`: the entry of each layout, parsed from the bytes that
  were written for it.
-/
import ColumnStore.Proofs.Storage.Reading
import ColumnStore.Column.Entry
import ColumnStore.Column.Plan

namespace ColumnStore.Column

open Storage

/-! ## The bytes of a plan -/

namespace Plan

/-- what writes add to one file -/
def writesTo (target : Target) (writes : List Write) : Bytes :=
  ((writes.filter (·.target = target)).map Write.bytes).flatten

@[simp] theorem writesTo_nil (target : Target) : writesTo target [] = [] := rfl

theorem writesTo_cons (target : Target) (write : Write) (writes : List Write) :
    writesTo target (write :: writes) =
      (if write.target = target then write.bytes else []) ++ writesTo target writes := by
  unfold writesTo
  split_ifs with h <;> simp [h]

def bytes (target : Target) (plan : Plan) : Bytes := writesTo target plan.writes

variable {target : Target} {plan : Plan} {pieces : List Bytes} {layout : Layout} {e : Error}

@[simp] theorem bytes_settle : (settle layout).bytes target = [] := rfl

@[simp] theorem outcome_settle : (settle layout).outcome = .ok layout := rfl

@[simp] theorem outcome_after : (after target pieces plan).outcome = plan.outcome := rfl

@[simp] theorem bytes_after_same : (after target pieces plan).bytes target = pieces.flatten ++ plan.bytes target := by
  have hall : (pieces.map (Write.mk target)).filter (·.target = target) = pieces.map (Write.mk target) := by
    rw [List.filter_eq_self]
    simp
  have hbytes : Write.bytes ∘ Write.mk target = id := rfl
  simp only [bytes, writesTo, after, List.filter_append, hall, List.map_append, List.flatten_append, List.map_map, hbytes,
    List.map_id]

theorem bytes_after_other {other : Target} (h : other ≠ target) :
    (after other pieces plan).bytes target = plan.bytes target := by
  have hnone : (pieces.map (Write.mk other)).filter (·.target = target) = [] := by
    rw [List.filter_eq_nil_iff]
    simp [h]
  simp only [bytes, writesTo, after, List.filter_append, hnone, List.nil_append]

@[simp] theorem bytes_metadata_after_data : (after .data pieces plan).bytes .metadata = plan.bytes .metadata :=
  bytes_after_other (by decide)

@[simp] theorem bytes_data_after_metadata : (after .metadata pieces plan).bytes .data = plan.bytes .data :=
  bytes_after_other (by decide)

theorem afterPayload_ok (rest : (length : Nat) → Plan) :
    afterPayload (.ok pieces) rest = after .data pieces (rest pieces.flatten.length) := by
  rw [afterPayload, List.length_flatten]

/-- behind a payload a layout is answered only if the payload could be made -/
theorem outcome_of_afterPayload {payload : Except Error (List Bytes)} {rest : (length : Nat) → Plan}
    (h : (afterPayload payload rest).outcome = .ok layout) : ∃ length, (rest length).outcome = .ok layout := by
  cases payload with
  | error e => simp [afterPayload, refuse] at h
  | ok pieces => exact ⟨_, h⟩

@[simp] theorem bytes_within : (plan.within layout).bytes target = plan.bytes target := by
  unfold within bytes
  split <;> rfl

theorem outcome_within {nested : Layout} (h : plan.outcome = .ok nested) :
    (plan.within layout).outcome = .ok layout := by
  simp only [within, h]

/-- a part answers the layout of the whole or none -/
theorem layout_of_within {answered : Layout} (h : (plan.within layout).outcome = .ok answered) : answered = layout := by
  unfold within at h
  split at h
  · simp at h
  · exact (Except.ok.inj h).symm

end Plan

/-! ## Entries -/

def entryBytes (count : Nat) (layout : Layout) (offset : Nat) : Bytes := (entryPieces count layout offset).flatten

theorem entryBytes_eq (count : Nat) (layout : Layout) (offset : Nat) :
    entryBytes count layout offset =
      Varint.encode count ++ ([layout.tag] ++ Bytes.ofUInt64 (UInt64.ofNat offset)) := by
  simp [entryBytes, entryPieces]

/-- the entry of a column that has one value only, as bytes -/
def constBytes (value : Int64) : Bytes := (constPieces value).flatten

theorem constBytes_eq (value : Int64) :
    constBytes value = Varint.encode 0 ++ ([Layout.const.tag] ++ Bytes.ofInt64 value) := by
  simp [constBytes, constPieces]

namespace Entry

variable {field : FieldNumber} {levels offset : Nat} {count : UInt32} {rest : Bytes}

theorem takes_readOffset (h : offset < 2 ^ 63) :
    Reading.Takes readOffset (Bytes.ofUInt64 (UInt64.ofNat offset)) (UInt64.ofNat offset) := by
  have hback : (UInt64.ofNat offset).toInt64.toUInt64 = UInt64.ofNat offset := rfl
  have hint : (UInt64.ofNat offset).toInt64.toInt = offset := by
    have hcond := BitVec.toInt_eq_toNat_cond (UInt64.ofNat offset).toBitVec
    have hnat : (UInt64.ofNat offset).toBitVec.toNat = offset := by
      change (UInt64.ofNat offset).toNat = offset
      rw [UInt64.toNat_ofNat', Nat.mod_eq_of_lt (by omega)]
    rw [hnat, if_pos (by omega)] at hcond
    exact hcond
  have hpos : ¬ (UInt64.ofNat offset).toInt64 < 0 := by
    rw [Int64.lt_iff_toInt_lt, hint]
    simp
  have hword := Reading.takes_int64 (UInt64.ofNat offset).toInt64
  rw [Bytes.ofInt64, hback] at hword
  refine hword.bind_last ?_
  rw [if_neg hpos]
  exact Reading.takes_pure _

/-- what follows the layout of an entry -/
def readBody (field : FieldNumber) (levels : Nat) (count : UInt32) : Layout → Reading Entry
  | .const => return .numbers (.const (← Reading.int64))
  | .uncompressed => return .numbers (.uncompressed count (← readOffset))
  | .table => return .numbers (.table count (← readOffset))
  | .delta => return .numbers (.delta count (← readOffset))
  | .indirect => do
    let offset ← readOffset
    let values ← readNested field (readLevels field levels)
    checking fun file => values.checkCount file field count
    return .numbers (.indirect count offset values)
  | .bytes => return .bytes count (← readOffset)
  | .sorted => do
    let offset ← readOffset
    let ordinals ← readNested field (readLevels field levels)
    return .sorted count offset ordinals

/-- an entry is its count, its layout, and what follows -/
theorem readLevels_succ (field : FieldNumber) (levels : Nat) :
    readLevels field (levels + 1) = (do
      let count ← Reading.varint32
      let tag ← Reading.byte
      match Layout.ofTag? tag with
      | none => Reading.corrupt fun i => .unknownTag i.name tag field
      | some layout => readBody field levels count layout) := by
  rw [readLevels]
  congr 1
  funext count
  congr 1
  funext tag
  rcases Layout.ofTag? tag with _ | layout
  · rfl
  · cases layout <;> rfl

theorem takes_head (count : UInt32) {layout : Layout} {result : Entry}
    (h : Reading.Takes (readBody field levels count layout) rest result) :
    Reading.Takes (readLevels field (levels + 1)) (Varint.encode count.toNat ++ ([layout.tag] ++ rest)) result := by
  rw [readLevels_succ]
  refine (Reading.takes_varint32 count).bind ?_
  refine (Reading.takes_byte layout.tag).bind ?_
  rw [Layout.ofTag?_tag]
  exact h

theorem takes_const (value : Int64) :
    Reading.Takes (readLevels field (levels + 1)) (constBytes value) (.numbers (.const value)) := by
  rw [constBytes_eq]
  exact takes_head 0 ((Reading.takes_int64 value).bind_last (Reading.takes_pure _))

theorem takes_uncompressed (field : FieldNumber) (levels : Nat) (count : UInt32) (h : offset < 2 ^ 63) :
    Reading.Takes (readLevels field (levels + 1)) (entryBytes count.toNat .uncompressed offset)
      (.numbers (.uncompressed count (UInt64.ofNat offset))) := by
  rw [entryBytes_eq]
  exact takes_head count ((takes_readOffset h).bind_last (Reading.takes_pure _))

theorem takes_table (field : FieldNumber) (levels : Nat) (count : UInt32) (h : offset < 2 ^ 63) :
    Reading.Takes (readLevels field (levels + 1)) (entryBytes count.toNat .table offset)
      (.numbers (.table count (UInt64.ofNat offset))) := by
  rw [entryBytes_eq]
  exact takes_head count ((takes_readOffset h).bind_last (Reading.takes_pure _))

theorem takes_delta (field : FieldNumber) (levels : Nat) (count : UInt32) (h : offset < 2 ^ 63) :
    Reading.Takes (readLevels field (levels + 1)) (entryBytes count.toNat .delta offset)
      (.numbers (.delta count (UInt64.ofNat offset))) := by
  rw [entryBytes_eq]
  exact takes_head count ((takes_readOffset h).bind_last (Reading.takes_pure _))

theorem takes_bytes (h : offset < 2 ^ 63) :
    Reading.Takes (readLevels field (levels + 1)) (entryBytes count.toNat .bytes offset)
      (.bytes count (UInt64.ofNat offset)) := by
  rw [entryBytes_eq]
  exact takes_head count ((takes_readOffset h).bind_last (Reading.takes_pure _))

theorem takes_nested {nested : NumberEntry} (h : Reading.Takes (readLevels field levels) rest (.numbers nested)) :
    Reading.Takes (readNested field (readLevels field levels)) (Varint.encode field.toNat ++ rest) nested := by
  unfold readNested
  refine (Reading.takes_varint32 field).bind ?_
  rw [if_neg (by simp)]
  exact h.bind_last (Reading.takes_pure _)

theorem takes_checking {check : (file : String) → Except Error Unit} (h : ∀ file, check file = .ok ()) :
    Reading.Takes (checking check) [] () := by
  intro i _
  simp [checking, h]

theorem checkCount_ok {nested : NumberEntry} {expected : UInt32}
    (h : ∀ c, nested.count? = some c → c.toNat = expected.toNat) (file : String) (field : FieldNumber) :
    nested.checkCount file field expected = .ok () := by
  unfold NumberEntry.checkCount
  cases hc : nested.count? with
  | none => rfl
  | some c => exact if_pos (UInt32.toNat_inj.1 (h c hc))

theorem takes_indirect {nested : NumberEntry} (h : offset < 2 ^ 63)
    (hnested : Reading.Takes (readLevels field levels) rest (.numbers nested))
    (hcount : ∀ file, nested.checkCount file field count = .ok ()) :
    Reading.Takes (readLevels field (levels + 1))
      (entryBytes count.toNat .indirect offset ++ (Varint.encode field.toNat ++ rest))
      (.numbers (.indirect count (UInt64.ofNat offset) nested)) := by
  rw [entryBytes_eq, List.append_assoc, List.append_assoc]
  refine takes_head count ((takes_readOffset h).bind ((takes_nested hnested).bind_last ?_))
  exact (takes_checking hcount).bind_last (Reading.takes_pure _)

theorem takes_sorted {nested : NumberEntry} (h : offset < 2 ^ 63)
    (hnested : Reading.Takes (readLevels field levels) rest (.numbers nested)) :
    Reading.Takes (readLevels field (levels + 1))
      (entryBytes count.toNat .sorted offset ++ (Varint.encode field.toNat ++ rest))
      (.sorted count (UInt64.ofNat offset) nested) := by
  rw [entryBytes_eq, List.append_assoc, List.append_assoc]
  exact takes_head count ((takes_readOffset h).bind ((takes_nested hnested).bind_last (Reading.takes_pure _)))

end Entry

end ColumnStore.Column
