/-
Columns of numbers: what is planned is what is read.

`Stores plan field offset vs entry reader` says all that a reader of a segment asks of a column: the metadata bytes of
the plan are parsed to the entry, the entry is decoded to the reader wherever the data bytes stand at the offset, and
the reader answers the values. It holds of every plan whose payload stays addressable (`planNumbers_stores`), and in the
same way wherever the payload starts (`planNumbers_stores_anywhere`): there is one case for each layout, and the layout
that nests another one is an induction on the number of values.
`Stores.sparse_iff` says for which columns that is. Which layout a plan answers is the choice of the rule
(`outcome_planNumbers`), also for the values that are nested in a sparse column (`Stores.nested`).
-/
import ColumnStore.Proofs.Column.Choice
import ColumnStore.Proofs.Column.Sparse

namespace ColumnStore.Column

open Packing Storage

/-- what follows the number of a column, once it is scanned -/
def numbersBody (field : FieldNumber) (name : String) (offset : Nat) (values : Numbers) (stats : Stats) : Plan :=
  let entry (count : Nat) (rest : Plan) : Plan := .after .metadata (entryPieces count stats.layout offset) rest
  let plain (payload : Except Error (List Bytes)) : Plan :=
    entry stats.count (.afterPayload payload fun _ => .settle stats.layout)
  match stats.layout with
  | .const => .after .metadata (constPieces stats.least) (.settle .const)
  | .uncompressed => plain (.ok (Payload.uncompressed (values.filterMap id)))
  | .table => plain (Payload.table (stats.distinct.getD {}) (stats.tableWidth?.getD 8) (values.filterMap id))
  | .indirect =>
    entry (stats.count - stats.missing) <|
      .afterPayload (Payload.rising ((Column.documents values).map Int64.ofNat)) fun length =>
        (planNumbers field name none (offset + length) (present values)).within .indirect
  | _ => plain (Payload.delta (values.filterMap id))

theorem planNumbers_eq {field : FieldNumber} {name : String} {documents : Option UInt32} {offset : Nat}
    {values : Numbers} {stats : Stats} (hscan : Stats.collect name values = .ok stats)
    (hlength : checkLength name stats.count documents = .ok ()) :
    planNumbers field name documents offset values =
      .after .metadata (Varint.pieces field.toNat) (numbersBody field name offset values stats) := by
  rw [planNumbers]
  congr 1
  split
  · next e he =>
    rw [hscan] at he
    simp at he
  · next s hs =>
    obtain rfl : stats = s := by
      rw [hscan] at hs
      simpa using hs
    rw [hlength]
    unfold numbersBody
    dsimp only
    split <;> rename_i hlayout <;> simp only [hlayout]

/-! ## Stored columns -/

def NumberEntry.depth : NumberEntry → Nat
  | .indirect _ _ values => values.depth + 1
  | _ => 1

/-- an entry without its offsets -/
def NumberEntry.form : NumberEntry → NumberEntry
  | .const value => .const value
  | .uncompressed count _ => .uncompressed count 0
  | .table count _ => .table count 0
  | .delta count _ => .delta count 0
  | .indirect count _ values => .indirect count 0 values.form

@[simp] theorem NumberEntry.layout_form (entry : NumberEntry) : entry.form.layout = entry.layout := by
  cases entry <;> rfl

@[simp] theorem NumberEntry.count?_form (entry : NumberEntry) : entry.form.count? = entry.count? := by
  cases entry <;> rfl

/-- a column with so many missing values that it is stored by the others only -/
def Sparse (vs : List Int64) : Prop :=
  maxTableValues < vs.length ∧ 30 * vs.length < 31 * vs.count missing ∧ ∃ v ∈ vs, v ≠ missing

instance (vs : List Int64) : Decidable (Sparse vs) :=
  inferInstanceAs (Decidable (_ ∧ _ ∧ ∃ v ∈ vs, v ≠ missing))

/-- a plan that writes these values, so that they are read back through this entry by this reader -/
structure Stores (plan : Plan) (field : FieldNumber) (offset : Nat) (vs : List Int64) (entry : NumberEntry)
    (reader : NumberReader) : Prop where
  outcome : plan.outcome = .ok entry.layout
  metadata : ∃ rest, plan.bytes .metadata = Varint.encode field.toNat ++ rest ∧
    ∀ levels, entry.depth ≤ levels → Reading.Takes (Entry.readLevels field levels) rest (.numbers entry)
  decodes : Decodes entry offset (plan.bytes .data) reader
  gives : reader.Gives vs
  offsets : ∀ start stop, start ≤ offset → offset + (plan.bytes .data).length ≤ stop →
    entry.checkOffsets start stop = .ok ()
  count : entry.layout ≠ .indirect → ∀ c, entry.count? = some c → c.toNat = vs.length
  present : entry.layout = .indirect → ∀ c, entry.count? = some c → c.toNat = (presentValues vs).length
  sparse_iff : entry.layout = .indirect ↔ Sparse vs
  nested : ∀ c place values, entry = .indirect c place values → values.layout = layoutRule (presentValues vs)
  counted : reader.count? = entry.count?
  depth_le : entry.depth ≤ 2
  depth_eq : ¬ Sparse vs → entry.depth = 1

theorem checkOffset_ok {start stop offset : Nat} (hstart : start ≤ offset) (hstop : offset ≤ stop)
    (hoffset : offset < 2 ^ 63) : checkOffset start stop (UInt64.ofNat offset) = .ok () := by
  rw [checkOffset, toNat_offset hoffset, if_neg (by omega)]

section

variable {field : FieldNumber} {offset : Nat} {vs : List Int64} {entry : NumberEntry} {reader : NumberReader}

/-- a column of one layout, whose entry has nothing nested in it -/
theorem stores_plain {layout : Layout} {pieces : List Bytes} (hoffset : offset < 2 ^ 63)
    (htakes : ∀ levels, Reading.Takes (Entry.readLevels field (levels + 1)) (entryBytes vs.length layout offset)
      (.numbers entry))
    (hlayout : entry.layout = layout) (hplain : layout ≠ .indirect) (hsparse : ¬ Sparse vs)
    (hcheck : ∀ start stop, entry.checkOffsets start stop = checkOffset start stop (UInt64.ofNat offset))
    (hcount : ∀ c, entry.count? = some c → c.toNat = vs.length) (hdepth : entry.depth = 1)
    (hdecodes : Decodes entry offset pieces.flatten reader) (hgives : reader.Gives vs)
    (hcounted : reader.count? = entry.count?) :
    Stores (.after .metadata (Varint.pieces field.toNat)
        (.after .metadata (entryPieces vs.length layout offset) (.after .data pieces (.settle layout))))
      field offset vs entry reader where
  outcome := by simp [hlayout]
  metadata := by
    refine ⟨entryBytes vs.length layout offset, by simp [entryBytes], ?_⟩
    intro levels hlevels
    obtain ⟨levels, rfl⟩ : ∃ n, levels = n + 1 := ⟨levels - 1, by omega⟩
    exact htakes levels
  decodes := by simpa using hdecodes
  gives := hgives
  offsets := by
    intro start stop hstart hstop
    rw [hcheck]
    exact checkOffset_ok hstart (by omega) hoffset
  count := fun _ => hcount
  present := fun h => absurd (hlayout ▸ h) hplain
  sparse_iff := ⟨fun h => absurd (hlayout ▸ h) hplain, fun h => absurd h hsparse⟩
  nested := by
    rintro c place values rfl
    exact absurd hlayout.symm hplain
  counted := hcounted
  depth_le := by omega
  depth_eq := fun _ => hdepth

theorem stores_const {value : Int64} (h : ∀ v ∈ vs, v = value) (hsparse : ¬ Sparse vs) :
    Stores (.after .metadata (Varint.pieces field.toNat) (.after .metadata (constPieces value) (.settle .const)))
      field offset vs (.const value) (.const value) where
  outcome := rfl
  metadata := by
    refine ⟨constBytes value, by simp [constBytes], ?_⟩
    intro levels hlevels
    obtain ⟨levels, rfl⟩ : ∃ n, levels = n + 1 := ⟨levels - 1, by simp only [NumberEntry.depth] at hlevels; omega⟩
    exact Entry.takes_const value
  decodes := decodes_const value _ _
  gives := gives_const h
  offsets := fun _ _ _ _ => rfl
  count := by simp [NumberEntry.count?]
  present := by simp [NumberEntry.count?]
  sparse_iff := ⟨fun h => by simp [NumberEntry.layout] at h, fun h => absurd h hsparse⟩
  nested := by simp
  counted := rfl
  depth_le := by simp [NumberEntry.depth]
  depth_eq := fun _ => rfl

theorem toNat_count {α : Type} (xs : List α) (h : xs.length < 2 ^ 32) : (UInt32.ofNat xs.length).toNat = xs.length := by
  rw [UInt32.toNat_ofNat', Nat.mod_eq_of_lt h]

theorem stores_uncompressed (hoffset : offset < 2 ^ 63) (hlen : vs.length < 2 ^ 32) (hsparse : ¬ Sparse vs)
    (h : ∀ v ∈ vs, -128 ≤ v ∧ v ≤ 127) :
    Stores (.after .metadata (Varint.pieces field.toNat)
        (.after .metadata (entryPieces vs.length .uncompressed offset)
          (.after .data (Payload.uncompressed vs) (.settle .uncompressed))))
      field offset vs (.uncompressed (UInt32.ofNat vs.length) (UInt64.ofNat offset))
      (.uncompressed (Bytes.toByteArray (uncompressedBytes vs))) := by
  have hcount := toNat_count vs hlen
  refine stores_plain hoffset ?_ rfl (by decide) hsparse (fun _ _ => rfl) ?_ rfl ?_ (gives_uncompressed h) ?_
  · intro levels
    have htakes := Entry.takes_uncompressed field levels (UInt32.ofNat vs.length) hoffset
    rwa [hcount] at htakes
  · rintro c ⟨⟩
    exact hcount
  · rw [flatten_uncompressed]
    exact decodes_uncompressed hcount.symm hoffset
  · have hsize : (Bytes.toByteArray (uncompressedBytes vs)).size = vs.length := by
      rw [← Bytes.length_ofArray, Bytes.ofArray_toByteArray, uncompressedBytes, List.length_map]
    rw [NumberReader.count?, hsize]
    rfl

theorem stores_table {m : Distinct} {width : Nat} (hoffset : offset < 2 ^ 63) (hlen : vs.length < 2 ^ 32)
    (hsparse : ¬ Sparse vs) (hwidth : FixedWidth.isSupported width = true) (hsize : m.size ≤ 2 ^ width)
    (h : ∀ v ∈ vs, v ∈ m.decodeTable) :
    Stores (.after .metadata (Varint.pieces field.toNat)
        (.after .metadata (entryPieces vs.length .table offset)
          (.after .data (tablePieces m width vs) (.settle .table))))
      field offset vs (.table (UInt32.ofNat vs.length) (UInt64.ofNat offset)) (tableReader m width vs) := by
  have hcount := toNat_count vs hlen
  refine stores_plain hoffset ?_ rfl (by decide) hsparse (fun _ _ => rfl) ?_ rfl ?_ (gives_table hwidth hsize h) rfl
  · intro levels
    have htakes := Entry.takes_table field levels (UInt32.ofNat vs.length) hoffset
    rwa [hcount] at htakes
  · rintro c ⟨⟩
    exact hcount
  · rw [flatten_tablePieces]
    exact decodes_table hcount.symm hwidth hsize hoffset

theorem stores_delta {pieces : List Bytes} (hoffset : offset < 2 ^ 63) (hlen : vs.length < 2 ^ 32)
    (hsparse : ¬ Sparse vs) (hpieces : pieces.flatten = deltaBytes vs) :
    Stores (.after .metadata (Varint.pieces field.toNat)
        (.after .metadata (entryPieces vs.length .delta offset) (.after .data pieces (.settle .delta))))
      field offset vs (.delta (UInt32.ofNat vs.length) (UInt64.ofNat offset)) (.delta (Delta.reader blockSize vs)) := by
  have hcount := toNat_count vs hlen
  refine stores_plain hoffset ?_ rfl (by decide) hsparse (fun _ _ => rfl) ?_ rfl ?_ (gives_delta vs) rfl
  · intro levels
    have htakes := Entry.takes_delta field levels (UInt32.ofNat vs.length) hoffset
    rwa [hcount] at htakes
  · rintro c ⟨⟩
    exact hcount
  · rw [hpieces]
    exact decodes_delta hcount.symm hoffset

end

/-- no present value is missing, so what is nested is not sparse again -/
theorem not_sparse_presentValues (vs : List Int64) : ¬ Sparse (presentValues vs) := by
  rintro ⟨-, hmany, -⟩
  have hzero : (presentValues vs).count missing = 0 := by
    rw [List.count_eq_zero]
    simp [presentValues]
  omega

/-- the parts of a column that are stored by its present values only fit together -/
theorem stores_indirect {field : FieldNumber} {offset : Nat} {vs : List Int64} {count : UInt32}
    (hcount : (presentValues vs).length = count.toNat) (hlen : vs.length < 2 ^ 32) (hsparse : Sparse vs)
    {pieces : List Bytes} (hpieces : pieces.flatten = documentBytes vs) {nested : Plan} {entry : NumberEntry}
    {reader : NumberReader} (hoffset : offset < 2 ^ 63)
    (hrule : nested.outcome = .ok (layoutRule (presentValues vs)))
    (h : Stores nested field (offset + (documentBytes vs).length) (presentValues vs) entry reader) :
    Stores (.after .metadata (Varint.pieces field.toNat)
        (.after .metadata (entryPieces (presentValues vs).length .indirect offset)
          (.after .data pieces (nested.within .indirect))))
      field offset vs (.indirect count (UInt64.ofNat offset) entry)
      (.indirect (Monotone.reader blockSize (documentWords vs)) reader) := by
  have hnone := not_sparse_presentValues vs
  have hplain : entry.layout ≠ .indirect := fun hl => hnone (h.sparse_iff.1 hl)
  have hdepth := h.depth_eq hnone
  obtain ⟨rest, hrest, htakes⟩ := h.metadata
  refine
    { outcome := ?_, metadata := ?_, decodes := ?_, gives := gives_indirect (by omega) h.gives, offsets := ?_,
      count := ?_, present := ?_, sparse_iff := ⟨fun _ => hsparse, fun _ => rfl⟩, nested := ?_, counted := ?_,
      depth_le := ?_, depth_eq := ?_ }
  · simp only [Plan.outcome_after]
    exact Plan.outcome_within h.outcome
  · refine ⟨entryBytes count.toNat .indirect offset ++ (Varint.encode field.toNat ++ rest), ?_, ?_⟩
    · simp [entryBytes, hcount, hrest]
    · intro levels hlevels
      obtain ⟨levels, rfl⟩ : ∃ n, levels = n + 1 := ⟨levels - 1, by simp only [NumberEntry.depth] at hlevels; omega⟩
      refine Entry.takes_indirect hoffset (htakes levels ?_) ?_
      · simpa [NumberEntry.depth] using hlevels
      · intro file
        refine Entry.checkCount_ok (fun c hc => ?_) file field
        rw [h.count hplain c hc, hcount]
  · simpa [hpieces] using decodes_indirect hcount hoffset h.decodes
  · intro start stop hstart hstop
    have hlength : (documentBytes vs).length + (nested.bytes .data).length ≤ stop - offset := by
      simp [hpieces] at hstop
      omega
    simp only [NumberEntry.checkOffsets, h.offsets start stop (by omega) (by omega)]
    exact checkOffset_ok hstart (by omega) hoffset
  · exact fun hne => absurd rfl hne
  · intro _ c hc
    obtain rfl : count = c := by simpa [NumberEntry.count?] using hc
    exact hcount.symm
  · rintro c place values hentry
    obtain ⟨-, -, rfl⟩ : count = c ∧ UInt64.ofNat offset = place ∧ entry = values := by simpa using hentry
    exact Except.ok.inj (h.outcome.symm.trans hrule)
  · have hword : UInt32.ofNat (documentWords vs).length = count := by
      rw [length_documentWords, hcount, UInt32.ofNat_toNat]
    exact congrArg some hword
  · simp [NumberEntry.depth, hdepth]
  · exact fun hno => absurd hsparse hno

/-! ## All layouts -/

theorem sparse_of_isSparse {s : Stats} {vs : List Int64} (h : s.Describes vs) (hlen : vs.length < 2 ^ 32)
    (hs : s.isSparse = true) (hm : ∀ m, s.distinct = some m → 1 < m.size) : Sparse vs := by
  obtain ⟨hlong, hmany⟩ := (h.isSparse_iff hlen).1 hs
  exact ⟨hlong, hmany, h.exists_ne hm missing⟩

theorem not_sparse_of_isSparse {s : Stats} {vs : List Int64} (h : s.Describes vs) (hlen : vs.length < 2 ^ 32)
    (hs : s.isSparse = false) : ¬ Sparse vs := by
  rintro ⟨hlong, hmany, -⟩
  rw [(h.isSparse_iff hlen).2 ⟨hlong, hmany⟩] at hs
  simp at hs

/-- a column with one distinct value is not sparse: either all values are missing, or none is -/
theorem not_sparse_of_const {vs : List Int64} {value : Int64} (h : ∀ v ∈ vs, v = value) : ¬ Sparse vs := by
  rintro ⟨-, hmany, v, hv, hne⟩
  have hzero : vs.count missing = 0 := by
    rw [List.count_eq_zero]
    intro hmem
    exact hne (by rw [h v hv, h missing hmem])
  omega

theorem filterMap_some (vs : List Int64) : (vs.map some).filterMap id = vs := by
  simp

theorem length_presentValues_lt {vs : List Int64} (h : Sparse vs) : 31 * (presentValues vs).length < vs.length := by
  have hmany := h.2.1
  have hle := List.count_le_length (a := missing) (l := vs)
  rw [length_presentValues]
  omega

/-- how the plan of a column looks, layout by layout, and what its values have to do with that; where the payload
starts only shows in the offsets of the entry -/
theorem planNumbers_cases (field : FieldNumber) (name : String) (documents : Option UInt32) {vs : List Int64}
    (hlen : vs.length < 2 ^ 32) (hdocuments : checkLength name vs.length documents = .ok ()) :
    ∃ body : Nat → Plan,
      (∀ offset, planNumbers field name documents offset (vs.map some) =
        .after .metadata (Varint.pieces field.toNat) (body offset)) ∧
      ((∃ value, (∀ v ∈ vs, v = value) ∧ body = fun _ => .after .metadata (constPieces value) (.settle .const)) ∨
      (∃ pieces, Sparse vs ∧ pieces.flatten = documentBytes vs ∧ body = fun offset =>
        .after .metadata (entryPieces (presentValues vs).length .indirect offset)
          (.after .data pieces ((planNumbers field name none (offset + (documentBytes vs).length)
            ((presentValues vs).map some)).within .indirect))) ∨
      (¬ Sparse vs ∧ ∃ layout pieces, (body = fun offset =>
          .after .metadata (entryPieces vs.length layout offset) (.after .data pieces (.settle layout))) ∧
        ((layout = .uncompressed ∧ pieces = Payload.uncompressed vs ∧ ∀ v ∈ vs, -128 ≤ v ∧ v ≤ 127) ∨
        (layout = .table ∧ ∃ m width, pieces = tablePieces m width vs ∧ FixedWidth.isSupported width = true ∧
          m.size ≤ 2 ^ width ∧ ∀ v ∈ vs, v ∈ m.decodeTable) ∨
        (layout = .delta ∧ pieces.flatten = deltaBytes vs)))) := by
  by_cases hne : vs = []
  · subst hne
    exact ⟨fun _ => _, fun _ => planNumbers_eq (Stats.collect_nil name) hdocuments, Or.inl ⟨missing, by simp, rfl⟩⟩
  · obtain ⟨stats, hscan, hstats⟩ := Stats.collect_describes name hne
    have hcheck : checkLength name stats.count documents = .ok () := by rwa [hstats.count]
    refine ⟨fun offset => numbersBody field name offset (vs.map some) stats, fun _ => planNumbers_eq hscan hcheck, ?_⟩
    rcases stats.layout_cases with ⟨m, hm, hsize, hlayout⟩ | ⟨hmany, hsparse, hlayout⟩ | ⟨-, hdense, hcase⟩
    · -- one value
      refine Or.inl ⟨stats.least, hstats.eq_least hm hsize, ?_⟩
      simp only [numbersBody, hlayout]
    · -- present values only
      have hrising := documentWords_rising vs (by omega)
      obtain ⟨pieces, hpieces, hflat⟩ := rising_eq hrising
      change pieces.flatten = documentBytes vs at hflat
      have hnumber : stats.count - stats.missing = (presentValues vs).length := by
        rw [hstats.count, hstats.missing, length_presentValues]
      have hwords : (Column.documents (vs.map some)).map Int64.ofNat = documentWords vs := rfl
      refine Or.inr (Or.inl ⟨pieces, sparse_of_isSparse hstats hlen hsparse hmany, hflat, ?_⟩)
      simp only [numbersBody, hlayout, hwords, hpieces, Plan.afterPayload_ok, hnumber, present_map_some, hflat]
    · refine Or.inr (Or.inr ⟨not_sparse_of_isSparse hstats hlen hdense, ?_⟩)
      rcases hcase with ⟨hbyte, hlayout⟩ | ⟨m, hm, hlayout⟩ | hlayout
      · -- one byte per value
        refine ⟨.uncompressed, Payload.uncompressed vs, ?_, Or.inl ⟨rfl, rfl, ?_⟩⟩
        · simp only [numbersBody, hlayout, filterMap_some, Plan.afterPayload_ok, hstats.count]
        · simp only [Stats.fitsByte, Bool.and_eq_true, decide_eq_true_eq] at hbyte
          intro v hv
          exact ⟨Int64.le_trans hbyte.1 (hstats.least_le v hv), Int64.le_trans (hstats.le_greatest v hv) hbyte.2⟩
      · -- a table
        obtain ⟨hsize, hmembers⟩ := hstats.members m hm
        obtain ⟨hwidth, hfits⟩ := Stats.tableWidth_fits hsize
        have hall : ∀ v ∈ vs, v ∈ m.decodeTable := fun v hv => (hmembers v).2 hv
        refine ⟨.table, tablePieces m _ vs, ?_, Or.inr (Or.inl ⟨rfl, m, _, rfl, hwidth, hfits, hall⟩)⟩
        simp only [numbersBody, hlayout, filterMap_some, hm, Option.getD_some, Stats.tableWidth?_eq hm,
          table_eq hwidth hfits hall, Plan.afterPayload_ok, hstats.count]
      · -- offsets in blocks
        obtain ⟨pieces, hpieces, hflat⟩ := delta_eq vs
        refine ⟨.delta, pieces, ?_, Or.inr (Or.inr ⟨rfl, hflat⟩)⟩
        simp only [numbersBody, hlayout, filterMap_some, hpieces, Plan.afterPayload_ok, hstats.count]

/-- what a plan answers, if it answers a layout, is the layout that was chosen -/
theorem layout_of_outcome {field : FieldNumber} {name : String} {offset : Nat} {values : Numbers} {stats : Stats}
    {layout : Layout} (h : (numbersBody field name offset values stats).outcome = .ok layout) :
    layout = stats.layout := by
  have hplain : ∀ (count : Nat) (payload : Except Error (List Bytes)),
      (Plan.after .metadata (entryPieces count stats.layout offset)
        (.afterPayload payload fun _ => .settle stats.layout)).outcome = .ok layout → layout = stats.layout := by
    intro count payload hanswer
    obtain ⟨length, hsettle⟩ := Plan.outcome_of_afterPayload (Plan.outcome_after ▸ hanswer)
    exact (Except.ok.inj hsettle).symm
  unfold numbersBody at h
  dsimp only at h
  split at h
  · next hlayout =>
    rw [hlayout]
    exact (Except.ok.inj h).symm
  · exact hplain _ _ h
  · exact hplain _ _ h
  · next hlayout =>
    obtain ⟨length, hnested⟩ := Plan.outcome_of_afterPayload (Plan.outcome_after ▸ h)
    rw [hlayout]
    exact Plan.layout_of_within hnested
  · exact hplain _ _ h

/-- **The plan of a column answers the layout of the rule**, wherever its payload starts. -/
theorem outcome_planNumbers (field : FieldNumber) (name : String) (documents : Option UInt32) (offset : Nat)
    (vs : List Int64) (hlen : vs.length < 2 ^ 32) (hdocuments : checkLength name vs.length documents = .ok ()) :
    (planNumbers field name documents offset (vs.map some)).outcome = .ok (layoutRule vs) := by
  -- no payload is refused, that of the nested values included
  have hsettled : ∃ layout, (planNumbers field name documents offset (vs.map some)).outcome = .ok layout := by
    induction hn : vs.length using Nat.strongRecOn generalizing documents offset vs with
    | _ n ih =>
      subst hn
      obtain ⟨body, hplan, hcase⟩ := planNumbers_cases field name documents hlen hdocuments
      rw [hplan offset]
      rcases hcase with ⟨value, -, rfl⟩ | ⟨pieces, hsparse, -, rfl⟩ | ⟨-, layout, pieces, rfl, -⟩
      · exact ⟨_, rfl⟩
      · have hshort := length_presentValues_lt hsparse
        obtain ⟨layout, hnested⟩ := ih _ (by omega) none (offset + (documentBytes vs).length) (presentValues vs)
          (by omega) rfl rfl
        exact ⟨_, Plan.outcome_within hnested⟩
      · exact ⟨_, rfl⟩
  obtain ⟨layout, houtcome⟩ := hsettled
  obtain ⟨stats, hscan, hexact, hrule⟩ := Stats.collect_exact name vs hlen
  rw [planNumbers_eq hscan (by rwa [hexact.count]), Plan.outcome_after] at houtcome ⊢
  rw [houtcome, layout_of_outcome houtcome, hrule]

/-- **Where a column stands does not matter.** Its payload is the same bytes at every offset, and as long as they end
below the limit of offsets, they are read back by the same reader, through entries that differ in their offsets only. -/
theorem planNumbers_stores_anywhere (field : FieldNumber) (name : String) (documents : Option UInt32) (vs : List Int64)
    (hlen : vs.length < 2 ^ 32) (hdocuments : checkLength name vs.length documents = .ok ()) :
    ∃ payload form reader, ∀ offset,
      (planNumbers field name documents offset (vs.map some)).bytes .data = payload ∧
        (offset + payload.length < 2 ^ 63 → ∃ entry : NumberEntry, entry.form = form ∧
          Stores (planNumbers field name documents offset (vs.map some)) field offset vs entry reader) := by
  induction hn : vs.length using Nat.strongRecOn generalizing documents vs with
  | _ n ih =>
    subst hn
    obtain ⟨body, hplan, hcase⟩ := planNumbers_cases field name documents hlen hdocuments
    rcases hcase with ⟨value, hall, rfl⟩ | ⟨pieces, hsparse, hflat, rfl⟩ | ⟨hdense, layout, pieces, rfl, hcase⟩
    · refine ⟨[], .const value, .const value, fun offset => ?_⟩
      rw [hplan offset]
      exact ⟨by simp, fun _ => ⟨_, rfl, stores_const hall (not_sparse_of_const hall)⟩⟩
    · have hshort := length_presentValues_lt hsparse
      have hcount := toNat_count (presentValues vs) (by omega)
      obtain ⟨payload, form, reader, hnested⟩ := ih _ (by omega) none (presentValues vs) (by omega) rfl rfl
      refine ⟨documentBytes vs ++ payload, .indirect (UInt32.ofNat (presentValues vs).length) 0 form,
        .indirect (Monotone.reader blockSize (documentWords vs)) reader, fun offset => ?_⟩
      obtain ⟨hpayload, hstores⟩ := hnested (offset + (documentBytes vs).length)
      rw [hplan offset]
      refine ⟨by simp [hflat, hpayload], fun hfit => ?_⟩
      rw [List.length_append] at hfit
      obtain ⟨entry, rfl, hentry⟩ := hstores (by omega)
      have hrule := outcome_planNumbers field name none (offset + (documentBytes vs).length) (presentValues vs)
        (by omega) rfl
      exact ⟨_, rfl, stores_indirect hcount.symm hlen hsparse hflat (by omega) hrule hentry⟩
    · rcases hcase with ⟨rfl, rfl, hbounds⟩ | ⟨rfl, m, width, rfl, hwidth, hsize, hall⟩ | ⟨rfl, hflat⟩
      · refine ⟨(Payload.uncompressed vs).flatten, .uncompressed (UInt32.ofNat vs.length) 0,
          .uncompressed (Bytes.toByteArray (uncompressedBytes vs)), fun offset => ?_⟩
        rw [hplan offset]
        exact ⟨by simp, fun _ => ⟨_, rfl, stores_uncompressed (by omega) hlen hdense hbounds⟩⟩
      · refine ⟨(tablePieces m width vs).flatten, .table (UInt32.ofNat vs.length) 0, tableReader m width vs,
          fun offset => ?_⟩
        rw [hplan offset]
        exact ⟨by simp, fun _ => ⟨_, rfl, stores_table (by omega) hlen hdense hwidth hsize hall⟩⟩
      · refine ⟨pieces.flatten, .delta (UInt32.ofNat vs.length) 0, .delta (Delta.reader blockSize vs),
          fun offset => ?_⟩
        rw [hplan offset]
        exact ⟨by simp, fun _ => ⟨_, rfl, stores_delta (by omega) hlen hdense hflat⟩⟩

/-- **Every column of numbers is read back.** Whatever the values and the layout chosen for them, as long as the
payload ends below the limit of offsets. -/
theorem planNumbers_stores (field : FieldNumber) (name : String) (documents : Option UInt32) (offset : Nat)
    (vs : List Int64) (hlen : vs.length < 2 ^ 32) (hdocuments : checkLength name vs.length documents = .ok ())
    (hfit : offset + ((planNumbers field name documents offset (vs.map some)).bytes .data).length < 2 ^ 63) :
    ∃ entry reader, Stores (planNumbers field name documents offset (vs.map some)) field offset vs entry reader := by
  obtain ⟨payload, form, reader, hall⟩ := planNumbers_stores_anywhere field name documents vs hlen hdocuments
  obtain ⟨hpayload, hstores⟩ := hall offset
  rw [hpayload] at hfit
  obtain ⟨entry, -, hentry⟩ := hstores hfit
  exact ⟨entry, reader, hentry⟩

end ColumnStore.Column
