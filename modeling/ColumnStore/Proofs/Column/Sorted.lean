/-
Columns of byte strings that go through a dictionary: what is planned, and what a source of it answers.

The payload is the strings of the dictionary, then the ordinals (`planSorted_eq`, `sortedPayload`). A source that was
decoded from it answers for every document an ordinal and the string of that ordinal (`sortedSource_document`), and for
the ordinals one after the other the rising strings of the dictionary (`sortedSource_entry`): together,
`sortedSource_gives`.
-/
import ColumnStore.Proofs.Column.Dictionary
import ColumnStore.Proofs.Column.Strings

namespace ColumnStore.Column

open Packing Storage

variable {field : FieldNumber} {name : String} {documents : UInt32} {offset : Nat} {ws : List Bytes}

/-! ## The plan -/

def dictionaryBytes (ws : List Bytes) : Bytes := stringBytes (distinctStrings ws)

/-- strings in the dictionary of a column, as its entry counts them -/
def dictionaryCount (ws : List Bytes) : UInt32 := UInt32.ofNat (distinctStrings ws).length

/-- the plan for the ordinals of a column, behind its dictionary -/
def ordinalsPlan (field : FieldNumber) (name : String) (documents : UInt32) (offset : Nat) (ws : List Bytes) : Plan :=
  planNumbers field name (some documents) (offset + (dictionaryBytes ws).length) ((stringOrdinals ws).map some)

/-- the payload of a column: its dictionary, then its ordinals -/
def sortedPayload (field : FieldNumber) (name : String) (documents : UInt32) (offset : Nat) (ws : List Bytes) : Bytes :=
  dictionaryBytes ws ++ (ordinalsPlan field name documents offset ws).bytes .data

/-- the strings of a dictionary are part of its bytes -/
theorem length_flatten_lt (hfit : offset + (sortedPayload field name documents offset ws).length < 2 ^ 63) :
    (distinctStrings ws).flatten.length < 2 ^ 63 := by
  rw [sortedPayload, dictionaryBytes, stringBytes] at hfit
  simp only [List.length_append] at hfit
  omega

theorem planSorted_pieces (field : FieldNumber) (name : String) (offset : Nat) (hlength : ws.length = documents.toNat)
    (hbytes : (distinctStrings ws).flatten.length < 2 ^ 63) :
    ∃ pieces, pieces.flatten = dictionaryBytes ws ∧ planSorted field name documents offset (ws.map some) =
      .after .metadata (Varint.pieces field.toNat)
        (.after .metadata (entryPieces (dictionaryCount ws).toNat .sorted offset)
          (.after .data pieces ((ordinalsPlan field name documents offset ws).within .sorted))) := by
  obtain ⟨pieces, hpieces, hflat⟩ := strings_eq hbytes
  refine ⟨pieces, hflat, ?_⟩
  have hsize : (Dictionary.ofStrings (ws.map some)).size = (distinctStrings ws).length := by
    rw [ofStrings_map_some, Dictionary.size, List.size_toArray]
  have hentries : (Dictionary.ofStrings (ws.map some)).entries.toList = distinctStrings ws := by rw [ofStrings_map_some]
  have hcount : (distinctStrings ws).length ≤ 2 ^ 32 := by
    have hle := length_distinctStrings_le ws
    have hdocuments := documents.toNat_lt
    omega
  rw [planSorted, checkStrings_ok hlength]
  simp only [hsize, hentries, ordinals_map_some hcount, hpieces, Plan.afterPayload_ok, hflat]
  rfl

theorem planSorted_eq (field : FieldNumber) (name : String) (hlength : ws.length = documents.toNat)
    (hfit : offset + (sortedPayload field name documents offset ws).length < 2 ^ 63) :
    ∃ pieces, pieces.flatten = dictionaryBytes ws ∧ planSorted field name documents offset (ws.map some) =
      .after .metadata (Varint.pieces field.toNat)
        (.after .metadata (entryPieces (dictionaryCount ws).toNat .sorted offset)
          (.after .data pieces ((ordinalsPlan field name documents offset ws).within .sorted))) :=
  planSorted_pieces field name offset hlength (length_flatten_lt hfit)

theorem checkLength_stringOrdinals (name : String) (hlength : ws.length = documents.toNat) :
    checkLength name (stringOrdinals ws).length (some documents) = .ok () := by
  rw [length_stringOrdinals, checkLength, if_pos hlength]

/-- the payload of a sorted column is as long as its dictionary, and linear in the number of documents beyond that -/
theorem length_sortedPayload_le (field : FieldNumber) (name : String) (offset : Nat)
    (hlength : ws.length = documents.toNat) (hbytes : (distinctStrings ws).flatten.length < 2 ^ 63) :
    (sortedPayload field name documents offset ws).length ≤
      (distinctStrings ws).flatten.length + 2200 + 87 * ws.length := by
  have hdocuments := documents.toNat_lt
  have hcheck := checkLength_stringOrdinals name hlength
  have hordinals := length_data_le field name (some documents) (offset + (dictionaryBytes ws).length) _
    (by rw [length_stringOrdinals]; omega) hcheck
  rw [length_stringOrdinals] at hordinals
  have hentries := length_distinctStrings_le ws
  have hdictionary := length_stringBytes_le hbytes
  rw [← dictionaryBytes] at hdictionary
  rw [sortedPayload, ordinalsPlan, List.length_append]
  omega

/-- what a plan of a sorted column writes, when its ordinals are stored through an entry -/
structure StoresSorted (plan : Plan) (field : FieldNumber) (offset : Nat) (ws : List Bytes) (ordinals : NumberEntry)
    (reader : NumberReader) : Prop where
  outcome : plan.outcome = .ok .sorted
  metadata : ∃ rest, plan.bytes .metadata = Varint.encode field.toNat ++
      (entryBytes (dictionaryCount ws).toNat .sorted offset ++ (Varint.encode field.toNat ++ rest)) ∧
    Reading.Takes (Entry.readLevels field 4) rest (.numbers ordinals)
  data : ∃ payload, plan.bytes .data = dictionaryBytes ws ++ payload ∧
    Decodes ordinals (offset + (dictionaryBytes ws).length) payload reader
  gives : reader.Gives (stringOrdinals ws)
  offsets : ordinals.checkOffsets offset (offset + (plan.bytes .data).length) = .ok ()
  dense : ¬ Sparse (stringOrdinals ws) → ∀ c, ordinals.count? = some c → c.toNat = ws.length
  sparse : Sparse (stringOrdinals ws) → ∃ c, ordinals.count? = some c ∧ c.toNat < ws.length
  depth_le : ordinals.depth ≤ 2

theorem planSorted_stores (field : FieldNumber) (name : String) (hlength : ws.length = documents.toNat)
    (hfit : offset + (sortedPayload field name documents offset ws).length < 2 ^ 63) :
    ∃ ordinals reader,
      StoresSorted (planSorted field name documents offset (ws.map some)) field offset ws ordinals reader := by
  have hbound : (stringOrdinals ws).length < 2 ^ 32 := by
    rw [length_stringOrdinals, hlength]
    exact documents.toNat_lt
  have hcheck := checkLength_stringOrdinals name hlength
  obtain ⟨pieces, hflat, hplan⟩ := planSorted_eq field name hlength hfit
  rw [sortedPayload, List.length_append] at hfit
  obtain ⟨ordinals, reader, hstores⟩ := planNumbers_stores field name (some documents)
    (offset + (dictionaryBytes ws).length) (stringOrdinals ws) hbound hcheck (by rw [ordinalsPlan] at hfit; omega)
  obtain ⟨rest, hrest, htakes⟩ := hstores.metadata
  rw [hplan]
  refine ⟨ordinals, reader, ?_, ⟨rest, ?_, htakes 4 (le_trans hstores.depth_le (by decide))⟩,
    ⟨_, ?_, hstores.decodes⟩, hstores.gives, ?_, ?_, ?_, hstores.depth_le⟩
  · simp only [Plan.outcome_after]
    exact Plan.outcome_within hstores.outcome
  · simp [entryBytes, ordinalsPlan, hrest]
  · simp [hflat, ordinalsPlan]
  · refine hstores.offsets _ _ (by omega) ?_
    simp [hflat, ordinalsPlan]
    omega
  · intro hdense c hc
    rw [← length_stringOrdinals ws]
    exact hstores.count (fun hlayout => hdense (hstores.sparse_iff.1 hlayout)) c hc
  · intro hsparse
    have hlayout := hstores.sparse_iff.2 hsparse
    have hshort := length_presentValues_lt hsparse
    rw [length_stringOrdinals] at hshort
    cases ordinals with
    | indirect c place values =>
      have hc := hstores.present hlayout c rfl
      exact ⟨c, rfl, by omega⟩
    | const value => simp [NumberEntry.layout] at hlayout
    | uncompressed c place => simp [NumberEntry.layout] at hlayout
    | table c place => simp [NumberEntry.layout] at hlayout
    | delta c place => simp [NumberEntry.layout] at hlayout

/-! ## The source -/

/-- what a sorted column of these strings answers -/
structure SortedSource.Gives (source : SortedSource) (ws : List Bytes) : Prop where
  documents : ∀ document : UInt32, ∀ h : document.toNat < ws.length, ∃ ordinal, source.ordinal document = .ok ordinal ∧
    source.bytes document = .ok ws[document.toNat] ∧ source.entry ordinal = .ok ws[document.toNat] ∧
    (ordinal = 0 ↔ ws[document.toNat] = [])
  count : source.dictionary.count.toNat = (ws.filter (· ≠ [])).dedup.length + 1
  first : source.entry 0 = .ok []
  rising : ∀ i j, i < j → j < source.dictionary.count → ∃ a b, source.entry i = .ok a ∧ source.entry j = .ok b ∧
    Bytes.order a b = .lt

def sortedSource (ws : List Bytes) (count documents : UInt32) (reader : NumberReader) : SortedSource :=
  ⟨StringTable.table (distinctStrings ws) count, reader, documents⟩

theorem sortedSource_read {ordinals : NumberEntry} {reader : NumberReader} {payload : Bytes} {count : UInt32}
    (hcount : (distinctStrings ws).length = count.toNat) (hbytes : (distinctStrings ws).flatten.length < 2 ^ 63)
    (hoffset : offset < 2 ^ 63) (hdecodes : Decodes ordinals (offset + (dictionaryBytes ws).length) payload reader)
    {i : Input} (h : i.Holds offset (dictionaryBytes ws ++ payload)) :
    (SortedSource.read (UInt64.ofNat offset) count ordinals documents).eval i =
      .ok (sortedSource ws count documents reader) := by
  obtain ⟨j, hj, hdata⟩ := hdecodes i h.right
  obtain ⟨k, hk, -⟩ := StringTable.read_eq hcount hbytes hoffset (h.left.of_data hdata)
  rw [SortedSource.read]
  refine Reading.eval_ok (j := k) ?_
  rw [Reading.bind_ok hj, Reading.bind_ok hk]
  rfl

section

variable {count : UInt32} {reader : NumberReader} (hcount : (distinctStrings ws).length = count.toNat)
  (hbytes : (distinctStrings ws).flatten.length < 2 ^ 63)

include hcount hbytes

theorem sortedSource_entry {ordinal : UInt32} (h : ordinal.toNat < (distinctStrings ws).length) :
    (sortedSource ws count documents reader).entry ordinal = .ok (distinctStrings ws)[ordinal.toNat] :=
  StringTable.get_table hcount hbytes h

/-- **Every document has its string again**, by its ordinal, and the ordinal 0 just if the string is empty. -/
theorem sortedSource_document (hlength : ws.length = documents.toNat) (hgives : reader.Gives (stringOrdinals ws))
    {document : UInt32} (h : document.toNat < ws.length) :
    ∃ ordinal, (sortedSource ws count documents reader).ordinal document = .ok ordinal ∧
      (sortedSource ws count documents reader).bytes document = .ok ws[document.toNat] ∧
      (sortedSource ws count documents reader).entry ordinal = .ok ws[document.toNat] ∧
      (ordinal = 0 ↔ ws[document.toNat] = []) := by
  have hlimit := count.toNat_lt
  have hmem : ws[document.toNat] ∈ ws := List.getElem_mem h
  set n := stringOrdinal ws ws[document.toNat] with hn
  have hlt : n < (distinctStrings ws).length := stringOrdinal_lt (.inr hmem)
  have hback : (UInt32.ofNat n).toNat = n := by rw [UInt32.toNat_ofNat', Nat.mod_eq_of_lt (by omega)]
  have hint : (Int64.ofNat n).toInt = n := Int64.toInt_ofNat_of_lt (by omega)
  have hclamp : (Int64.ofNat n).toNatClampNeg = n := by rw [← Int64.toNat_toInt, hint, Int.toNat_natCast]
  have hordinal : (sortedSource ws count documents reader).ordinal document = .ok (UInt32.ofNat n) := by
    have hdocument : ¬ documents ≤ document := by
      rw [UInt32.not_le, UInt32.lt_iff_toNat_lt]
      omega
    have hget : reader.get document.toNat = .ok (Int64.ofNat n) := by
      rw [hgives document.toNat (by rwa [length_stringOrdinals])]
      simp only [stringOrdinals, List.getElem_map, hn]
    have hinside : ¬ (Int64.ofNat n < 0 ∨ count.toNat ≤ (Int64.ofNat n).toNatClampNeg) := by
      rw [Int64.lt_iff_toInt_lt, hint, hclamp]
      change ¬ ((n : Int) < 0 ∨ _)
      omega
    rw [SortedSource.ordinal, sortedSource, checkDocument]
    dsimp only
    rw [if_neg hdocument]
    simp only [bind, Except.bind, hget]
    refine (if_neg hinside).trans ?_
    rw [hclamp]
  have hentry : (sortedSource ws count documents reader).entry (UInt32.ofNat n) = .ok ws[document.toNat] := by
    rw [sortedSource_entry hcount hbytes (by rwa [hback])]
    have hstring := getElem?_stringOrdinal (s := ws[document.toNat]) (.inr hmem)
    rw [← hn, List.getElem?_eq_getElem hlt, Option.some.injEq] at hstring
    simp only [hback, hstring]
  refine ⟨UInt32.ofNat n, hordinal, ?_, hentry, ?_⟩
  · rw [SortedSource.bytes, hordinal]
    exact hentry
  · rw [← stringOrdinal_eq_zero_iff hmem, ← hn, ← UInt32.toNat_inj, hback]
    rfl

/-- **A sorted column answers its strings**, and its dictionary is what it has to be. -/
theorem sortedSource_gives (hlength : ws.length = documents.toNat) (hgives : reader.Gives (stringOrdinals ws)) :
    (sortedSource ws count documents reader).Gives ws where
  documents _ h := sortedSource_document hcount hbytes hlength hgives h
  count := by
    rw [← length_distinctStrings]
    exact hcount.symm
  first := by
    have hfirst := getElem?_distinctStrings_zero ws
    have hpos : 0 < (distinctStrings ws).length := by
      rw [length_distinctStrings]
      omega
    rw [List.getElem?_eq_getElem hpos, Option.some.injEq] at hfirst
    rw [sortedSource_entry hcount hbytes (by simpa using hpos)]
    exact congrArg Except.ok hfirst
  rising i j hij hj := by
    have hj : j.toNat < (distinctStrings ws).length := by
      rw [hcount]
      exact UInt32.lt_iff_toNat_lt.1 hj
    have hij := UInt32.lt_iff_toNat_lt.1 hij
    exact ⟨_, _, sortedSource_entry hcount hbytes (by omega), sortedSource_entry hcount hbytes hj,
      order_distinctStrings hij hj⟩

end

end ColumnStore.Column
