/-
Columns of byte strings that are stored as they are.

The plan of such a column writes its strings end to end, and their addresses behind them (`planBytes_eq`). A source that
was decoded from that answers for each document its string and for no other (`strings_document`), wherever the addresses
are cut into blocks.
-/
import ColumnStore.Proofs.Column.Sizes
import ColumnStore.Proofs.Column.StringTable
import ColumnStore.Column.Source

namespace ColumnStore.Column

open Packing Storage

variable {field : FieldNumber} {name : String} {documents : UInt32} {ws : List Bytes}

/-! ## The plan -/

theorem checkStrings_ok (hlength : ws.length = documents.toNat) : checkStrings name documents (ws.map some) = .ok () := by
  have hnone : firstNull? (ws.map some) = none := by
    rw [firstNull?, List.findIdx?_eq_none_iff]
    simp
  rw [checkStrings, hnone, List.length_map, checkLength, if_pos hlength]

theorem planBytes_eq (field : FieldNumber) (name : String) (hlength : ws.length = documents.toNat)
    (hfit : ws.flatten.length < 2 ^ 63) :
    ∃ pieces, pieces.flatten = stringBytes ws ∧ ∀ offset, planBytes field name documents offset (ws.map some) =
      .after .metadata (Varint.pieces field.toNat) (.after .metadata (entryPieces ws.length .bytes offset)
        (.after .data pieces (.settle .bytes))) := by
  obtain ⟨pieces, hpieces, hflat⟩ := strings_eq hfit
  refine ⟨pieces, hflat, fun offset => ?_⟩
  have hall : (ws.map some).filterMap id = ws := by simp
  simp only [planBytes, checkStrings_ok hlength, hall, hpieces, Plan.afterPayload_ok, List.length_map]

/-- a payload is as long as its strings, and linear in their number beyond that -/
theorem length_stringBytes_le (hfit : ws.flatten.length < 2 ^ 63) :
    (stringBytes ws).length ≤ ws.flatten.length + 48 + 23 * ws.length := by
  have haddresses := length_blocks_le blockSize_pos length_monotoneBlock_le (Payload.addresses 0 ws)
  rw [length_addresses] at haddresses
  have hhead := length_blockHead_le
  have hcount : (Varint.encode ws.flatten.length).length ≤ 10 :=
    Varint.length_encode_le (by decide) (lt_of_lt_of_le hfit (by decide))
  rw [stringBytes, List.length_append, List.length_append, List.length_append, Monotone.payload]
  omega

/-! ## The source -/

/-- **Every document has its string again**, and no other document has one. -/
theorem strings_document (hlength : ws.length = documents.toNat) (hfit : ws.flatten.length < 2 ^ 63)
    (document : UInt32) : (Source.strings (StringTable.table ws documents)).bytes document =
      if h : document.toNat < ws.length then .ok ws[document.toNat] else .error (.documentNotFound document) := by
  have hcount : (StringTable.table ws documents).count = documents := rfl
  rw [Source.bytes, hcount, checkDocument]
  by_cases hdocument : document.toNat < ws.length
  · rw [dif_pos hdocument, if_neg (by rw [UInt32.not_le, UInt32.lt_iff_toNat_lt]; omega)]
    exact StringTable.get_table hlength hfit hdocument
  · rw [dif_neg hdocument, if_pos (by rw [UInt32.le_iff_toNat_le]; omega)]
    rfl

end ColumnStore.Column
