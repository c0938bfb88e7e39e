/-
Readings that take exactly what was written.

`Holds i place bs` says that the bytes `bs` stand in the file of `i` from `place` on, with anything before and after
them. `Takes r bs a` says that a reading with `bs` ahead answers `a` and leaves the cursor right behind `bs`, whatever
follows. Formats are put together like the readings themselves:
- `Takes.bind`: one after the other, so a format that is read without a length in front delimits itself;
- `Takes.bind_answers`: before a reading that looks further than it has to (`Answers`);
- `takes_byte`, `takes_bytes`, `takes_uint32`, `takes_int64`, `takes_uint128`, `takes_varint`, `takes_varint32`,
  `takes_text`: the primitives, each with the bytes that are written for it.
-/
import ColumnStore.Proofs.Bytes.Varint
import ColumnStore.Proofs.Text.Utf8
import ColumnStore.Storage.Input
import ColumnStore.Storage.Output

namespace ColumnStore.Storage

/-! ## Bytes in a file -/

/-- these bytes stand in the file from a place on -/
structure Input.Holds (i : Input) (place : Nat) (bs : Bytes) : Prop where
  inside : place ≤ i.data.size
  addressable : i.data.size < addressLimit
  found : bs <+: (Bytes.ofArray i.data).drop place

/-- these bytes are the next ones, and a cursor can get behind them; the file may be of any length -/
structure Input.Ahead (i : Input) (bs : Bytes) : Prop where
  inside : i.position ≤ i.data.size
  addressable : i.position + bs.length < addressLimit
  found : bs <+: (Bytes.ofArray i.data).drop i.position

/-- the input behind its next `count` bytes -/
def Input.skip (i : Input) (count : Nat) : Input := { i with position := i.position + count }

@[simp] theorem Input.skip_name (i : Input) (count : Nat) : (i.skip count).name = i.name := rfl

@[simp] theorem Input.skip_data (i : Input) (count : Nat) : (i.skip count).data = i.data := rfl

@[simp] theorem Input.skip_position (i : Input) (count : Nat) : (i.skip count).position = i.position + count := rfl

@[simp] theorem Input.skip_zero (i : Input) : i.skip 0 = i := rfl

@[simp] theorem Input.skip_skip (i : Input) (m n : Nat) : (i.skip m).skip n = i.skip (m + n) := by
  simp [Input.skip, Nat.add_assoc]

namespace Input.Holds

variable {i : Input} {place : Nat} {xs ys : Bytes}

theorem end_le (h : i.Holds place xs) : place + xs.length ≤ i.data.size := by
  have hlen := h.found.length_le
  rw [List.length_drop, Bytes.length_ofArray] at hlen
  have := h.inside
  omega

theorem left (h : i.Holds place (xs ++ ys)) : i.Holds place xs :=
  ⟨h.inside, h.addressable, (List.prefix_append xs ys).trans h.found⟩

theorem right (h : i.Holds place (xs ++ ys)) : i.Holds (place + xs.length) ys := by
  refine ⟨le_trans (by simp) h.end_le, h.addressable, ?_⟩
  obtain ⟨rest, hrest⟩ := h.found
  refine ⟨rest, ?_⟩
  rw [← List.drop_drop, ← hrest, List.append_assoc, List.drop_left]

/-- what a file holds is ahead of a cursor that stands there -/
theorem ahead {bs : Bytes} (h : i.Holds i.position bs) : i.Ahead bs :=
  ⟨h.inside, lt_of_le_of_lt h.end_le h.addressable, h.found⟩

/-- where a file holds bytes does not depend on its cursor -/
theorem of_data {j : Input} (h : i.Holds place xs) (hdata : j.data = i.data) : j.Holds place xs :=
  ⟨hdata ▸ h.inside, hdata ▸ h.addressable, hdata ▸ h.found⟩

/-- a file that is made of three parts holds the middle one -/
theorem of_append {before after : Bytes} (h : Bytes.ofArray i.data = before ++ xs ++ after)
    (hsize : i.data.size < addressLimit) : i.Holds before.length xs := by
  have hlen := congrArg List.length h
  rw [Bytes.length_ofArray, List.length_append, List.length_append] at hlen
  refine ⟨by omega, hsize, ?_⟩
  rw [h, List.append_assoc, List.drop_left]
  exact List.prefix_append xs after

end Input.Holds

namespace Input.Ahead

variable {i : Input} {xs ys : Bytes}

theorem end_le (h : i.Ahead xs) : i.position + xs.length ≤ i.data.size := by
  have hlen := h.found.length_le
  rw [List.length_drop, Bytes.length_ofArray] at hlen
  have := h.inside
  omega

theorem left (h : i.Ahead (xs ++ ys)) : i.Ahead xs := by
  have hlimit := h.addressable
  rw [List.length_append] at hlimit
  exact ⟨h.inside, by omega, (List.prefix_append xs ys).trans h.found⟩

theorem right (h : i.Ahead (xs ++ ys)) : (i.skip xs.length).Ahead ys := by
  have hlimit := h.addressable
  rw [List.length_append, ← Nat.add_assoc] at hlimit
  refine ⟨h.left.end_le, hlimit, ?_⟩
  obtain ⟨rest, hrest⟩ := h.found
  refine ⟨rest, ?_⟩
  rw [Input.skip_position, Input.skip_data, ← List.drop_drop, ← hrest, List.append_assoc, List.drop_left]

theorem extract (h : i.Ahead xs) : i.data.extract i.position (i.position + xs.length) = Bytes.toByteArray xs := by
  apply Bytes.ofArray_inj
  rw [Bytes.ofArray_extract, Bytes.ofArray_toByteArray, List.drop_take, Nat.add_sub_cancel_left,
    ← List.prefix_iff_eq_take.1 h.found]

end Input.Ahead

namespace Reading

variable {α β : Type} {r : Reading α} {f : α → Reading β} {bs xs ys : Bytes} {a : α} {b : β}

/-! ## One step after the other -/

theorem bind_ok {i j : Input} (h : r i = .ok a j) : (r >>= f) i = f a j := by
  simp only [bind, EStateM.bind, h]

theorem bind_error {i j : Input} {e : Error} (h : r i = .error e j) : (r >>= f) i = .error e j := by
  simp only [bind, EStateM.bind, h]

theorem eval_ok {i j : Input} (h : r i = .ok a j) : r.eval i = .ok a := by
  rw [eval, h]

/-- with these bytes ahead a reading takes them all and no more, and answers `a` -/
def Takes (r : Reading α) (bs : Bytes) (a : α) : Prop := ∀ i : Input, i.Ahead bs → r i = .ok a (i.skip bs.length)

theorem takes_pure (a : α) : Takes (pure a) [] a := fun _ _ => rfl

theorem Takes.bind (hr : Takes r xs a) (hf : Takes (f a) ys b) : Takes (r >>= f) (xs ++ ys) b := by
  intro i h
  rw [bind_ok (hr i h.left), hf _ h.right, List.length_append, Input.skip_skip]

theorem Takes.map (hr : Takes r xs a) (g : α → β) : Takes (g <$> r) xs (g a) := by
  intro i h
  rw [map_eq_pure_bind, bind_ok (hr i h)]
  rfl

/-- nothing more is taken after the last step -/
theorem Takes.bind_last (hr : Takes r xs a) (hf : Takes (f a) [] b) : Takes (r >>= f) xs b := by
  simpa using hr.bind hf

theorem Takes.bind_first (hr : Takes r [] a) (hf : Takes (f a) ys b) : Takes (r >>= f) ys b := by
  simpa using hr.bind hf

/-- with these bytes ahead a reading answers `a`, however far it reads -/
def Answers (r : Reading α) (bs : Bytes) (a : α) : Prop :=
  ∀ i : Input, i.Holds i.position bs → ∃ j, r i = .ok a j ∧ j.data = i.data

theorem Takes.answers (hr : Takes r bs a) : Answers r bs a := fun i h => ⟨_, hr i h.ahead, rfl⟩

theorem Takes.bind_answers (hr : Takes r xs a) (hf : Answers (f a) ys b) : Answers (r >>= f) (xs ++ ys) b := by
  intro i h
  rw [bind_ok (hr i h.left.ahead)]
  exact hf _ (h.right.of_data rfl)

/-! ## Primitives -/

theorem takes_bytes {count : Nat} (h : bs.length = count) : Takes (bytes count) bs (Bytes.toByteArray bs) := by
  subst h
  intro i hi
  have hend := hi.end_le
  have hlimit := hi.addressable
  rw [bytes_eq, if_neg (by omega), if_neg (by omega), hi.extract]
  rfl

theorem takes_byte (b : UInt8) : Takes byte [b] b := by
  intro i hi
  have hend := hi.end_le
  have hlt : i.position < i.data.size := by simpa using hend
  have hget : i.data[i.position] = b := by
    obtain ⟨rest, hrest⟩ := hi.found
    have hhead : (Bytes.ofArray i.data)[i.position]? = some b := by
      rw [← List.head?_drop, ← hrest]
      rfl
    rw [Bytes.getElem?_ofArray _ hlt] at hhead
    exact Option.some.inj hhead
  rw [byte, dif_pos hlt, hget]
  rfl

theorem takes_littleEndian (width n : Nat) :
    Takes (littleEndian width) (Bytes.littleEndian width n) (n % 256 ^ width) := by
  refine (takes_bytes (Bytes.length_littleEndian width n)).bind_last ?_
  rw [Bytes.ofArray_toByteArray, Bytes.value_littleEndian]
  exact takes_pure _

theorem takes_uint32 (w : UInt32) : Takes uint32 (Bytes.ofUInt32 w) w := by
  refine (takes_littleEndian 4 w.toNat).bind_last ?_
  rw [Nat.mod_eq_of_lt (show w.toNat < 256 ^ 4 from w.toNat_lt), UInt32.ofNat_toNat]
  exact takes_pure _

theorem takes_int64 (v : Int64) : Takes int64 (Bytes.ofInt64 v) v := by
  refine (takes_littleEndian 8 v.toUInt64.toNat).bind_last ?_
  rw [Nat.mod_eq_of_lt (show v.toUInt64.toNat < 256 ^ 8 from v.toUInt64.toNat_lt), UInt64.ofNat_toNat]
  exact takes_pure _

theorem takes_uint128 (w : BitVec 128) : Takes uint128 (Bytes.ofBitVec128 w) w := by
  refine (takes_littleEndian 16 w.toNat).bind_last ?_
  rw [Nat.mod_eq_of_lt (show w.toNat < 256 ^ 16 from w.isLt), BitVec.ofNat_toNat, BitVec.setWidth_eq]
  exact takes_pure _

/-! ## Varints -/

/-- the varint reader answers, and fails, as the decoder of byte strings does on what is ahead -/
theorem varintFrom_eq {groups : Nat} {shift : UInt64} (h : Fits groups shift) (acc : UInt64) {i : Input}
    (hin : i.position ≤ i.data.size) :
    varintFrom groups shift acc i =
      match Varint.decodeFrom groups shift acc ((Bytes.ofArray i.data).drop i.position) with
      | .ok (value, rest) => .ok value { i with position := i.data.size - rest.length }
      | .error .endOfInput => .error (i.pastEnd (i.data.size + 1)) { i with position := i.data.size }
      | .error .tooLong => .error (.corruption (.varintTooLong i.name (i.position + groups))) (i.skip groups) := by
  induction groups generalizing shift acc i with
  | zero => rfl
  | succ groups ih =>
    rcases Nat.lt_or_eq_of_le hin with hlt | heq
    · have hcons : (Bytes.ofArray i.data).drop i.position =
          i.data[i.position] :: (Bytes.ofArray i.data).drop (i.position + 1) := by
        obtain ⟨hinside, hget⟩ := List.getElem?_eq_some_iff.1 (Bytes.getElem?_ofArray i.data hlt)
        rw [← List.cons_getElem_drop_succ (h := hinside), hget]
      have hbyte : byte i = .ok i.data[i.position] (i.skip 1) := by rw [byte, dif_pos hlt]; rfl
      rw [hcons, Varint.decodeFrom, varintFrom_succ h, bind_ok hbyte]
      cases hc : Varint.continues i.data[i.position]
      · have hplace : i.position + 1 = i.data.size - (i.data.size - (i.position + 1)) := by omega
        simp only [Bool.false_eq_true, if_false, List.length_drop, Bytes.length_ofArray, ← hplace]
        rfl
      · -- one group further on, everything is told from the next byte
        rw [if_pos rfl, if_pos rfl, ih h.next _ (i := i.skip 1) hlt, Input.skip_skip, Nat.add_comm 1 groups]
        simp only [Input.skip_position, Input.skip_data, Input.skip_name, Nat.add_assoc, Nat.add_comm 1 groups]
        rfl
    · have hnil : (Bytes.ofArray i.data).drop i.position = [] := List.drop_eq_nil_iff.2 (by simp [heq])
      have hbyte : byte i = .error (i.pastEnd (i.position + 1)) i := by rw [byte, dif_neg (by omega)]
      rw [hnil, varintFrom_succ h, bind_error hbyte]
      simp only [Varint.decodeFrom, ← heq]

/-- the varint reader answers what the decoder does, and takes as many bytes -/
theorem varint_of_decode {i : Input} {value : UInt64} {bs rest : Bytes} (hin : i.position ≤ i.data.size)
    (hahead : bs ++ rest = (Bytes.ofArray i.data).drop i.position) (h : Varint.decode (bs ++ rest) = .ok (value, rest)) :
    varint i = .ok value (i.skip bs.length) := by
  have hlen := congrArg List.length hahead
  rw [List.length_append, List.length_drop, Bytes.length_ofArray] at hlen
  have hplace : i.data.size - rest.length = i.position + bs.length := by omega
  rw [varint, varintFrom_eq fits_maxGroups _ hin, ← hahead, ← Varint.decode, h]
  simp only [hplace]
  rfl

theorem takes_varint {n : Nat} (h : n < 2 ^ 64) : Takes varint (Varint.encode n) (UInt64.ofNat n) := by
  intro i hi
  obtain ⟨rest, hrest⟩ := hi.found
  exact varint_of_decode hi.inside hrest (Varint.decode_encode_append h rest)

theorem takes_varint32 (w : UInt32) : Takes varint32 (Varint.encode w.toNat) w := by
  have hw := w.toNat_lt
  refine (takes_varint (by omega)).bind_last ?_
  have hvalue : (UInt64.ofNat w.toNat).toNat = w.toNat := by
    rw [UInt64.toNat_ofNat', Nat.mod_eq_of_lt (by omega)]
  have hback : (UInt64.ofNat w.toNat).toUInt32 = w := by
    apply UInt32.toNat_inj.1
    rw [UInt64.toNat_toUInt32, hvalue, Nat.mod_eq_of_lt hw]
  rw [hvalue, if_pos hw, hback]
  exact takes_pure _

/-- a text is the number of its bytes, and its bytes -/
theorem flatten_text {t : String} (h : t.utf8ByteSize < 2 ^ 32) :
    (Piece.text t).flatten = Varint.encode t.utf8ByteSize ++ Bytes.ofText t := by
  simp only [Piece.text, List.flatten_append, Varint.flatten_pieces, List.flatten_singleton, Text.Utf8.length_ofText]
  rw [UInt32.toNat_ofNat', Nat.mod_eq_of_lt h]

theorem takes_text {t : String} (h : t.utf8ByteSize < 2 ^ 32) : Takes text (Piece.text t).flatten t := by
  have hcount : (UInt32.ofNat t.utf8ByteSize).toNat = t.utf8ByteSize := by
    rw [UInt32.toNat_ofNat', Nat.mod_eq_of_lt h]
  have hlength := takes_varint32 (UInt32.ofNat t.utf8ByteSize)
  rw [hcount] at hlength
  rw [flatten_text h]
  refine hlength.bind ?_
  refine (takes_bytes ((Text.Utf8.length_ofText t).trans hcount.symm)).bind_last ?_
  rw [Bytes.ofArray_toByteArray, Text.Utf8.decode_ofText]
  exact takes_pure t

/-! ## Places -/

theorem seek_of_holds {i : Input} {place : Nat} (h : i.Holds place bs) :
    seek place i = .ok () { i with position := place } := by
  rw [seek, if_neg (by have := h.inside; omega)]

/-- after the move to a place, a reading of what stands there -/
theorem Takes.at {i : Input} {place : Nat} (hr : Takes r bs a) (h : i.Holds place bs) :
    (seek place >>= fun _ => r) i = .ok a { i with position := place + bs.length } := by
  have hthere : Input.Holds { i with position := place } place bs := h.of_data rfl
  rw [bind_ok (seek_of_holds h), hr _ hthere.ahead]
  rfl

theorem Answers.at {i : Input} {place : Nat} (hr : Answers r bs a) (h : i.Holds place bs) :
    ∃ j, (seek place >>= fun _ => r) i = .ok a j ∧ j.data = i.data := by
  rw [bind_ok (seek_of_holds h)]
  exact hr { i with position := place } (Input.Holds.of_data h rfl)

/-- everything up to the end of the file, of which the bytes ahead are the start -/
theorem bytes_remaining {i : Input} (h : i.Holds i.position bs) :
    ∃ rest, bytes i.remaining i = .ok (Bytes.toByteArray (bs ++ rest)) { i with position := i.data.size } := by
  have hinside := h.inside
  have hlimit := h.addressable
  have hstop : i.position + i.remaining = i.data.size := by rw [Input.remaining]; omega
  obtain ⟨rest, hrest⟩ := h.found
  refine ⟨rest, ?_⟩
  have hcut : i.data.extract i.position i.data.size = Bytes.toByteArray (bs ++ rest) := by
    apply Bytes.ofArray_inj
    rw [Bytes.ofArray_extract, Bytes.ofArray_toByteArray, hrest, ← Bytes.length_ofArray, List.take_length]
  rw [bytes_eq, hstop, if_neg (by omega), if_neg (by omega), hcut]

end Reading

end ColumnStore.Storage
