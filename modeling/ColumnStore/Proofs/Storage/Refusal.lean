/-
Readings that refuse a file which was cut off.

A `Local` reading that succeeds looks at nothing behind the bytes it took: with more bytes behind the file it answers the
same and stops at the same place. A reading that gets behind certain bytes whenever it succeeds with them ahead
(`Spans`) therefore cannot succeed on fewer of them: `Local.cut` says so for every proper prefix, whether the reading
takes the whole bytes (`Takes.spans`) or refuses those as well (`Refuses.spans`).
-/
import ColumnStore.Proofs.Bytes.Values
import ColumnStore.Proofs.Storage.Checked
import ColumnStore.Proofs.Storage.Reading

namespace ColumnStore.Storage

/-- the same file with more bytes behind it -/
def Input.extend (i : Input) (more : Bytes) : Input := { i with data := Bytes.appendTo i.data more }

@[simp] theorem Input.extend_position (i : Input) (more : Bytes) : (i.extend more).position = i.position := rfl

theorem Input.size_extend (i : Input) (more : Bytes) : (i.extend more).data.size = i.data.size + more.length := by
  rw [← Bytes.length_ofArray, Input.extend, Bytes.ofArray_appendTo, List.length_append, Bytes.length_ofArray]

/-- a range within a file is the same with more bytes behind it -/
theorem Input.extract_extend (i : Input) (more : Bytes) {start stop : Nat} (h : stop ≤ i.data.size) :
    (i.extend more).data.extract start stop = i.data.extract start stop := by
  apply Bytes.ofArray_inj
  rw [Bytes.ofArray_extract, Bytes.ofArray_extract, Input.extend, Bytes.ofArray_appendTo,
    List.take_append_of_le_length (by rwa [Bytes.length_ofArray])]

namespace Reading

variable {α β γ : Type} {r : Reading α} {f : α → Reading β} {bs xs ys : Bytes} {a : α} {b : β}

/-! ## Local readings -/

/-- a reading that succeeds stays in the file, and more bytes behind it make no difference -/
def Local (r : Reading α) : Prop := ∀ i a j, r i = .ok a j → i.position ≤ i.data.size →
  j.data = i.data ∧ j.position ≤ j.data.size ∧ ∀ more, r (i.extend more) = .ok a (j.extend more)

theorem local_pure (a : α) : Local (pure a) := by
  rintro i b j h hin
  obtain ⟨rfl, rfl⟩ : a = b ∧ i = j := by simpa [pure, EStateM.pure] using h
  exact ⟨rfl, hin, fun _ => rfl⟩

theorem local_corrupt (cause : Input → Corruption) : Local (corrupt cause : Reading α) := by
  intro i a j h
  simp [corrupt] at h

theorem local_corrupt_bind (cause : Input → Corruption) (g : γ → Reading β) : Local (corrupt cause >>= g) := by
  intro i b j h
  simp [corrupt, bind, EStateM.bind] at h

theorem local_throw (e : Error) : Local (throw e : Reading α) := by
  intro i a j h
  change EStateM.Result.error e i = .ok a j at h
  cases h

theorem local_lift (x : Except Error α) : Local (lift x) := by
  cases x with
  | ok a => exact local_pure a
  | error e => exact local_throw e

theorem Local.bind (hr : Local r) (hf : ∀ a, Local (f a)) : Local (r >>= f) := by
  intro i b k h hin
  cases hfirst : r i with
  | error e j =>
    rw [bind_error hfirst] at h
    simp at h
  | ok a j =>
    rw [bind_ok hfirst] at h
    obtain ⟨hdata, hinside, hmore⟩ := hr i a j hfirst hin
    obtain ⟨hdata', hinside', hmore'⟩ := hf a j b k h hinside
    refine ⟨hdata'.trans hdata, hinside', fun more => ?_⟩
    rw [bind_ok (hmore more), hmore' more]

theorem Local.map (hr : Local r) (g : α → β) : Local (g <$> r) := by
  rw [map_eq_pure_bind]
  exact hr.bind fun _ => local_pure _

theorem local_bytes (count : Nat) : Local (bytes count) := by
  intro i a j h hin
  rw [bytes_eq] at h
  split_ifs at h with hlimit hend
  obtain ⟨rfl, rfl⟩ : i.data.extract i.position (i.position + count) = a ∧
    { i with position := i.position + count } = j := by simpa using h
  refine ⟨rfl, not_lt.1 hend, fun more => ?_⟩
  have hsize := i.size_extend more
  rw [bytes_eq, Input.extend_position, if_neg hlimit, if_neg (by omega), i.extract_extend more (not_lt.1 hend)]
  rfl

theorem local_byte : Local byte := by
  intro i a j h hin
  unfold byte at h
  split_ifs at h with hinside
  obtain ⟨rfl, rfl⟩ : i.data[i.position] = a ∧ { i with position := i.position + 1 } = j := by simpa using h
  refine ⟨rfl, hinside, fun more => ?_⟩
  have hsize := i.size_extend more
  have hinside' : i.position < (i.extend more).data.size := by omega
  have hget : (i.extend more).data[i.position] = i.data[i.position] := by
    apply Option.some.inj
    rw [← Bytes.getElem?_ofArray _ hinside', ← Bytes.getElem?_ofArray _ hinside, Input.extend, Bytes.ofArray_appendTo,
      List.getElem?_append_left (by rwa [Bytes.length_ofArray])]
  rw [byte, dif_pos (show (i.extend more).position < (i.extend more).data.size from hinside')]
  simp only [Input.extend_position, hget]
  rfl

theorem local_littleEndian (width : Nat) : Local (littleEndian width) := (local_bytes width).bind fun _ => local_pure _

theorem local_uint32 : Local uint32 := (local_littleEndian 4).bind fun _ => local_pure _

theorem local_uint128 : Local uint128 := (local_littleEndian 16).bind fun _ => local_pure _

theorem local_varintFrom {groups : Nat} {shift : UInt64} (h : Fits groups shift) (acc : UInt64) :
    Local (varintFrom groups shift acc) := by
  induction groups generalizing shift acc with
  | zero => exact local_corrupt _
  | succ groups ih =>
    rw [varintFrom_succ h]
    refine local_byte.bind fun b => ?_
    split_ifs
    · exact ih h.next _
    · exact local_pure _

theorem local_varint : Local varint := local_varintFrom fits_maxGroups 0

theorem local_varint32 : Local varint32 := by
  refine local_varint.bind fun value => ?_
  split_ifs
  · exact local_pure _
  · exact local_corrupt _

theorem local_text : Local text := by
  refine local_varint32.bind fun length => (local_bytes length.toNat).bind fun bs => ?_
  cases Text.Utf8.decode (Bytes.ofArray bs) with
  | ok text => exact local_pure _
  | error fault => exact local_corrupt _

/-! ## Refusals -/

/-- with these bytes ahead a reading fails -/
def Refuses (r : Reading α) (bs : Bytes) : Prop := ∀ i : Input, i.Ahead bs → ∀ a j, r i ≠ .ok a j

/-- nothing follows a corrupt file, whatever is ahead -/
theorem refuses_corrupt_bind (cause : Input → Corruption) (g : γ → Reading β) (bs : Bytes) :
    Refuses (corrupt cause >>= g) bs := by
  intro i _ b j h
  simp [corrupt, bind, EStateM.bind] at h

theorem Takes.bind_refuses (hr : Takes r xs a) (hf : Refuses (f a) ys) : Refuses (r >>= f) (xs ++ ys) := by
  intro i h
  rw [bind_ok (hr i h.left)]
  exact hf _ h.right

/-- a checked reading that fails says that the file is corrupt -/
theorem Checked.corruption {P : α → Prop} {i : Input} (hr : Checked r P) (h : ∀ a j, r i ≠ .ok a j) :
    ∃ cause j, r i = .error (.corruption cause) j := by
  have hi := hr i
  cases hri : r i with
  | ok a j => exact absurd hri (h a j)
  | error e j =>
    rw [hri] at hi
    obtain ⟨cause, rfl⟩ := hi
    exact ⟨cause, j, rfl⟩

/-! ## Files that were cut off -/

/-- with these bytes ahead a reading that succeeds gets behind all of them -/
def Spans (r : Reading α) (bs : Bytes) : Prop :=
  ∀ i : Input, i.Ahead bs → ∀ a j, r i = .ok a j → i.position + bs.length ≤ j.position

theorem Takes.spans (hr : Takes r bs a) : Spans r bs := by
  intro i hi b j h
  rw [hr i hi] at h
  obtain ⟨-, rfl⟩ : a = b ∧ i.skip bs.length = j := by simpa using h
  exact le_refl _

theorem Refuses.spans (hr : Refuses r bs) : Spans r bs := fun i hi a j h => absurd h (hr i hi a j)

/-- **A cut is noticed.** A reading that has to get behind certain bytes does not succeed when the file ends before them. -/
theorem Local.cut {i : Input} {start : Bytes} (hr : Local r) (hspans : Spans r bs) (hin : i.position ≤ i.data.size)
    (hlimit : i.position + bs.length < addressLimit) (hrest : (Bytes.ofArray i.data).drop i.position = start)
    (hstart : start <+: bs) (hne : start ≠ bs) (a : α) (j : Input) : r i ≠ .ok a j := by
  intro h
  obtain ⟨hdata, hinside, hmore⟩ := hr i a j h hin
  -- the bytes that were cut off are put back
  obtain ⟨more, rfl⟩ := hstart
  have hcut : 0 < more.length := List.length_pos_of_ne_nil fun hnil => hne (by rw [hnil, List.append_nil])
  have hsize : i.data.size = i.position + start.length := by
    have hlen := congrArg List.length hrest
    rw [List.length_drop, Bytes.length_ofArray] at hlen
    omega
  have hahead : (i.extend more).Ahead (start ++ more) := by
    refine ⟨?_, hlimit, ?_⟩
    · rw [Input.size_extend, Input.extend_position]
      omega
    · rw [Input.extend_position, Input.extend, Bytes.ofArray_appendTo,
        List.drop_append_of_le_length (by rwa [Bytes.length_ofArray]), hrest]
  have hfar := hspans _ hahead a _ (hmore more)
  rw [Input.extend_position, Input.extend_position, List.length_append] at hfar
  rw [hdata] at hinside
  omega

/-- a file that ends within these bytes, from the cursor on, is corrupt for a reading -/
def RefusesCut (r : Reading α) (bs : Bytes) : Prop :=
  ∀ (i : Input) (start : Bytes), start <+: bs → start ≠ bs → i.position ≤ i.data.size →
    i.position + bs.length < addressLimit → (Bytes.ofArray i.data).drop i.position = start →
    ∃ cause j, r i = .error (.corruption cause) j

/-- what is taken as a whole is refused on every part of it -/
theorem Takes.refusesCut {P : α → Prop} (hr : Takes r bs a) (hlocal : Local r) (hchecked : Checked r P) :
    RefusesCut r bs := fun _ _ hstart hne hin hlimit hrest =>
  hchecked.corruption (hlocal.cut hr.spans hin hlimit hrest hstart hne)

end Reading

end ColumnStore.Storage
