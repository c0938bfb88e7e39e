/-
Steps that never break: what they answer has a property, and what they refuse with is not the fault of the program.

- `Reading.Checked r post`: every value that `r` reads has the property `post`, and every error of `r` says that the
  file is corrupt;
- `Guarded x post`: an answer has the property `post`, and an error is no broken precondition.

Both follow the steps of a computation: `Checked.bind` and `Guarded.bind` hand the property of one step to the next.
-/
import Mathlib.Tactic
import ColumnStore.Storage.Input

namespace ColumnStore

/-! ## Kinds of errors -/

/-- the error says what is wrong with the content of a file -/
def Error.IsCorruption (e : Error) : Prop := ∃ cause, e = .corruption cause

/-- the error says that a caller broke a precondition, which a program never shows -/
def Error.IsViolation (e : Error) : Prop := ∃ cause, e = .violation cause

theorem Error.IsCorruption.not_violation {e : Error} (h : e.IsCorruption) : ¬ e.IsViolation := by
  obtain ⟨cause, rfl⟩ := h
  rintro ⟨other, hother⟩
  simp at hother

/-! ## Guarded answers -/

/-- an answer has a property, and an error is no broken precondition -/
def Guarded {α : Type} (x : Except Error α) (post : α → Prop) : Prop :=
  match x with
  | .ok a => post a
  | .error e => ¬ e.IsViolation

namespace Guarded

variable {α β : Type} {x : Except Error α} {f : α → Except Error β} {P : α → Prop} {Q : β → Prop} {a : α} {e : Error}

theorem ok (h : P a) : Guarded (.ok a) P := h

theorem corruption {cause : Corruption} : Guarded (.error (.corruption cause) : Except Error α) P :=
  Error.IsCorruption.not_violation ⟨cause, rfl⟩

/-- an error that plainly is no broken precondition -/
theorem error (h : ∀ cause, e ≠ .violation cause) : Guarded (.error e : Except Error α) P := by
  rintro ⟨cause, hcause⟩
  exact h cause hcause

theorem bind (hx : Guarded x P) (hf : ∀ a, P a → Guarded (f a) Q) : Guarded (x >>= f) Q := by
  cases x with
  | error e => exact hx
  | ok a => exact hf a hx

theorem map (hx : Guarded x P) {g : α → β} (hg : ∀ a, P a → Q (g a)) : Guarded (g <$> x) Q := by
  cases x with
  | error e => exact hx
  | ok a => exact hg a hx

theorem mono {P' : α → Prop} (hx : Guarded x P) (h : ∀ a, P a → P' a) : Guarded x P' := by
  cases x with
  | error e => exact hx
  | ok a => exact h a hx

end Guarded

namespace Storage.Reading

/-! ## Checked readings -/

/-- every value that is read has a property, and every error says that the file is corrupt -/
def Checked {α : Type} (r : Reading α) (post : α → Prop) : Prop :=
  ∀ i, match r i with
    | .ok a _ => post a
    | .error e _ => e.IsCorruption

variable {α β : Type} {r : Reading α} {f : α → Reading β} {P : α → Prop} {Q : β → Prop} {a : α}

theorem checked_pure (h : P a) : Checked (pure a) P := fun _ => h

theorem checked_corrupt (cause : Input → Corruption) : Checked (corrupt cause : Reading α) P := fun i => ⟨cause i, rfl⟩

/-- nothing follows a corrupt file -/
theorem checked_corrupt_bind {γ : Type} (cause : Input → Corruption) (g : γ → Reading β) :
    Checked (corrupt cause >>= g) Q := fun i => ⟨cause i, rfl⟩

namespace Checked

theorem bind (hr : Checked r P) (hf : ∀ a, P a → Checked (f a) Q) : Checked (r >>= f) Q := by
  intro i
  have hfirst := hr i
  change match EStateM.bind r f i with
    | .ok b _ => Q b
    | .error e _ => e.IsCorruption
  rw [EStateM.bind]
  cases h : r i with
  | ok a j =>
    rw [h] at hfirst
    exact hf a hfirst j
  | error e j =>
    rw [h] at hfirst
    exact hfirst

theorem map (hr : Checked r P) {g : α → β} (hg : ∀ a, P a → Q (g a)) : Checked (g <$> r) Q := by
  intro i
  have hfirst := hr i
  change match EStateM.map g r i with
    | .ok b _ => Q b
    | .error e _ => e.IsCorruption
  rw [EStateM.map]
  cases h : r i with
  | ok a j =>
    rw [h] at hfirst
    exact hg a hfirst
  | error e j =>
    rw [h] at hfirst
    exact hfirst

theorem mono {P' : α → Prop} (hr : Checked r P) (h : ∀ a, P a → P' a) : Checked r P' := by
  intro i
  have hfirst := hr i
  split
  · next heq =>
    rw [heq] at hfirst
    exact h _ hfirst
  · next heq =>
    rw [heq] at hfirst
    exact hfirst

end Checked

/-! ## Primitives -/

theorem checked_get : Checked (get : Reading Input) fun _ => True := fun _ => trivial

theorem checked_seek (position : Nat) : Checked (seek position) fun _ => True := by
  intro i
  unfold seek
  by_cases h : i.data.size < position
  · rw [if_pos h]
    exact ⟨_, rfl⟩
  · rw [if_neg h]
    trivial

theorem checked_bytes (count : Nat) : Checked (bytes count) fun b => b.size = count := by
  intro i
  rw [bytes_eq]
  by_cases hlimit : addressLimit ≤ i.position + count
  · rw [if_pos hlimit]
    exact ⟨_, rfl⟩
  · rw [if_neg hlimit]
    by_cases hend : i.data.size < i.position + count
    · rw [if_pos hend]
      exact ⟨_, rfl⟩
    · rw [if_neg hend]
      change (i.data.extract i.position (i.position + count)).size = count
      rw [ByteArray.size_extract]
      omega

theorem checked_byte : Checked byte fun _ => True := by
  intro i
  unfold byte
  by_cases h : i.position < i.data.size
  · rw [dif_pos h]
    trivial
  · rw [dif_neg h]
    exact ⟨_, rfl⟩

theorem checked_littleEndian (width : Nat) : Checked (littleEndian width) fun _ => True :=
  (checked_bytes width).bind fun _ _ => checked_pure trivial

theorem checked_uint32 : Checked uint32 fun _ => True := (checked_littleEndian 4).bind fun _ _ => checked_pure trivial

theorem checked_int64 : Checked int64 fun _ => True := (checked_littleEndian 8).bind fun _ _ => checked_pure trivial

theorem checked_uint128 : Checked uint128 fun _ => True :=
  (checked_littleEndian 16).bind fun _ _ => checked_pure trivial

theorem checked_varintFrom {groups : Nat} {shift : UInt64} (h : Fits groups shift) (acc : UInt64) :
    Checked (varintFrom groups shift acc) fun _ => True := by
  induction groups generalizing shift acc with
  | zero => exact checked_corrupt _
  | succ groups ih =>
    rw [varintFrom_succ h]
    refine checked_byte.bind fun b _ => ?_
    split_ifs
    · exact ih h.next _
    · exact checked_pure trivial

theorem checked_varint : Checked varint fun _ => True := checked_varintFrom fits_maxGroups 0

theorem checked_varint32 : Checked varint32 fun _ => True := by
  refine checked_varint.bind fun value _ => ?_
  split_ifs
  · exact checked_pure trivial
  · exact checked_corrupt _

theorem checked_text : Checked text fun _ => True := by
  refine checked_varint32.bind fun length _ => ?_
  refine (checked_bytes length.toNat).bind fun bs _ => ?_
  cases Text.Utf8.decode (Bytes.ofArray bs) with
  | ok text => exact checked_pure trivial
  | error fault => exact checked_corrupt _

end Storage.Reading

end ColumnStore
