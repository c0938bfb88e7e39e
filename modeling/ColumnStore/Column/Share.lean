/-
The share of missing values above which a column is sparse.

The share is a double, 1 - 1/31, and so are the two sides of the comparison: the product of share and length is rounded.
Rounding never makes it negative, so a column that misses nothing is not sparse (`exceedsShare_zero`); the plan of a sparse
column rests on that, since what it stores apart has to be shorter.
-/
import ColumnStore.Bytes.Basic

namespace ColumnStore.Column

/-- the greatest share of missing values of a column that is not sparse -/
def sparseShare : Float := 1.0 - 1.0 / 31.0

/-- more than the share of so many values are missing -/
def exceedsShare (missing count : UInt32) : Bool := count.toFloat * sparseShare < missing.toFloat

open Float.Model Float.Model.UnpackedFloat

theorem lt_iff_compare (x y : Float) : x < y ↔ UnpackedFloat.compare x.toModel.unpack y.toModel.unpack = some .lt := by
  change decide (x.toModel < y.toModel) = true ↔ _
  rw [decide_eq_true_iff]
  change UnpackedFloat.lt x.toModel.unpack y.toModel.unpack = true ↔ _
  rw [UnpackedFloat.lt, beq_iff_eq]

/-! ## Doubles without a minus sign -/

/-- a double without a minus sign, or none that is a number -/
def Unsigned : UnpackedFloat → Prop
  | .infinity s | .zero s | .finite s _ _ _ => s = .positive
  | .notANumber => True

theorem unpackSign_packComponents {spec : Format} {sign : Sign} {exponent : BitVec spec.exponentBits}
    {mantissa : BitVec spec.mantissaBitsWithoutImplicit} :
    unpackSign (packComponents spec sign exponent mantissa) = sign.toBitVec := by
  apply BitVec.eq_of_getLsbD_eq
  intro i hi
  obtain rfl : i = 0 := by omega
  change (BitVec.cast _ (BitVec.extractLsb _ _ (sign.toBitVec ++ exponent ++ mantissa))).getLsbD 0 = _
  simp [BitVec.getLsbD_append, BitVec.getElem_append]

theorem unsigned_ite {p : Prop} [Decidable p] {x y : UnpackedFloat} (hx : Unsigned x) (hy : Unsigned y) :
    Unsigned (if p then x else y) := by
  split <;> assumption

theorem unsigned_dite {p : Prop} [Decidable p] {x : p → UnpackedFloat} {y : ¬ p → UnpackedFloat}
    (hx : ∀ h, Unsigned (x h)) (hy : ∀ h, Unsigned (y h)) : Unsigned (dite p x y) := by
  split
  · exact hx _
  · exact hy _

theorem unsigned_packComponents (spec : Format) (exponent : BitVec spec.exponentBits)
    (mantissa : BitVec spec.mantissaBitsWithoutImplicit) :
    Unsigned (UnpackedFloat.unpack spec (packComponents spec .positive exponent mantissa)) := by
  have hsign : Sign.ofBitVec (unpackSign (packComponents spec .positive exponent mantissa)) = .positive := by
    rw [unpackSign_packComponents]
    rfl
  -- the number is infinite, none at all, zero or finite, and wherever it has a sign it is the one that was packed
  exact unsigned_ite (unsigned_ite hsign trivial) (unsigned_ite (unsigned_dite (fun _ => hsign) fun _ => hsign) hsign)

/-- to be packed into 64 bits brings no sign -/
theorem unsigned_pack {x : UnpackedFloat} (h : Unsigned x) : Unsigned (Float.Model.pack x).unpack := by
  change Unsigned (UnpackedFloat.unpack Format.binary64 (UnpackedFloat.pack Format.binary64 x))
  cases x with
  | notANumber => exact unsigned_packComponents _ _ _
  | infinity s =>
    obtain rfl : s = .positive := h
    exact unsigned_packComponents _ _ _
  | zero s =>
    obtain rfl : s = .positive := h
    exact unsigned_packComponents _ _ _
  | finite s m e hpos =>
    obtain rfl : s = .positive := h
    unfold UnpackedFloat.pack
    dsimp only
    split
    · exact unsigned_packComponents _ _ _
    · split <;> exact unsigned_packComponents _ _ _

theorem unsigned_roundWithAccuracy (m : Nat) (e : Int) (accuracy : Accuracy) :
    Unsigned (roundWithAccuracy Format.binary64 .positive m e accuracy) :=
  unsigned_dite (fun _ => rfl) fun _ => rfl

theorem unsigned_mul {x : UnpackedFloat} (h : Unsigned x) (m : Nat) (e : Int) (hpos : 0 < m) :
    Unsigned (UnpackedFloat.mul Format.binary64 x (.finite .positive m e hpos)) := by
  cases x with
  | notANumber => trivial
  | infinity s =>
    obtain rfl : s = .positive := h
    rfl
  | zero s =>
    obtain rfl : s = .positive := h
    rfl
  | finite s n f hn =>
    obtain rfl : s = .positive := h
    exact unsigned_roundWithAccuracy _ _ _

theorem unsigned_toFloat (n : UInt32) : Unsigned n.toFloat.toModel.unpack := by
  change Unsigned (Float.Model.pack (UnpackedFloat.ofUInt32 Format.binary64 n)).unpack
  refine unsigned_pack ?_
  simp only [UnpackedFloat.ofUInt32, UnpackedFloat.ofNat, UnpackedFloat.ofInt, UnpackedFloat.normalize]
  split
  · next hnegative =>
    rw [Int.compare_eq_lt] at hnegative
    omega
  · rfl
  · exact unsigned_roundWithAccuracy _ _ _

theorem compare_zero_ne_lt {x : UnpackedFloat} (h : Unsigned x) :
    UnpackedFloat.compare x (.zero .positive) ≠ some .lt := by
  cases x with
  | notANumber => nofun
  | infinity s =>
    obtain rfl : s = .positive := h
    nofun
  | zero s => nofun
  | finite s m e hpos =>
    obtain rfl : s = .positive := h
    nofun

/-- **A column that misses nothing is not sparse.** -/
theorem exceedsShare_zero (count : UInt32) : exceedsShare 0 count = false := by
  obtain ⟨m, e, hpos, hshare⟩ : ∃ m e hpos, sparseShare.toModel.unpack = .finite .positive m e hpos := ⟨_, _, _, rfl⟩
  have hproduct : Unsigned (count.toFloat * sparseShare).toModel.unpack := by
    change Unsigned (Float.Model.pack (UnpackedFloat.mul Format.binary64 _ sparseShare.toModel.unpack)).unpack
    rw [hshare]
    exact unsigned_pack (unsigned_mul (unsigned_toFloat count) m e hpos)
  have hzero : (0 : UInt32).toFloat.toModel.unpack = .zero .positive := rfl
  rw [exceedsShare, decide_eq_false_iff_not, lt_iff_compare, hzero]
  exact compare_zero_ne_lt hproduct

end ColumnStore.Column
