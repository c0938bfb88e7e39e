/-
The share of missing values is that of exact arithmetic.

A product of doubles is rounded, so whether a column is sparse could depend on rounding. `exceedsShare_iff` says that it
does not: for all lengths of 32 bits the answer is more than thirty of thirty-one. A double in use of all its bits is
`m * 2 ^ e` (`Normal`); counts are such doubles (`normal_toFloat`), and a product of two of them is rounded by less than
the weight of its lowest bit (`normal_mul`). The double next to 30/31 lies above it by less than `2 ^ -54`, and lengths are
so small that a product which is not a whole number keeps away from the next one (`rounded_lt_iff`).
-/
import Mathlib.Tactic
import ColumnStore.Column.Share

namespace ColumnStore.Column

open Float.Model Float.Model.UnpackedFloat

/-! ## Rounding -/

theorem mantissa_shiftRight (m : ExtendedMantissa) (k : Nat) : (m >>> k).mantissa = m.mantissa / 2 ^ k := by
  induction k with
  | zero => simp [HShiftRight.hShiftRight, Nat.repeat]
  | succ k ih =>
    change (m >>> k).mantissa / 2 = _
    rw [ih, Nat.div_div_eq_div_mul, Nat.pow_succ]

/-- a mantissa is rounded to itself or to the next one -/
theorem roundedMantissa_bounds (m : ExtendedMantissa) :
    m.mantissa ≤ m.roundedMantissa ∧ m.roundedMantissa ≤ m.mantissa + 1 := by
  obtain ⟨m, round, sticky⟩ := m
  cases round <;> cases sticky <;>
    simp [ExtendedMantissa.roundedMantissa, ExtendedMantissa.accuracy, Accuracy.roundToNearestEven]
  omega

theorem log2_eq {m : Nat} (hlow : 2 ^ 52 ≤ m) (hhigh : m < 2 ^ 53) : m.log2 = 52 := by
  have hne : m ≠ 0 := by omega
  have hle := (Nat.le_log2 hne).2 hlow
  have hlt := (Nat.log2_lt hne).2 hhigh
  omega

/-- what is left of a number without the bits below its 53 highest -/
theorem highest_bits {m k : Nat} (hne : m ≠ 0) (hlog : m.log2 = 52 + k) : 2 ^ 52 ≤ m / 2 ^ k ∧ m / 2 ^ k < 2 ^ 53 := by
  constructor
  · rw [Nat.le_div_iff_mul_le (Nat.two_pow_pos k), ← Nat.pow_add, ← hlog]
    exact Nat.log2_self_le hne
  · rw [Nat.div_lt_iff_lt_mul (Nat.two_pow_pos k), ← Nat.pow_add, show 53 + k = m.log2 + 1 by omega]
    exact Nat.lt_log2_self

/-- 53 bits are kept, the highest of them is the highest of the number -/
theorem targetExponent_eq {m : Nat} {e : Int} (h : -1022 ≤ m.log2 + e) :
    Format.binary64.targetExponent (totalExponent m e) = m.log2 + e - 52 := by
  change max ((m.log2 + 1 + e : Int) - 53) (-1074) = _
  omega

theorem shiftToTargetExponent_same {m : Nat} {e : Int} (hlow : 2 ^ 52 ≤ m) (hhigh : m < 2 ^ 53) (he : -1074 ≤ e) :
    shiftToTargetExponent Format.binary64 m e .exact = (⟨m, false, false⟩, e) := by
  have hlog := log2_eq hlow hhigh
  have htarget : Format.binary64.targetExponent (totalExponent m e) = e := by
    rw [targetExponent_eq (by omega), hlog]
    omega
  simp [shiftToTargetExponent, htarget, shiftToExponent, HShiftRight.hShiftRight, Nat.repeat,
    ExtendedMantissa.ofMantissaAndAccuracy]

theorem shiftToTargetExponent_wide {m : Nat} {e : Int} (h : 52 ≤ m.log2) (he : -1074 ≤ e) :
    shiftToTargetExponent Format.binary64 m e .exact =
      ((⟨m, false, false⟩ : ExtendedMantissa) >>> (m.log2 - 52), e + (m.log2 - 52 : Nat)) := by
  have hshift : (m.log2 + e - 52 - e).toNat = m.log2 - 52 := by omega
  simp only [shiftToTargetExponent, targetExponent_eq (show -1022 ≤ m.log2 + e by omega), shiftToExponent, hshift,
    ExtendedMantissa.ofMantissaAndAccuracy]

/-- a number is cut to 53 bits, rounded, and cut once more if that carried -/
theorem roundWithAccuracy_eq {m r m' : Nat} {e e' e'' : Int} {first second : ExtendedMantissa}
    (hfirst : shiftToTargetExponent Format.binary64 m e .exact = (first, e')) (hrounded : first.roundedMantissa = r)
    (hsecond : shiftToTargetExponent Format.binary64 r e' .exact = (second, e'')) (hmantissa : second.mantissa = m')
    (hpos : 0 < m') : roundWithAccuracy Format.binary64 .positive m e .exact = .finite .positive m' e'' hpos := by
  subst hrounded hmantissa
  rw [roundWithAccuracy, hfirst]
  dsimp only
  rw [hsecond]
  exact dif_neg (Nat.pos_iff_ne_zero.1 hpos)

theorem roundWithAccuracy_same {m : Nat} {e : Int} (hpos : 0 < m) (hlow : 2 ^ 52 ≤ m) (hhigh : m < 2 ^ 53)
    (he : -1074 ≤ e) : roundWithAccuracy Format.binary64 .positive m e .exact = .finite .positive m e hpos := by
  have hsame := shiftToTargetExponent_same hlow hhigh he
  exact roundWithAccuracy_eq hsame rfl hsame rfl hpos

/-- a number of more bits is rounded by less than the weight of the lowest bit that is kept, to 53 bits again -/
theorem roundWithAccuracy_wide {m : Nat} {e : Int} (h : 52 ≤ m.log2) (he : -1074 ≤ e) :
    ∃ r j e' hr, roundWithAccuracy Format.binary64 .positive m e .exact = .finite .positive r e' hr ∧
      e' = e + (j : Nat) ∧ 2 ^ 52 ≤ r ∧ r < 2 ^ 53 ∧ m / 2 ^ (m.log2 - 52) * 2 ^ (m.log2 - 52) ≤ r * 2 ^ j ∧
      r * 2 ^ j ≤ m + 2 ^ (m.log2 - 52) ∧ j ≤ m.log2 - 51 := by
  have hne : m ≠ 0 := by
    rintro rfl
    simp at h
  generalize hk : m.log2 - 52 = k
  obtain ⟨hlow, hhigh⟩ := highest_bits hne (show m.log2 = 52 + k by omega)
  have hbounds := roundedMantissa_bounds ((⟨m, false, false⟩ : ExtendedMantissa) >>> k)
  rw [mantissa_shiftRight] at hbounds
  dsimp only at hbounds
  generalize hrounded : ((⟨m, false, false⟩ : ExtendedMantissa) >>> k).roundedMantissa = r at hbounds
  have hlower : m / 2 ^ k * 2 ^ k ≤ r * 2 ^ k := Nat.mul_le_mul_right _ hbounds.1
  have hupper : r * 2 ^ k ≤ m + 2 ^ k := by
    have hnext := Nat.mul_le_mul_right (2 ^ k) hbounds.2
    have hfloor := Nat.div_mul_le_self m (2 ^ k)
    rw [Nat.succ_mul] at hnext
    omega
  have hfirst : shiftToTargetExponent Format.binary64 m e .exact =
      ((⟨m, false, false⟩ : ExtendedMantissa) >>> k, e + (k : Nat)) := by
    rw [shiftToTargetExponent_wide h he, hk]
  by_cases hcarry : r < 2 ^ 53
  · have hsecond := shiftToTargetExponent_same (e := e + (k : Nat)) (show 2 ^ 52 ≤ r by omega) hcarry (by omega)
    have hround := roundWithAccuracy_eq hfirst hrounded hsecond rfl (show 0 < r by omega)
    exact ⟨r, k, e + (k : Nat), by omega, hround, rfl, by omega, hcarry, hlower, hupper, by omega⟩
  · -- rounding up carries into a bit of its own, which costs one more shift
    have hr : r = 2 ^ 53 := by omega
    have hsecond := shiftToTargetExponent_wide (m := 2 ^ 53) (e := e + (k : Nat)) (by decide) (by omega)
    have hcarried : 2 ^ 52 * 2 ^ (k + 1) = 2 ^ 53 * 2 ^ k := by
      rw [← Nat.pow_add, ← Nat.pow_add]
      congr 1
      omega
    refine ⟨2 ^ 52, k + 1, e + (k : Nat) + (53 - 52 : Nat), by decide,
      roundWithAccuracy_eq hfirst (hrounded.trans hr) hsecond (by rfl) (by decide), ?_, by decide, by decide, ?_, ?_,
      by omega⟩
    · omega
    · rwa [hcarried, ← hr]
    · rwa [hcarried, ← hr]

/-! ## Doubles with all their bits in use -/

/-- a number of 53 bits is packed in its parts, the highest bit left out -/
theorem pack_normal {m : Nat} {e : Int} {b : Nat} {s : Sign} (hpos : 0 < m) (hlog : m.log2 = 52)
    (hb : (e + 1023 + 52).toNat = b) (hfits : b + 1 < 2 ^ 11) :
    UnpackedFloat.pack Format.binary64 (.finite s m e hpos) =
      packComponents Format.binary64 s (BitVec.ofNat 11 b) (BitVec.ofNat 52 m) := by
  subst hb
  change (if 2 ^ 11 ≤ (e + 1023 + 52).toNat + 1 then _ else if m.log2 + 1 = 1 + 52 then _ else _) = _
  rw [if_neg (Nat.not_le.2 hfits), if_pos (by rw [hlog])]
  rfl

theorem finite_congr {s t : Sign} {m n : Nat} {e f : Int} (hs : s = t) (hm : m = n) (he : e = f) (hpos : 0 < m)
    (hpos' : 0 < n) : UnpackedFloat.finite s m e hpos = .finite t n f hpos' := by
  subst hs hm he
  rfl

/-- what was packed in its parts is unpacked with the highest bit put back -/
theorem unpack_normal {exponent : BitVec 11} {mantissa : BitVec 52} {m : Nat} {e : Int} (hfinite : exponent ≠ -1#11)
    (hnormal : exponent ≠ 0#11) (hm : (1#1 ++ mantissa).toNat = m) (he : exponent.toNat - (1023 + 52) = e)
    (hpos : 0 < m) : UnpackedFloat.unpack Format.binary64 (packComponents Format.binary64 .positive exponent mantissa) =
      .finite .positive m e hpos := by
  have hsign : unpackSign (packComponents Format.binary64 .positive exponent mantissa) = Sign.positive.toBitVec :=
    unpackSign_packComponents
  have hexponent : unpackExponent (packComponents Format.binary64 .positive exponent mantissa) = exponent :=
    unpackExponent_packComponents
  have hmantissa : unpackMantissa (packComponents Format.binary64 .positive exponent mantissa) = mantissa :=
    unpackMantissa_packComponents
  -- neither an infinity nor a number with leading zeros
  refine (if_neg (by rwa [hexponent])).trans ?_
  refine (if_neg (by rwa [hexponent])).trans ?_
  refine finite_congr ?_ ?_ ?_ _ _
  · rw [hsign]
    rfl
  · rw [hmantissa, hm]
  · rw [hexponent, ← he]
    rfl

theorem unpack_pack {m : Nat} {e : Int} (hpos : 0 < m) (hlow : 2 ^ 52 ≤ m) (hhigh : m < 2 ^ 53) (he : -1074 ≤ e)
    (hmax : e ≤ 970) : (Float.Model.pack (.finite .positive m e hpos)).unpack = .finite .positive m e hpos := by
  generalize hb : (e + 1023 + 52).toNat = b
  have hexponent : (BitVec.ofNat 11 b).toNat = b := by
    rw [BitVec.toNat_ofNat]
    omega
  have hne (x : BitVec 11) (hx : b ≠ x.toNat) : BitVec.ofNat 11 b ≠ x := by
    rintro rfl
    exact hx hexponent.symm
  have hfinite : BitVec.ofNat 11 b ≠ -1#11 := hne _ (by change b ≠ 2047; omega)
  have hnormal : BitVec.ofNat 11 b ≠ 0#11 := hne _ (by change b ≠ 0; omega)
  have hmantissa : (1#1 ++ BitVec.ofNat 52 m).toNat = m := by
    rw [BitVec.toNat_append, ← Nat.shiftLeft_add_eq_or_of_lt (BitVec.isLt _), BitVec.toNat_ofNat]
    simp
    omega
  change UnpackedFloat.unpack Format.binary64 (UnpackedFloat.pack Format.binary64 (.finite .positive m e hpos)) = _
  rw [pack_normal hpos (log2_eq hlow hhigh) hb (by omega)]
  exact unpack_normal hfinite hnormal hmantissa (by omega) hpos

/-- a double is `m * 2 ^ e`, and `m` has 53 bits -/
structure Normal (x : Float) (m : Nat) (e : Int) : Prop where
  low : 2 ^ 52 ≤ m
  high : m < 2 ^ 53
  unpack : ∃ hpos, x.toModel.unpack = .finite .positive m e hpos

/-- the double that comes next after 30/31 -/
theorem normal_share : Normal sparseShare 8716644440071928 (-53) := ⟨by decide, by decide, by decide, rfl⟩

/-- counts are doubles without rounding -/
theorem normal_toFloat {n : UInt32} (hn : n.toNat ≠ 0) :
    Normal n.toFloat (n.toNat * 2 ^ (52 - n.toNat.log2)) (n.toNat.log2 - 52) := by
  have hlog : n.toNat.log2 < 32 := (Nat.log2_lt hn).2 n.toNat_lt
  generalize hw : n.toNat.log2 = w at hlog
  have hlow : 2 ^ 52 ≤ n.toNat * 2 ^ (52 - w) := by
    have hscaled := Nat.mul_le_mul_right (2 ^ (52 - w)) (Nat.log2_self_le hn)
    rwa [hw, ← Nat.pow_add, show w + (52 - w) = 52 by omega] at hscaled
  have hhigh : n.toNat * 2 ^ (52 - w) < 2 ^ 53 := by
    have hscaled := Nat.mul_lt_mul_of_pos_right (Nat.lt_log2_self (n := n.toNat)) (Nat.two_pow_pos (52 - w))
    rwa [hw, ← Nat.pow_add, show w + 1 + (52 - w) = 53 by omega] at hscaled
  have hpos : 0 < n.toNat * 2 ^ (52 - w) := by omega
  have hround : UnpackedFloat.ofUInt32 Format.binary64 n =
      roundWithAccuracy Format.binary64 .positive (n.toNat * 2 ^ (52 - w)) (w - 52) .exact := by
    have hsign : compare (n.toNat : Int) 0 = .gt := by
      rw [Int.compare_eq_gt]
      omega
    have htarget : Format.binary64.targetExponent (totalExponent n.toNat 0) = w - 52 := by
      rw [targetExponent_eq (by omega), hw]
      omega
    have hshift : (0 - ((w : Int) - 52)).toNat = 52 - w := by omega
    have hplace : 0 - ((52 - w : Nat) : Int) = w - 52 := by omega
    simp only [UnpackedFloat.ofUInt32, UnpackedFloat.ofNat, UnpackedFloat.ofInt, UnpackedFloat.normalize, hsign,
      UnpackedFloat.round, Int.toNat_natCast, htarget, decreaseExponent, hshift, hplace, Nat.shiftLeft_eq]
  refine ⟨hlow, hhigh, hpos, ?_⟩
  change (Float.Model.pack (UnpackedFloat.ofUInt32 Format.binary64 n)).unpack = _
  rw [hround, roundWithAccuracy_same hpos hlow hhigh (by omega), unpack_pack hpos hlow hhigh (by omega) (by omega)]

/-- a product is rounded by less than the weight of its lowest bit -/
theorem normal_mul {x y : Float} {m n : Nat} {e f : Int} (hx : Normal x m e) (hy : Normal y n f)
    (hmin : -1074 ≤ e + f) (hmax : e + f ≤ 900) :
    ∃ k r j, k ≤ 53 ∧ Normal (x * y) r (e + f + (j : Nat)) ∧ m * n / 2 ^ k * 2 ^ k ≤ r * 2 ^ j ∧
      r * 2 ^ j ≤ m * n + 2 ^ k := by
  obtain ⟨hmlow, hmhigh, hmpos, hmunpack⟩ := hx
  obtain ⟨hnlow, hnhigh, hnpos, hnunpack⟩ := hy
  have hne : m * n ≠ 0 := Nat.mul_ne_zero (by omega) (by omega)
  have hlow : 104 ≤ (m * n).log2 := by
    have hle := Nat.mul_le_mul hmlow hnlow
    rwa [Nat.le_log2 hne]
  have hhigh : (m * n).log2 < 106 := by
    have hlt := Nat.mul_lt_mul'' hmhigh hnhigh
    rwa [Nat.log2_lt hne]
  obtain ⟨r, j, e', hr, hround, rfl, hrlow, hrhigh, hlower, hupper, hj⟩ :=
    roundWithAccuracy_wide (m := m * n) (e := e + f) (by omega) hmin
  refine ⟨(m * n).log2 - 52, r, j, by omega, ⟨hrlow, hrhigh, hr, ?_⟩, hlower, hupper⟩
  change (Float.Model.pack (UnpackedFloat.mul Format.binary64 x.toModel.unpack y.toModel.unpack)).unpack = _
  rw [hmunpack, hnunpack]
  change (Float.Model.pack (roundWithAccuracy Format.binary64 .positive (m * n) (e + f) .exact)).unpack = _
  rw [hround, unpack_pack hr hrlow hrhigh (by omega) (by omega)]

/-! ## Comparing -/

/-- of two numbers of 53 bits the one with the greater exponent is greater -/
theorem scaled_lt {m n i j : Nat} (hm : m < 2 ^ 53) (hn : 2 ^ 52 ≤ n) (h : i < j) : m * 2 ^ i < n * 2 ^ j := by
  calc m * 2 ^ i < 2 ^ 53 * 2 ^ i := Nat.mul_lt_mul_of_pos_right hm (Nat.two_pow_pos i)
    _ = 2 ^ 52 * 2 ^ (i + 1) := by rw [← Nat.pow_add, ← Nat.pow_add]; congr 1; omega
    _ ≤ n * 2 ^ j := Nat.mul_le_mul hn (Nat.pow_le_pow_right (by decide) h)

theorem lt_iff_scaled {x y : Float} {m n i j : Nat} {e : Int} (hx : Normal x m (e + (i : Nat)))
    (hy : Normal y n (e + (j : Nat))) : x < y ↔ m * 2 ^ i < n * 2 ^ j := by
  obtain ⟨hmlow, hmhigh, hmpos, hmunpack⟩ := hx
  obtain ⟨hnlow, hnhigh, hnpos, hnunpack⟩ := hy
  have hfields : x < y ↔ i < j ∨ i = j ∧ m < n := by
    rw [lt_iff_compare, hmunpack, hnunpack]
    change some ((compare (e + (i : Nat)) (e + (j : Nat))).then (compare m n)) = some .lt ↔ _
    rw [Option.some.injEq, Ordering.then_eq_lt, Int.compare_eq_lt, Int.compare_eq_eq, Nat.compare_eq_lt]
    omega
  rw [hfields]
  rcases Nat.lt_trichotomy i j with h | rfl | h
  · exact iff_of_true (Or.inl h) (scaled_lt hmhigh hnlow h)
  · rw [Nat.mul_lt_mul_right (Nat.two_pow_pos i)]
    omega
  · have hgreater := scaled_lt hnhigh hmlow h
    omega

/-! ## The share -/

/-- a multiple of `2 ^ k` above the part of a number that is kept is above the number -/
theorem lt_of_floor_lt {p b k : Nat} (h : p / 2 ^ k * 2 ^ k < b * 2 ^ k) : p < b * 2 ^ k := by
  rw [← Nat.div_lt_iff_lt_mul (Nat.two_pow_pos k)]
  exact Nat.lt_of_mul_lt_mul_right h

/-- less of the product is rounded away than what it lacks for the next multiple of thirty-one -/
theorem rounded_lt_iff {count missing product w k : Nat} (hcount : count < 2 ^ 32) (hw : w < 32) (hk : k ≤ 53)
    (hlower : count * 8716644440071928 * 2 ^ (52 - w) / 2 ^ k * 2 ^ k ≤ product)
    (hupper : product ≤ count * 8716644440071928 * 2 ^ (52 - w) + 2 ^ k) :
    product < missing * 2 ^ 53 * 2 ^ (52 - w) ↔ 30 * count < 31 * missing := by
  constructor
  · intro h
    have hmultiple : missing * 2 ^ 53 * 2 ^ (52 - w) = missing * 2 ^ (105 - w - k) * 2 ^ k := by
      rw [Nat.mul_assoc, Nat.mul_assoc, ← Nat.pow_add, ← Nat.pow_add]
      congr 2
      omega
    have hfloor := Nat.lt_of_le_of_lt hlower h
    rw [hmultiple] at hfloor
    have hexact := lt_of_floor_lt hfloor
    rw [← hmultiple] at hexact
    have hproduct := Nat.lt_of_mul_lt_mul_right hexact
    omega
  · intro h
    have hgap : (count * 8716644440071928 + 2 ^ 48) * 2 ^ (52 - w) ≤ missing * 2 ^ 53 * 2 ^ (52 - w) :=
      Nat.mul_le_mul_right _ (by omega)
    have hrounding : 2 ^ k < 2 ^ 48 * 2 ^ (52 - w) := by
      rw [← Nat.pow_add]
      exact Nat.pow_lt_pow_right (by decide) (by omega)
    rw [Nat.add_mul] at hgap
    omega

/-- **The share is exact.** The rounded product tells the same as thirty of thirty-one. -/
theorem exceedsShare_iff (missing count : UInt32) :
    exceedsShare missing count = true ↔ 30 * count.toNat < 31 * missing.toNat := by
  have hcount := count.toNat_lt
  rw [exceedsShare, decide_eq_true_iff]
  by_cases hmissing : missing.toNat = 0
  · obtain rfl : missing = 0 := UInt32.toNat_inj.1 hmissing
    refine iff_of_false ?_ (by simp)
    exact decide_eq_false_iff_not.1 (exceedsShare_zero count)
  by_cases hempty : count.toNat = 0
  · obtain rfl : count = 0 := UInt32.toNat_inj.1 hempty
    have hzero : ((0 : UInt32).toFloat * sparseShare).toModel.unpack = .zero .positive := rfl
    obtain ⟨-, -, hpos, hright⟩ := normal_toFloat hmissing
    rw [lt_iff_compare, hzero, hright]
    exact iff_of_true rfl (by simp; omega)
  -- both sides as multiples of the lowest bit of the exact product
  have hlog := (Nat.log2_lt hempty).2 hcount
  have hlog' := (Nat.log2_lt hmissing).2 missing.toNat_lt
  have hright := normal_toFloat hmissing
  obtain ⟨k, r, j, hk, hleft, hlower, hupper⟩ := normal_mul (normal_toFloat hempty) normal_share (by omega) (by omega)
  generalize count.toNat.log2 = w at *
  generalize missing.toNat.log2 = v at *
  rw [show (v : Int) - 52 = w - 52 + -53 + (53 + v - w : Nat) by omega] at hright
  have hscale : missing.toNat * 2 ^ (52 - v) * 2 ^ (53 + v - w) = missing.toNat * 2 ^ 53 * 2 ^ (52 - w) := by
    rw [Nat.mul_assoc, Nat.mul_assoc, ← Nat.pow_add, ← Nat.pow_add]
    congr 2
    omega
  rw [Nat.mul_right_comm] at hlower hupper
  rw [lt_iff_scaled hleft hright, hscale]
  exact rounded_lt_iff hcount hlog hk hlower hupper

end ColumnStore.Column
