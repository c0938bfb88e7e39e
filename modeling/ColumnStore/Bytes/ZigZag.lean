/-
Zigzag mapping between signed and unsigned words: 0, -1, 1, -2, ... become 0, 1, 2, 3, ..., so numbers of small
magnitude get short varints. `decode_encode` and `encode_decode` make the two maps inverse to each other.
-/
namespace ColumnStore.ZigZag

def encode (v : Int64) : UInt64 := ((v <<< 1) ^^^ (v >>> 63)).toUInt64

def decode (w : UInt64) : Int64 := (w >>> 1).toInt64 ^^^ -(w &&& 1).toInt64

/-! ## Words as bits -/

/-- the sign of a word, spread over all bits -/
theorem sshiftRight_eq_sign (x : BitVec 64) : x.sshiftRight 63 = if x.msb then BitVec.allOnes 64 else 0#64 := by
  apply BitVec.eq_of_getLsbD_eq
  intro i hi
  have inside : ¬ 64 ≤ i := by omega
  rw [BitVec.getLsbD_sshiftRight]
  by_cases first : 63 + i < 64
  · obtain rfl : i = 0 := by omega
    rw [if_pos first, show 63 + 0 = 63 from rfl, show x.getLsbD 63 = x.msb from (BitVec.msb_eq_getLsbD_last x).symm]
    cases x.msb <;> rfl
  · rw [if_neg first]
    cases x.msb <;> simp [inside, hi, -BitVec.reduceAllOnes]

/-- the lowest bit of a word, spread over all bits -/
theorem neg_and_one (x : BitVec 64) : -(x &&& 1#64) = if x.getLsbD 0 then BitVec.allOnes 64 else 0#64 := by
  have low : x &&& 1#64 = if x.getLsbD 0 then 1#64 else 0#64 := by
    apply BitVec.eq_of_getLsbD_eq
    intro i hi
    rw [BitVec.getLsbD_and]
    by_cases first : i = 0
    · subst first
      cases x.getLsbD 0 <;> rfl
    · cases x.getLsbD 0 <;> simp [first]
  rw [low]
  cases x.getLsbD 0 <;> rfl

theorem toBitVec_encode (v : Int64) :
    (encode v).toBitVec = (v.toBitVec <<< 1) ^^^ (if v.toBitVec.msb then BitVec.allOnes 64 else 0#64) := by
  rw [← sshiftRight_eq_sign]
  simp [encode]

theorem toBitVec_decode (w : UInt64) :
    (decode w).toBitVec = (w.toBitVec >>> 1) ^^^ (if w.toBitVec.getLsbD 0 then BitVec.allOnes 64 else 0#64) := by
  rw [← neg_and_one]
  simp [decode]

/-! ## Inverse to each other -/

theorem decode_encode (v : Int64) : decode (encode v) = v := by
  apply Int64.toBitVec_inj.1
  rw [toBitVec_decode, toBitVec_encode]
  generalize v.toBitVec = x
  have low : ((x <<< 1) ^^^ (if x.msb then BitVec.allOnes 64 else 0#64)).getLsbD 0 = x.msb := by
    cases x.msb <;> simp [-BitVec.reduceAllOnes]
  rw [low]
  apply BitVec.eq_of_getLsbD_eq
  intro i hi
  by_cases last : i = 63
  · subst last
    rw [show x.getLsbD 63 = x.msb from (BitVec.msb_eq_getLsbD_last x).symm]
    cases x.msb <;> simp [-BitVec.reduceAllOnes]
  · have below : 1 + i < 64 := by omega
    cases x.msb <;> simp [below, hi, -BitVec.reduceAllOnes]

theorem encode_decode (w : UInt64) : encode (decode w) = w := by
  apply UInt64.toBitVec_inj.1
  rw [toBitVec_encode, toBitVec_decode]
  generalize w.toBitVec = x
  have top : ((x >>> 1) ^^^ (if x.getLsbD 0 then BitVec.allOnes 64 else 0#64)).msb = x.getLsbD 0 := by
    cases x.getLsbD 0 <;> simp [BitVec.msb_eq_getLsbD_last, -BitVec.reduceAllOnes]
  rw [top]
  apply BitVec.eq_of_getLsbD_eq
  intro i hi
  by_cases first : i = 0
  · subst first
    cases x.getLsbD 0 <;> simp [-BitVec.reduceAllOnes]
  · have back : 1 + (i - 1) = i := by omega
    cases x.getLsbD 0 <;> simp [first, hi, back, -BitVec.reduceAllOnes]

end ColumnStore.ZigZag
