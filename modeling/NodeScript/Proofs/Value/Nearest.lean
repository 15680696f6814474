import Mathlib
import NodeScript.Value.Number

/-!
# The float nearest to an integer

An integer becomes a float by being rounded to 53 binary digits. Rounding keeps the first digit where it is, or carries into the
place before it (`normal_roundWithAccuracy`), so that the float of an integer from two on is two or more, and that of a negative
integer is negative. An integer is thus equal as a float to a truth value only if it is the integer of that truth value
(`eq_boolInt_of_beq`).
-/

namespace NodeScript

namespace NearestFloat

open Float.Model UnpackedFloat

/-- A number with all of its 53 digits, the last one of which stands at a place between two bounds. -/
def Normal (sign : Sign) (low high : Int) (x : UnpackedFloat) : Prop :=
  ∃ m e hm, x = .finite sign m e hm ∧ m.log2 = 52 ∧ low ≤ e ∧ e ≤ high

/-- The bounds for the last digit may be wider. -/
theorem Normal.mono {sign : Sign} {low low' high high' : Int} {x : UnpackedFloat} (hx : Normal sign low high x)
    (hlow : low' ≤ low) (hhigh : high ≤ high') : Normal sign low' high' x := by
  obtain ⟨m, e, hm, heq, hlog, hle, hge⟩ := hx
  exact ⟨m, e, hm, heq, hlog, by omega, by omega⟩

/-! ## Rounding -/

theorem targetExponent_binary64 (t : Int) : Format.binary64.targetExponent t = max (t - 53) (-1074) := rfl

/-- A shift divides the mantissa by a power of two. -/
theorem mantissa_shiftRight (em : ExtendedMantissa) (k : Nat) : (em >>> k).mantissa = em.mantissa / 2 ^ k := by
  induction k with
  | zero => simp [HShiftRight.hShiftRight, Nat.repeat]
  | succ k ih =>
    have hstep : em >>> (k + 1) = (em >>> k).shiftRightOne := rfl
    rw [hstep, ExtendedMantissa.shiftRightOne, ih, Nat.div_div_eq_div_mul, Nat.pow_succ]

/-- Rounding adds one at most. -/
theorem roundedMantissa_bounds (em : ExtendedMantissa) :
    em.mantissa ≤ em.roundedMantissa ∧ em.roundedMantissa ≤ em.mantissa + 1 := by
  rcases em with ⟨m, _ | _, _ | _⟩ <;>
    simp only [ExtendedMantissa.roundedMantissa, ExtendedMantissa.accuracy, Accuracy.roundToNearestEven] <;> omega

/-- The digits that are left when the last ones are dropped. -/
theorem log2_div_two_pow {m k : Nat} (hm : m ≠ 0) (hk : k ≤ m.log2) : (m / 2 ^ k).log2 = m.log2 - k := by
  obtain ⟨hlow, hhigh⟩ := (Nat.log2_eq_iff hm).mp rfl
  have hle : 2 ^ (m.log2 - k) ≤ m / 2 ^ k := by
    rw [Nat.le_div_iff_mul_le (Nat.two_pow_pos k), ← Nat.pow_add, Nat.sub_add_cancel hk]
    exact hlow
  have hlt : m / 2 ^ k < 2 ^ (m.log2 - k + 1) := by
    rw [Nat.div_lt_iff_lt_mul (Nat.two_pow_pos k), ← Nat.pow_add]
    exact hhigh.trans_eq (by congr 1; omega)
  have hpos : 0 < 2 ^ (m.log2 - k) := Nat.two_pow_pos _
  exact (Nat.log2_eq_iff (by omega)).mpr ⟨hle, hlt⟩

/-- A factor that is a power of two moves the first digit. -/
theorem log2_mul_two_pow {m : Nat} (hm : m ≠ 0) (k : Nat) : (m * 2 ^ k).log2 = m.log2 + k := by
  obtain ⟨hlow, hhigh⟩ := (Nat.log2_eq_iff hm).mp rfl
  have hpos : 0 < 2 ^ k := Nat.two_pow_pos k
  refine (Nat.log2_eq_iff (Nat.mul_ne_zero hm hpos.ne')).mpr ⟨?_, ?_⟩
  · rw [Nat.pow_add]
    exact Nat.mul_le_mul_right _ hlow
  · rw [Nat.add_right_comm, Nat.pow_add]
    exact Nat.mul_lt_mul_of_pos_right hhigh hpos

/-- A mantissa with enough digits is cut to 53 of them. -/
theorem shiftToTargetExponent_eq {m : Nat} {e : Int} (hm : 52 ≤ m.log2) (he : -1074 ≤ m.log2 + e - 52) :
    shiftToTargetExponent Format.binary64 m e .exact =
      (ExtendedMantissa.ofMantissaAndAccuracy m .exact >>> (m.log2 - 52), e + (m.log2 - 52 : Nat)) := by
  have hshift : (Format.binary64.targetExponent (totalExponent m e) - e).toNat = m.log2 - 52 := by
    rw [targetExponent_binary64, totalExponent]
    omega
  rw [shiftToTargetExponent, shiftToExponent, hshift]

theorem ne_zero_of_log2 {m : Nat} (hm : 52 ≤ m.log2) : m ≠ 0 := by
  rintro rfl
  simp at hm

/-- A mantissa that is too long is cut to 53 digits. -/
theorem log2_mantissa_cut {m : Nat} (hm : 52 ≤ m.log2) :
    (ExtendedMantissa.ofMantissaAndAccuracy m .exact >>> (m.log2 - 52)).mantissa.log2 = 52 := by
  have hdigits := log2_div_two_pow (ne_zero_of_log2 hm) (Nat.sub_le m.log2 52)
  rw [mantissa_shiftRight]
  exact hdigits.trans (by omega)

/-- Of 53 digits rounding makes 53, or 54 by a carry. -/
theorem log2_roundedMantissa {em : ExtendedMantissa} (hem : em.mantissa.log2 = 52) :
    em.roundedMantissa.log2 = 52 ∨ em.roundedMantissa.log2 = 53 := by
  obtain ⟨hlow, hhigh⟩ := (Nat.log2_eq_iff (ne_zero_of_log2 hem.ge)).mp hem
  obtain ⟨hle, hge⟩ := roundedMantissa_bounds em
  by_cases hcarry : em.roundedMantissa < 2 ^ 53
  · exact .inl ((Nat.log2_eq_iff (by omega)).mpr ⟨by omega, hcarry⟩)
  · exact .inr ((Nat.log2_eq_iff (by omega)).mpr ⟨by omega, by omega⟩)

/-- A number that is rounded keeps its first digit at its place, or has it one place further. -/
theorem normal_roundWithAccuracy (sign : Sign) {m : Nat} {e : Int} (hm : 52 ≤ m.log2) (he : -1074 ≤ m.log2 + e - 52) :
    Normal sign (m.log2 + e - 52) (m.log2 + e - 51) (roundWithAccuracy Format.binary64 sign m e .exact) := by
  have hcut := log2_mantissa_cut hm
  set em := ExtendedMantissa.ofMantissaAndAccuracy m .exact >>> (m.log2 - 52) with hem
  -- After a carry there is a digit too many, and the last one is dropped.
  have hrounded := log2_roundedMantissa hcut
  set r := em.roundedMantissa with hr
  have hfirst := shiftToTargetExponent_eq hm he
  have hsecond := shiftToTargetExponent_eq (m := r) (e := e + (m.log2 - 52 : Nat)) (by omega) (by omega)
  have hfinal := log2_mantissa_cut (m := r) (by omega)
  simp only [roundWithAccuracy, hfirst, ← hem, ← hr, hsecond]
  rw [dif_neg (ne_zero_of_log2 hfinal.ge)]
  refine ⟨_, _, _, rfl, hfinal, ?_, ?_⟩ <;> omega

/-! ## Packing -/

/-- A number with 53 digits that is neither too small nor too large is the same after it has been packed. -/
theorem unpack_pack {sign : Sign} {low high : Int} {x : UnpackedFloat} (hx : Normal sign low high x) (hlow : -1074 ≤ low)
    (hhigh : high ≤ 971) : (Float.Model.pack x).unpack = x := by
  obtain ⟨m, e, hm, rfl, hlog, hle, hge⟩ := hx
  obtain ⟨hm52, hm53⟩ := (Nat.log2_eq_iff hm.ne').mp hlog
  have hbias : e + (Format.binary64.exponentBias : Int) + (52 : Nat) = e + 1075 := by
    have hbias : (Format.binary64.exponentBias : Int) = 1023 := rfl
    omega
  have hpack : UnpackedFloat.pack Format.binary64 (.finite sign m e hm) =
      packComponents Format.binary64 sign (BitVec.ofNat 11 (e + 1075).toNat) (BitVec.ofNat 52 m) := by
    simp only [UnpackedFloat.pack, hbias]
    rw [if_neg (by omega), if_pos (by rw [hlog]; rfl)]
  have hexponent : (BitVec.ofNat 11 (e + 1075).toNat).toNat = (e + 1075).toNat := by
    rw [BitVec.toNat_ofNat, Nat.mod_eq_of_lt (by omega)]
  have hmantissa : (1#1 ++ BitVec.ofNat 52 m).toNat = m := by
    rw [BitVec.toNat_append, ← Nat.shiftLeft_add_eq_or_of_lt (BitVec.isLt _), BitVec.toNat_ofNat]
    simp only [BitVec.toNat_ofNat, Nat.shiftLeft_eq]
    omega
  have hne (c : BitVec 11) (hc : (e + 1075).toNat ≠ c.toNat) : BitVec.ofNat 11 (e + 1075).toNat ≠ c := by
    rintro rfl
    exact hc hexponent.symm
  -- The greatest and the least of the exponents stand for infinities and for zero.
  have hfinite := hne (-1#11) (by simp; omega)
  have hnonzero := hne 0#11 (by simp; omega)
  have hunpack : (Float.Model.pack (.finite sign m e hm)).unpack =
      UnpackedFloat.unpack Format.binary64 (UnpackedFloat.pack Format.binary64 (.finite sign m e hm)) := rfl
  rw [hunpack, hpack]
  simp only [UnpackedFloat.unpack, unpackMantissa_packComponents, unpackExponent_packComponents, unpackSign_packComponents,
    Sign.ofBitVec_toBitVec, if_neg hfinite, if_neg hnonzero]
  congr 1
  rw [hexponent]
  have hbias : (Format.binary64.exponentBias : Int) = 1023 := rfl
  omega

/-! ## Integers -/

/-- The number one, unpacked. -/
def one : UnpackedFloat := .finite .positive (2 ^ 52) (-52) (by decide)

/-- A product with one keeps the first digit at its place, or has it one place further. -/
theorem normal_mul_one {low high : Int} {x : UnpackedFloat} (hx : Normal .positive low high x) (hlow : -1074 ≤ low) :
    Normal .positive low (high + 1) (UnpackedFloat.mul Format.binary64 x one) := by
  obtain ⟨m, e, hm, rfl, hlog, hle, hge⟩ := hx
  have hproduct : (m * 2 ^ 52).log2 = 104 := by rw [log2_mul_two_pow hm.ne', hlog]
  have hround := normal_roundWithAccuracy .positive (m := m * 2 ^ 52) (e := e + -52) (by omega) (by omega)
  rw [hproduct] at hround
  exact hround.mono (by omega) (by omega)

/-- The float of a natural number with at most 53 digits has all of its digits, and the last one stands where the first digit of
the number says. -/
theorem normal_ofNat {k : Nat} (hk : k ≠ 0) (hsmall : k < 2 ^ 53) :
    Normal .positive (k.log2 - 52) (k.log2 - 51) (UnpackedFloat.ofNat Format.binary64 k) := by
  have hlog : k.log2 < 53 := (Nat.log2_lt hk).mpr hsmall
  have hround : UnpackedFloat.ofNat Format.binary64 k = UnpackedFloat.round Format.binary64 .positive k 0 := by
    have hcompare : compare (k : Int) 0 = .gt := by
      rw [Int.compare_eq_gt]
      omega
    simp only [UnpackedFloat.ofNat, UnpackedFloat.ofInt, UnpackedFloat.normalize, hcompare, Int.toNat_natCast]
  have htarget : ((0 : Int) - Format.binary64.targetExponent (totalExponent k 0)).toNat = 52 - k.log2 := by
    rw [targetExponent_binary64, totalExponent]
    omega
  have hshifted : (k <<< (52 - k.log2)).log2 = 52 := by
    rw [Nat.shiftLeft_eq, log2_mul_two_pow hk]
    omega
  rw [hround]
  simp only [UnpackedFloat.round, decreaseExponent, htarget]
  have hnormal := normal_roundWithAccuracy .positive (m := k <<< (52 - k.log2)) (e := 0 - (52 - k.log2 : Nat))
    (by omega) (by omega)
  rw [hshifted] at hnormal
  exact hnormal.mono (by omega) (by omega)

/-- The float of an integer has the first digit of the integer at its place, or one or two places further. -/
theorem normal_floatOfNat {k : Nat} (hk : k ≠ 0) (hsmall : k < 2 ^ 64) :
    Normal .positive (k.log2 - 52) (k.log2 - 50) (Float.ofNat k).toModel.unpack := by
  have hlog : k.log2 < 64 := (Nat.log2_lt hk).mpr hsmall
  have hdef : Float.ofNat k = Float.ofScientific k false 0 := rfl
  by_cases h53 : k < 2 ^ 53
  · -- the float of a short integer is exact, but is multiplied by a power of ten, which is one
    have hconvert : Normal .positive (k.log2 - 52) (k.log2 - 51) (UInt64.toFloat k.toUInt64).toModel.unpack := by
      have hnormal := normal_ofNat hk h53
      have hmodel : (UInt64.toFloat k.toUInt64).toModel.unpack =
          (Float.Model.pack (UnpackedFloat.ofNat Format.binary64 k.toUInt64.toNat)).unpack := rfl
      rw [hmodel, Nat.toUInt64_eq, UInt64.toNat_ofNat_of_lt' hsmall,
        unpack_pack hnormal (by omega) (by omega)]
      exact hnormal
    have hproduct := normal_mul_one hconvert (by omega)
    have hfloat : Float.ofNat k = UInt64.toFloat k.toUInt64 * 1.0 := by
      rw [hdef, Float.ofScientific, dif_pos ⟨h53, by decide⟩]
      rfl
    have hmodel : (UInt64.toFloat k.toUInt64 * 1.0).toModel.unpack =
        (Float.Model.pack (UnpackedFloat.mul Format.binary64 (UInt64.toFloat k.toUInt64).toModel.unpack one)).unpack := rfl
    rw [hfloat, hmodel, unpack_pack hproduct (by omega) (by omega)]
    exact hproduct.mono (by omega) (by omega)
  · have hfloat : Float.ofNat k = ⟨Float.Model.ofScientific k 0⟩ := by
      rw [hdef, Float.ofScientific, dif_neg (by simpa using h53)]
      rfl
    have hmodel : (Float.Model.ofScientific k 0).unpack =
        (Float.Model.pack (UnpackedFloat.ofScientific Format.binary64 k 0)).unpack := rfl
    have hshifted : (k <<< 53 * 10 ^ 0).log2 = k.log2 + 53 := by
      rw [Nat.pow_zero, Nat.mul_one, Nat.shiftLeft_eq, log2_mul_two_pow hk]
    have hnormal := normal_roundWithAccuracy .positive (m := k <<< 53 * 10 ^ 0) (e := -53 + 0) (by omega) (by omega)
    rw [hshifted] at hnormal
    have hround : UnpackedFloat.ofScientific Format.binary64 k 0 =
        roundWithAccuracy Format.binary64 .positive (k <<< 53 * 10 ^ 0) (-53 + 0) .exact := by
      rw [UnpackedFloat.ofScientific, dif_neg hk, if_neg (by decide), if_neg (by dsimp only; omega), if_pos (Int.le_refl 0)]
      rfl
    rw [hfloat, hmodel, hround, unpack_pack hnormal (by push_cast; omega) (by push_cast; omega)]
    exact hnormal.mono (by push_cast; omega) (by push_cast; omega)

/-- The float of a negative integer is negative, and its last digit stands where the first one of the integer says, or further up
by carries. -/
theorem normal_floatOfNat_neg {k : Nat} (hk : k ≠ 0) (hsmall : k < 2 ^ 64) :
    Normal .negative (k.log2 - 52) (k.log2 - 50) (Float.neg (Float.ofNat k)).toModel.unpack := by
  have hlog : k.log2 < 64 := (Nat.log2_lt hk).mpr hsmall
  have hmodel : (Float.neg (Float.ofNat k)).toModel.unpack = (Float.Model.pack (Float.ofNat k).toModel.unpack.neg).unpack := rfl
  obtain ⟨m, e, hm, heq, hrest⟩ := normal_floatOfNat hk hsmall
  have hneg : Normal .negative (k.log2 - 52) (k.log2 - 50) (Float.ofNat k).toModel.unpack.neg := by
    rw [heq]
    exact ⟨m, e, hm, rfl, hrest⟩
  rw [hmodel, unpack_pack hneg (by omega) (by omega)]
  exact hneg

/-- A negative number is neither zero nor one, and nor is a number from two on. -/
theorem Normal.beq_boolFloat {sign : Sign} {low high : Int} {x : Float} (hx : Normal sign low high x.toModel.unpack)
    (hfar : sign = .negative ∨ -51 ≤ low) (b : Bool) : (x == boolFloat b) = false := by
  have hunpacked : (x == boolFloat b) = x.toModel.unpack.beq (boolFloat b).toModel.unpack := rfl
  have hone : (1.0 : Float).toModel.unpack = one := rfl
  have hzero : (0.0 : Float).toModel.unpack = .zero .positive := rfl
  obtain ⟨m, e, hm, heq, -, hle, -⟩ := hx
  rw [hunpacked, Bool.eq_false_iff, ne_eq, beq_iff_ne_notANumber_and_eq, heq]
  cases b with
  | false => simp [boolFloat, hzero]
  | true =>
    simp only [boolFloat, if_true, hone, one, UnpackedFloat.finite.injEq, reduceCtorEq]
    rcases hfar with rfl | hfar
    · simp
    · have hne : e ≠ -52 := by omega
      simp [hne]

end NearestFloat

/-- An integer is as a float equal to a truth value only if it is the integer of that truth value. -/
theorem eq_boolInt_of_beq {n : Int64} {b : Bool} (h : (nearestFloat n == boolFloat b) = true) : n = boolInt b := by
  have hmin := n.le_toInt
  have hmax := n.toInt_lt
  by_contra hne
  rw [← Bool.not_eq_false] at h
  apply h
  cases hn : n.toInt with
  | negSucc k =>
    have hnormal := NearestFloat.normal_floatOfNat_neg (Nat.succ_ne_zero k) (by omega)
    rw [nearestFloat, hn]
    exact hnormal.beq_boolFloat (.inl rfl) b
  | ofNat k =>
    rw [nearestFloat, hn]
    rcases Nat.lt_or_ge k 2 with hsmall | hlarge
    · -- zero is only false, and one is only true
      have hvalue : n = Int64.ofInt k := by rw [← Int64.ofInt_toInt n, hn]; rfl
      interval_cases k
      · cases b with
        | false => exact absurd hvalue hne
        | true => rfl
      · cases b with
        | false => rfl
        | true => exact absurd hvalue hne
    · have hint : n.toInt = (k : Int) := hn
      have hk : k ≠ 0 := by omega
      have hlog : 1 ≤ k.log2 := (Nat.le_log2 hk).mpr hlarge
      have hnormal := NearestFloat.normal_floatOfNat hk (by omega)
      exact hnormal.beq_boolFloat (.inr (by omega)) b

end NodeScript
