import NodeScript.Decimal.Shortest
import NodeScript.Proofs.Value.Nearest

/-!
# A decimal is read as the number it stands for

Reading rounds a mantissa that was shifted and cut on the way, from a product for a whole decimal and from a division for a
fraction. What is kept of the number on the way says where it was cut (`NearestFloat.Cuts`), a number is cut in one way only, and
all ways end at the place of its last digit (`NearestFloat.lastPlace`), so that the result depends on nothing but the rational
number (`Decimal.toFloat_congr`). A number that has few enough digits is not changed (`NearestFloat.round_exact`), and so the
decimal that is found for it, or else the exact one, reads as the number itself (`Decimal.toFloat_shortest`).
-/

namespace NodeScript

namespace NearestFloat

open Float.Model UnpackedFloat

/-! ## Cutting a number -/

/-- A number cut behind its units: the units, the binary digit behind them, and whether anything is left behind that. -/
def Cuts (em : ExtendedMantissa) (r : ℚ) : Prop :=
  ∃ u : ℚ, 0 ≤ u ∧ u < 1 ∧ 2 * r = 2 * em.mantissa + em.roundBit.toNat + u ∧ (em.stickyBit = true ↔ u ≠ 0)

/-- The units and the digit behind them are twice the number, rounded down. -/
theorem Cuts.floor {em : ExtendedMantissa} {r : ℚ} (h : Cuts em r) : ⌊2 * r⌋ = 2 * (em.mantissa : ℤ) + em.roundBit.toNat := by
  obtain ⟨u, hu0, hu1, hr, -⟩ := h
  rw [hr, Int.floor_eq_iff]
  push_cast
  constructor <;> linarith

/-- There is one way to cut a number. -/
theorem Cuts.unique {em em' : ExtendedMantissa} {r : ℚ} (h : Cuts em r) (h' : Cuts em' r) : em = em' := by
  have hfloor : 2 * em.mantissa + em.roundBit.toNat = 2 * em'.mantissa + em'.roundBit.toNat := by
    have := h.floor.symm.trans h'.floor
    omega
  have hbit := em.roundBit.toNat_lt
  have hbit' := em'.roundBit.toNat_lt
  obtain ⟨u, -, -, hr, hsticky⟩ := h
  obtain ⟨u', -, -, hr', hsticky'⟩ := h'
  have hu : u = u' := by
    have : (2 * em.mantissa + em.roundBit.toNat : ℚ) = 2 * em'.mantissa + em'.roundBit.toNat := by exact_mod_cast hfloor
    linarith
  have hround : em.roundBit = em'.roundBit := by
    have htoNat : em.roundBit.toNat = em'.roundBit.toNat := by omega
    cases hb : em.roundBit <;> cases hb' : em'.roundBit <;> simp_all
  have hrest : em.stickyBit = em'.stickyBit := by
    rw [Bool.eq_iff_iff, hsticky, hsticky', hu]
  obtain ⟨m, b, s⟩ := em
  obtain ⟨m', b', s'⟩ := em'
  dsimp only at *
  subst hround hrest
  congr 1
  omega

/-- A shift by one place halves the number. -/
theorem Cuts.shiftRightOne {em : ExtendedMantissa} {r : ℚ} (h : Cuts em r) : Cuts em.shiftRightOne (r / 2) := by
  obtain ⟨u, hu0, hu1, hr, hsticky⟩ := h
  have hhalf : (em.mantissa : ℚ) = 2 * (em.mantissa / 2 : ℕ) + (em.mantissa % 2 : ℕ) := by
    exact_mod_cast (Nat.div_add_mod em.mantissa 2).symm
  have hdigit : (em.mantissa % 2 != 0).toNat = em.mantissa % 2 := by
    rcases Nat.mod_two_eq_zero_or_one em.mantissa with h | h <;> simp [h]
  have hbit : (em.roundBit.toNat : ℚ) ≤ 1 := by exact_mod_cast em.roundBit.toNat_le
  have hbit0 : (0 : ℚ) ≤ em.roundBit.toNat := Nat.cast_nonneg _
  refine ⟨(em.roundBit.toNat + u) / 2, by linarith, by linarith, ?_, ?_⟩
  · simp only [ExtendedMantissa.shiftRightOne, hdigit]
    linarith
  · simp only [ExtendedMantissa.shiftRightOne, Bool.or_eq_true, hsticky]
    cases em.roundBit with
    | false => simp
    | true =>
      have : (1 + u) / 2 ≠ 0 := by linarith
      simpa using this

/-- A shift by some places divides the number by a power of two; by induction on the places. -/
theorem Cuts.shiftRight {em : ExtendedMantissa} {r : ℚ} (h : Cuts em r) (k : ℕ) : Cuts (em >>> k) (r / 2 ^ k) := by
  induction k with
  | zero => simpa [HShiftRight.hShiftRight, Nat.repeat] using h
  | succ k ih =>
    have hstep : em >>> (k + 1) = (em >>> k).shiftRightOne := rfl
    rw [hstep, pow_succ, ← div_div]
    exact ih.shiftRightOne

theorem mantissa_ofMantissaAndAccuracy (m : ℕ) (accuracy : Accuracy) :
    (ExtendedMantissa.ofMantissaAndAccuracy m accuracy).mantissa = m := by
  rcases accuracy with _ | (_ | _ | _) <;> rfl

/-- A natural number is cut with nothing left behind its units. -/
theorem cuts_exact (m : ℕ) : Cuts (.ofMantissaAndAccuracy m .exact) m :=
  ⟨0, le_rfl, one_pos, by simp [ExtendedMantissa.ofMantissaAndAccuracy], by simp [ExtendedMantissa.ofMantissaAndAccuracy]⟩

/-- A quotient of natural numbers is cut by division. -/
theorem cuts_fraction (n : ℕ) {d : ℕ} (hd : 0 < d) :
    Cuts (.ofMantissaAndAccuracy (n / d) (accuracyOfFraction (n % d) d)) (n / d) := by
  have hd' : (0 : ℚ) < d := by exact_mod_cast hd
  have hlt : ((n % d : ℕ) : ℚ) < d := by exact_mod_cast Nat.mod_lt n hd
  have hn : (n : ℚ) / d = (n / d : ℕ) + (n % d : ℕ) / d := by
    have : (n : ℚ) = d * (n / d : ℕ) + (n % d : ℕ) := by exact_mod_cast (Nat.div_add_mod n d).symm
    field_simp
    linarith
  unfold accuracyOfFraction
  split
  · rename_i hzero
    rw [hn, hzero]
    simpa using cuts_exact (n / d)
  · rename_i hrest
    have hpos : (0 : ℚ) < (n % d : ℕ) := by exact_mod_cast Nat.pos_of_ne_zero hrest
    rw [hn]
    cases hcompare : compare (2 * (n % d)) d with
    | lt =>
      have hlt : (2 * (n % d : ℕ) : ℚ) < d := by exact_mod_cast Nat.compare_eq_lt.mp hcompare
      refine ⟨2 * ((n % d : ℕ) / d), by positivity, ?_, by simp [ExtendedMantissa.ofMantissaAndAccuracy]; ring, ?_⟩
      · rw [← mul_div_assoc, div_lt_one hd']
        exact hlt
      · have : (2 * ((n % d : ℕ) / d) : ℚ) ≠ 0 := by positivity
        simpa [ExtendedMantissa.ofMantissaAndAccuracy] using this
    | eq =>
      have heq : (2 * (n % d : ℕ) : ℚ) = d := by exact_mod_cast Nat.compare_eq_eq.mp hcompare
      refine ⟨0, le_rfl, one_pos, ?_, by simp [ExtendedMantissa.ofMantissaAndAccuracy]⟩
      have hhalf : (2 * ((n % d : ℕ) / d) : ℚ) = 1 := by rw [← mul_div_assoc, heq, div_self hd'.ne']
      rw [mul_add, hhalf, mantissa_ofMantissaAndAccuracy, add_zero]
      rfl
    | gt =>
      have hgt : (d : ℚ) < (2 * (n % d : ℕ) : ℚ) := by exact_mod_cast Nat.compare_eq_gt.mp hcompare
      have hone : 1 < (2 * ((n % d : ℕ) / d) : ℚ) := by
        rw [← mul_div_assoc, one_lt_div hd']
        exact hgt
      refine ⟨2 * ((n % d : ℕ) / d) - 1, by linarith, ?_, by simp [ExtendedMantissa.ofMantissaAndAccuracy]; ring, ?_⟩
      · have : ((n % d : ℕ) / d : ℚ) < 1 := by rw [div_lt_one hd']; exact hlt
        linarith
      · have : (2 * ((n % d : ℕ) / d) - 1 : ℚ) ≠ 0 := by linarith
        simpa [ExtendedMantissa.ofMantissaAndAccuracy] using this

/-! ## Where a number is cut -/

/-- The place of the first binary digit of a number. -/
theorem log_eq {q : ℚ} {k : ℤ} (hlow : 2 ^ k ≤ q) (hhigh : q < 2 ^ (k + 1)) : Int.log 2 q = k := by
  have hq : 0 < q := lt_of_lt_of_le (by positivity) hlow
  have hle := (Int.zpow_le_iff_le_log (b := 2) one_lt_two hq).mp (by exact_mod_cast hlow)
  have hlt := (Int.lt_zpow_iff_log_lt (b := 2) one_lt_two hq).mp (by exact_mod_cast hhigh)
  omega

/-- What stands behind the units does not change the place of the first digit. -/
theorem log_eq_of_units {m : ℕ} (hm : m ≠ 0) {e : ℤ} {q : ℚ} (hle : (m : ℚ) * 2 ^ e ≤ q) (hlt : q < (m + 1) * 2 ^ e) :
    Int.log 2 q = m.log2 + e := by
  obtain ⟨hlow, hhigh⟩ := (Nat.log2_eq_iff hm).mp rfl
  apply log_eq
  · refine le_trans ?_ hle
    rw [zpow_add₀ two_ne_zero, zpow_natCast]
    gcongr
    exact_mod_cast hlow
  · refine lt_of_lt_of_le hlt ?_
    rw [add_right_comm, zpow_add₀ two_ne_zero]
    gcongr
    exact_mod_cast hhigh

/-- The place of the last binary digit that a number keeps. -/
def lastPlace (q : ℚ) : ℤ :=
  max (Int.log 2 q - 52) (-1074)

/-- A mantissa, an exponent and an accuracy say all about a number that is needed to round it. -/
structure Describes (m : ℕ) (e : ℤ) (accuracy : Accuracy) (q : ℚ) : Prop where
  cuts : Cuts (.ofMantissaAndAccuracy m accuracy) (q / 2 ^ e)
  low : e ≤ lastPlace q

/-- The units are not more than the number. -/
theorem Cuts.le {em : ExtendedMantissa} {r : ℚ} (h : Cuts em r) : (em.mantissa : ℚ) ≤ r := by
  obtain ⟨u, hu0, -, hr, -⟩ := h
  have : (0 : ℚ) ≤ em.roundBit.toNat := Nat.cast_nonneg _
  linarith

/-- The units and one more are more than the number. -/
theorem Cuts.lt {em : ExtendedMantissa} {r : ℚ} (h : Cuts em r) : r < em.mantissa + 1 := by
  obtain ⟨u, -, hu1, hr, -⟩ := h
  have : (em.roundBit.toNat : ℚ) ≤ 1 := by exact_mod_cast em.roundBit.toNat_le
  linarith

namespace Describes

variable {m m' : ℕ} {e e' : ℤ} {accuracy accuracy' : Accuracy} {q : ℚ}

/-- The target of the first shift is the last place that the number keeps. -/
theorem target (h : Describes m e accuracy q) (hq : 0 < q) :
    Format.binary64.targetExponent (totalExponent m e) = lastPlace q := by
  have hle := h.cuts.le
  have hlt := h.cuts.lt
  have hlow := h.low
  have hpos : (0 : ℚ) < 2 ^ e := by positivity
  rw [mantissa_ofMantissaAndAccuracy, le_div_iff₀ hpos] at hle
  rw [mantissa_ofMantissaAndAccuracy, div_lt_iff₀ hpos] at hlt
  rw [targetExponent_binary64, totalExponent]
  unfold lastPlace at hlow ⊢
  by_cases hm : m = 0
  · -- then the number is less than one unit, so the last place is the least one
    subst hm
    have hlog : Int.log 2 q < e := by
      rw [← Int.lt_zpow_iff_log_lt one_lt_two hq]
      simpa using hlt
    simp only [Nat.log2_zero]
    omega
  · have hlog := log_eq_of_units hm hle hlt
    omega

/-- The first shift cuts the number at the last place that it keeps. -/
theorem shift (h : Describes m e accuracy q) (hq : 0 < q) :
    ∃ em, Cuts em (q / 2 ^ lastPlace q) ∧ shiftToTargetExponent .binary64 m e accuracy = (em, lastPlace q) := by
  have hlow := h.low
  refine ⟨ExtendedMantissa.ofMantissaAndAccuracy m accuracy >>> (lastPlace q - e).toNat, ?_, ?_⟩
  · have hplace : q / 2 ^ lastPlace q = q / 2 ^ e / 2 ^ (lastPlace q - e).toNat := by
      rw [div_div, ← zpow_natCast, ← zpow_add₀ two_ne_zero, Int.toNat_of_nonneg (by omega), add_sub_cancel]
    rw [hplace]
    exact h.cuts.shiftRight _
  · rw [shiftToTargetExponent, shiftToExponent, h.target hq, Int.toNat_of_nonneg (by omega), add_sub_cancel]

/-- What a number is rounded to does not depend on how it is described. -/
theorem round_eq (h : Describes m e accuracy q) (h' : Describes m' e' accuracy' q) (hq : 0 < q) (sign : Sign) :
    roundWithAccuracy .binary64 sign m e accuracy = roundWithAccuracy .binary64 sign m' e' accuracy' := by
  obtain ⟨em, hcuts, hshift⟩ := h.shift hq
  obtain ⟨em', hcuts', hshift'⟩ := h'.shift hq
  obtain rfl := hcuts.unique hcuts'
  rw [roundWithAccuracy, roundWithAccuracy, hshift, hshift']

end Describes

/-! ## Decimals -/

/-- A coefficient times a power of ten is described exactly, 53 places up. -/
theorem describes_product {c : ℕ} (hc : c ≠ 0) (k : ℕ) : Describes (c <<< 53 * 10 ^ k) (-53) .exact ((c : ℚ) * 10 ^ k) := by
  refine ⟨?_, ?_⟩
  · have hnumber : (c : ℚ) * (10 : ℚ) ^ k / (2 : ℚ) ^ (-53 : ℤ) = ((c <<< 53 * 10 ^ k : ℕ) : ℚ) := by
      rw [Nat.shiftLeft_eq, zpow_neg, div_inv_eq_mul]
      push_cast
      norm_cast
      ring
    rw [hnumber]
    exact cuts_exact _
  · have hone : (1 : ℚ) ≤ (c : ℚ) * 10 ^ k := by
      exact_mod_cast Nat.one_le_iff_ne_zero.mpr (Nat.mul_ne_zero hc (by positivity))
    have hlog : 0 ≤ Int.log 2 ((c : ℚ) * 10 ^ k) := by
      rw [← Int.zpow_le_iff_le_log one_lt_two (by linarith)]
      simpa using hone
    unfold lastPlace
    omega

/-- A quotient has its first digit where the first digits of its parts say, or one place further down. -/
theorem le_log_quotient {c d : ℕ} (hc : c ≠ 0) (hd : d ≠ 0) : (c.log2 : ℤ) - d.log2 - 1 ≤ Int.log 2 ((c : ℚ) / d) := by
  have hc' : (0 : ℚ) < c := by exact_mod_cast Nat.pos_of_ne_zero hc
  have hd' : (0 : ℚ) < d := by exact_mod_cast Nat.pos_of_ne_zero hd
  have hlow : (2 : ℚ) ^ (c.log2 : ℤ) ≤ c := by exact_mod_cast ((Nat.log2_eq_iff hc).mp rfl).1
  have hhigh : (d : ℚ) ≤ (2 : ℚ) ^ (d.log2 + 1 : ℤ) := by exact_mod_cast ((Nat.log2_eq_iff hd).mp rfl).2.le
  rw [← Int.zpow_le_iff_le_log one_lt_two (by positivity), le_div_iff₀ hd']
  calc (2 : ℚ) ^ ((c.log2 : ℤ) - d.log2 - 1) * d
      ≤ (2 : ℚ) ^ ((c.log2 : ℤ) - d.log2 - 1) * 2 ^ (d.log2 + 1 : ℤ) := by gcongr
    _ = (2 : ℚ) ^ (c.log2 : ℤ) := by
      rw [← zpow_add₀ two_ne_zero]
      congr 1
      omega
    _ ≤ c := hlow

/-- A quotient is described by the division that reading does: it has enough digits before it is cut. -/
theorem describes_quotient {c d : ℕ} (hc : c ≠ 0) (hd : d ≠ 0) :
    Describes (divCore .binary64 c 0 d 0).1 (divCore .binary64 c 0 d 0).2.1 (divCore .binary64 c 0 d 0).2.2 ((c : ℚ) / d) := by
  have hd' : (d : ℚ) ≠ 0 := by exact_mod_cast hd
  obtain ⟨k, hk, hdiv⟩ : ∃ k : ℕ, (-k : ℤ) = min 0 (max ((c.log2 : ℤ) - d.log2 - 53) (-1074)) ∧
      divCore .binary64 c 0 d 0 = ((c <<< k) / d, (-k : ℤ), accuracyOfFraction ((c <<< k) % d) d) := by
    refine ⟨(-(min 0 (max ((c.log2 : ℤ) - d.log2 - 53) (-1074)))).toNat, by omega, ?_⟩
    have htarget : min (0 - 0) (Format.binary64.targetExponent (totalExponent c 0 - totalExponent d 0)) =
        min 0 (max ((c.log2 : ℤ) - d.log2 - 53) (-1074)) := by
      rw [targetExponent_binary64, totalExponent, totalExponent]
      omega
    rw [divCore, htarget]
    simp only [sub_self, zero_sub]
    congr 2
    omega
  rw [hdiv]
  refine ⟨?_, ?_⟩
  · have hnumber : (c : ℚ) / d / (2 : ℚ) ^ (-k : ℤ) = ((c <<< k : ℕ) : ℚ) / d := by
      rw [Nat.shiftLeft_eq, zpow_neg, div_inv_eq_mul]
      push_cast
      rw [zpow_natCast]
      ring
    rw [hnumber]
    exact cuts_fraction (c <<< k) (Nat.pos_of_ne_zero hd)
  · have hlog := le_log_quotient hc hd
    unfold lastPlace
    dsimp only
    omega

/-- A number that is less than half of the least one is rounded to zero. -/
theorem Describes.round_eq_zero {m : ℕ} {e : ℤ} {accuracy : Accuracy} {q : ℚ} (h : Describes m e accuracy q) (hq : 0 < q)
    (hsmall : q < 2 ^ (-1075 : ℤ)) : roundWithAccuracy .binary64 .positive m e accuracy = .zero .positive := by
  have hzero : Describes 0 (-1074) (.inexact .lt) q := by
    have hdouble : 2 * (q / 2 ^ (-1074 : ℤ)) = q / 2 ^ (-1075 : ℤ) := by
      rw [show (-1074 : ℤ) = -1075 + 1 by rfl, zpow_add_one₀ two_ne_zero]
      field_simp
    refine ⟨⟨q / 2 ^ (-1075 : ℤ), by positivity, ?_, ?_, ?_⟩, le_max_right _ _⟩
    · rw [div_lt_one (by positivity)]
      exact hsmall
    · rw [hdouble]
      simp [ExtendedMantissa.ofMantissaAndAccuracy]
    · have hne : q / (2 : ℚ) ^ (-1075 : ℤ) ≠ 0 := by positivity
      simpa [ExtendedMantissa.ofMantissaAndAccuracy] using hne
  rw [h.round_eq hzero hq]
  rfl

/-- A number whose last place is too high is packed as infinity. -/
theorem pack_of_large {sign : Sign} {low high : ℤ} {x : UnpackedFloat} (hx : Normal sign low high x) (hlow : 972 ≤ low) :
    Float.Model.pack x = Float.Model.pack (.infinity sign) := by
  obtain ⟨m, e, hm, rfl, -, hle, -⟩ := hx
  have hbias : (e + (Format.binary64.exponentBias : ℤ) + (52 : ℕ)).toNat = (e + 1075).toNat := by
    have hbias : (Format.binary64.exponentBias : ℤ) = 1023 := rfl
    omega
  have hpack : UnpackedFloat.pack .binary64 (.finite sign m e hm) = UnpackedFloat.pack .binary64 (.infinity sign) := by
    simp only [UnpackedFloat.pack, hbias]
    rw [if_pos (by omega)]
  simp only [Float.Model.pack, hpack]

/-- A power of ten has at least as many binary digits as its exponent says. -/
theorem two_pow_le_ten_pow (k : ℕ) : 2 ^ k ≤ 10 ^ k :=
  Nat.pow_le_pow_left (by norm_num) k

/-- A whole decimal is read as its value, rounded. An exponent that is refused as too large makes an infinity in any case. -/
theorem pack_ofScientific_whole {c : ℕ} (hc : c ≠ 0) (k : ℕ) :
    Float.Model.pack (UnpackedFloat.ofScientific .binary64 c k) =
      Float.Model.pack (roundWithAccuracy .binary64 .positive (c <<< 53 * 10 ^ k) (-53) .exact) := by
  by_cases hlarge : (k : ℤ) > 2 ^ Format.binary64.exponentBits
  · have hinfinity : UnpackedFloat.ofScientific .binary64 c k = .infinity .positive := by
      rw [UnpackedFloat.ofScientific, dif_neg hc, if_pos hlarge]
    have hk : 2049 ≤ k := by
      dsimp only at hlarge
      omega
    have hlog : k ≤ (c <<< 53 * 10 ^ k).log2 := by
      have hshift : 0 < c <<< 53 := by
        rw [Nat.shiftLeft_eq]
        exact Nat.mul_pos (Nat.pos_of_ne_zero hc) (Nat.two_pow_pos 53)
      have hle : 10 ^ k ≤ c <<< 53 * 10 ^ k := Nat.le_mul_of_pos_left _ hshift
      have hten : 0 < 10 ^ k := Nat.pow_pos (by decide)
      rw [Nat.le_log2 (by omega)]
      exact (two_pow_le_ten_pow k).trans hle
    have hnormal := normal_roundWithAccuracy .positive (m := c <<< 53 * 10 ^ k) (e := -53) (by omega) (by omega)
    rw [hinfinity, pack_of_large hnormal (by omega)]
  · have hround : UnpackedFloat.ofScientific .binary64 c k =
        roundWithAccuracy .binary64 .positive (c <<< 53 * 10 ^ k) (-53) .exact := by
      rw [UnpackedFloat.ofScientific, dif_neg hc, if_neg hlarge, if_neg (by dsimp only; omega), if_pos (by omega)]
      rfl
    rw [hround]

/-- A decimal fraction is read as its value, rounded. An exponent that is refused as too small makes a zero in any case. -/
theorem pack_ofScientific_fraction {c : ℕ} (hc : c ≠ 0) {k : ℕ} (hk : 0 < k) :
    Float.Model.pack (UnpackedFloat.ofScientific .binary64 c (-k)) =
      Float.Model.pack (roundWithAccuracy .binary64 .positive (divCore .binary64 c 0 (10 ^ k) 0).1
        (divCore .binary64 c 0 (10 ^ k) 0).2.1 (divCore .binary64 c 0 (10 ^ k) 0).2.2) := by
  by_cases hsmall : (-k : ℤ) < -((2 ^ Format.binary64.exponentBits : ℤ) + c.log2)
  · have hzero : UnpackedFloat.ofScientific .binary64 c (-k) = .zero .positive := by
      rw [UnpackedFloat.ofScientific, dif_neg hc, if_neg (by dsimp only; omega), if_pos hsmall]
    have hc' : (0 : ℚ) < c := by exact_mod_cast Nat.pos_of_ne_zero hc
    have hten : (2 : ℚ) ^ k ≤ (10 ^ k : ℕ) := by exact_mod_cast two_pow_le_ten_pow k
    have hhigh : (c : ℚ) < 2 ^ (c.log2 + 1) := by exact_mod_cast ((Nat.log2_eq_iff hc).mp rfl).2
    have hlt : (c : ℚ) / (10 ^ k : ℕ) < 2 ^ (-1075 : ℤ) :=
      calc (c : ℚ) / (10 ^ k : ℕ) ≤ c / 2 ^ k := by gcongr
        _ < 2 ^ (c.log2 + 1) / 2 ^ k := by gcongr
        _ = (2 : ℚ) ^ ((c.log2 + 1 : ℕ) - k : ℤ) := by rw [zpow_sub₀ two_ne_zero, zpow_natCast, zpow_natCast]
        _ ≤ 2 ^ (-1075 : ℤ) := by
            refine zpow_le_zpow_right₀ one_le_two ?_
            dsimp only at hsmall
            omega
    rw [hzero, (describes_quotient hc (Nat.pow_pos (by decide)).ne').round_eq_zero (by positivity) hlt]
  · have hround : UnpackedFloat.ofScientific .binary64 c (-k) =
        div .binary64 (.finite .positive c 0 (Nat.pos_of_ne_zero hc))
          (.finite .positive (10 ^ (- -(k : ℤ)).toNat) 0 (Nat.pow_pos (by decide))) := by
      rw [UnpackedFloat.ofScientific, dif_neg hc, if_neg (by dsimp only; omega), if_neg hsmall, if_neg (by omega)]
    rw [hround, neg_neg, Int.toNat_natCast]
    rfl

end NearestFloat

namespace Decimal

open Float.Model UnpackedFloat NearestFloat

/-- The number that a decimal is. -/
def value (d : Decimal) : ℚ :=
  d.coefficient * 10 ^ d.exponent

theorem value_eq_zero_iff (d : Decimal) : d.value = 0 ↔ d.coefficient = 0 := by
  have hten : (10 : ℚ) ^ d.exponent ≠ 0 := by positivity
  simp [value, hten]

/-- A decimal is read as its value, rounded. -/
theorem exists_describes {d : Decimal} (hd : d.coefficient ≠ 0) :
    ∃ m e accuracy, Describes m e accuracy d.value ∧
      d.toFloat = .ofModel (.pack (roundWithAccuracy .binary64 .positive m e accuracy)) := by
  have hmodel : d.toFloat = .ofModel (.pack (UnpackedFloat.ofScientific .binary64 d.coefficient d.exponent)) := rfl
  rcases Int.lt_or_le d.exponent 0 with he | he
  · obtain ⟨k, hk⟩ : ∃ k : ℕ, d.exponent = -k := ⟨(-d.exponent).toNat, by omega⟩
    have hvalue : d.value = (d.coefficient : ℚ) / (10 ^ k : ℕ) := by
      rw [value, hk, zpow_neg, zpow_natCast, div_eq_mul_inv]
      push_cast
      rfl
    refine ⟨_, _, _, hvalue ▸ describes_quotient hd (Nat.pow_pos (by decide)).ne', ?_⟩
    rw [hmodel, hk, pack_ofScientific_fraction hd (by omega)]
  · obtain ⟨k, hk⟩ := Int.eq_ofNat_of_zero_le he
    have hvalue : d.value = (d.coefficient : ℚ) * 10 ^ k := by rw [value, hk, zpow_natCast]
    refine ⟨_, _, _, hvalue ▸ describes_product hd k, ?_⟩
    rw [hmodel, hk, pack_ofScientific_whole hd]

/-- A decimal with a coefficient is positive. -/
theorem value_pos {d : Decimal} (hd : d.coefficient ≠ 0) : 0 < d.value := by
  have hc : (0 : ℚ) < d.coefficient := by exact_mod_cast Nat.pos_of_ne_zero hd
  unfold value
  positivity

/-- It does not matter how the value of a decimal is described. -/
theorem toFloat_eq {d : Decimal} {m : ℕ} {e : ℤ} {accuracy : Accuracy} (hd : d.coefficient ≠ 0)
    (h : Describes m e accuracy d.value) : d.toFloat = .ofModel (.pack (roundWithAccuracy .binary64 .positive m e accuracy)) := by
  obtain ⟨m', e', accuracy', hdescribes, hfloat⟩ := exists_describes hd
  rw [hfloat, hdescribes.round_eq h (value_pos hd)]

/-- Decimals with one value are read as one number. -/
theorem toFloat_congr {d d' : Decimal} (h : d.value = d'.value) : d.toFloat = d'.toFloat := by
  have hzero : d.coefficient = 0 ↔ d'.coefficient = 0 := by
    rw [← value_eq_zero_iff, ← value_eq_zero_iff, h]
  by_cases hd : d.coefficient = 0
  · have hread (d : Decimal) (hd : d.coefficient = 0) : d.toFloat = .ofModel (.pack (.zero .positive)) := by
      have hmodel : d.toFloat = .ofModel (.pack (UnpackedFloat.ofScientific .binary64 d.coefficient d.exponent)) := rfl
      rw [hmodel, UnpackedFloat.ofScientific, dif_pos hd]
    rw [hread d hd, hread d' (hzero.mp hd)]
  · obtain ⟨m, e, accuracy, hdescribes, hfloat⟩ := exists_describes hd
    rw [hfloat, toFloat_eq (mt hzero.mpr hd) (h ▸ hdescribes)]

end Decimal

/-! ## Numbers that are not rounded -/

namespace NearestFloat

open Float.Model UnpackedFloat

theorem ofModel_pack_unpack (x : Float) : Float.ofModel (.pack x.toModel.unpack) = x :=
  Float.ofBits_toBits x

/-- What was unpacked is the same after it has been packed. -/
theorem unpack_pack_unpack (b : BitVec Format.binary64.numBits) :
    UnpackedFloat.unpack .binary64 (UnpackedFloat.pack .binary64 (UnpackedFloat.unpack .binary64 b)) =
      UnpackedFloat.unpack .binary64 b := by
  rw [pack_unpack b]
  split
  · rename_i hnan
    simp only [isNaNBits, decide_eq_true_eq] at hnan
    rw [unpack_packedNaN]
    simp [UnpackedFloat.unpack, hnan]
  · rfl

/-- The absolute value of a number has its digits. -/
theorem unpack_abs (x : Float) : x.abs.toModel.unpack = x.toModel.unpack.abs := by
  -- the bits with the other sign, which stand for the absolute value
  have hbits : ∃ b, UnpackedFloat.unpack .binary64 b = x.toModel.unpack.abs := by
    refine ⟨packComponents .binary64 .positive (unpackExponent x.toModel.toBits.toBitVec)
      (unpackMantissa x.toModel.toBits.toBitVec), ?_⟩
    unfold Float.Model.unpack UnpackedFloat.unpack
    simp only [unpackExponent_packComponents, unpackMantissa_packComponents, unpackSign_packComponents, Sign.ofBitVec_toBitVec]
    split_ifs <;> rfl
  obtain ⟨b, hb⟩ := hbits
  have hunpack := unpack_pack_unpack b
  rw [hb] at hunpack
  exact hunpack

/-- A positive number is its own absolute value. -/
theorem abs_of_positive {x : Float} {m : ℕ} {e : ℤ} {hm : 0 < m} (h : x.toModel.unpack = .finite .positive m e hm) :
    x.abs = x := by
  have habs : x.abs = .ofModel (.pack x.toModel.unpack.abs) := rfl
  rw [habs, h, UnpackedFloat.abs, ← h, ofModel_pack_unpack]

/-- A negative number is the opposite of its absolute value. -/
theorem neg_abs_of_negative {x : Float} {m : ℕ} {e : ℤ} {hm : 0 < m} (h : x.toModel.unpack = .finite .negative m e hm) :
    -x.abs = x := by
  have hneg : -x.abs = .ofModel (.pack x.abs.toModel.unpack.neg) := rfl
  have hsign : (UnpackedFloat.finite .positive m e hm).neg = .finite .negative m e hm := rfl
  rw [hneg, unpack_abs, h, UnpackedFloat.abs, hsign, ← h, ofModel_pack_unpack]

/-- A number has all its digits: 53 of them, or fewer with the last one at the least place. -/
def Fits (m : ℕ) (e : ℤ) : Prop :=
  (m.log2 = 52 ∧ -1074 ≤ e) ∨ (m.log2 < 52 ∧ e = -1074)

/-- What is unpacked has no more digits than it may keep. -/
theorem fits_of_unpack {b : BitVec Format.binary64.numBits} {sign : Sign} {m : ℕ} {e : ℤ} {hm : 0 < m}
    (h : UnpackedFloat.unpack .binary64 b = .finite sign m e hm) : Fits m e := by
  have hbias : (Format.binary64.exponentBias : ℤ) = 1023 := rfl
  unfold UnpackedFloat.unpack at h
  dsimp only at h
  split_ifs at h with hlargest hmantissa hleast hzero
  · obtain ⟨-, rfl, rfl⟩ := UnpackedFloat.finite.inj h
    right
    have hlt := (unpackMantissa b).isLt
    refine ⟨(Nat.log2_lt hm.ne').mpr hlt, ?_⟩
    rw [hleast]
    rfl
  · obtain ⟨-, rfl, rfl⟩ := UnpackedFloat.finite.inj h
    left
    have hlt := (unpackMantissa b).isLt
    have hpos : 0 < (unpackExponent b).toNat := by
      rw [BitVec.toNat_pos, BitVec.pos_iff_ne_zero]
      exact hleast
    refine ⟨?_, by omega⟩
    rw [Nat.log2_eq_iff hm.ne', BitVec.toNat_append, ← Nat.shiftLeft_add_eq_or_of_lt hlt]
    simp only [BitVec.toNat_ofNat, Nat.shiftLeft_eq]
    dsimp only at hlt
    omega

/-- A number that has no more digits than it may keep is not changed by rounding. -/
theorem round_exact {sign : Sign} {m : ℕ} {e : ℤ} (hm : 0 < m) (h : Fits m e) :
    roundWithAccuracy .binary64 sign m e .exact = .finite sign m e hm := by
  have hshift : shiftToTargetExponent .binary64 m e .exact = (ExtendedMantissa.mk m false false, e) := by
    have hnone : (Format.binary64.targetExponent (totalExponent m e) - e).toNat = 0 := by
      rw [targetExponent_binary64, totalExponent]
      unfold Fits at h
      omega
    rw [shiftToTargetExponent, shiftToExponent, hnone]
    simp only [Nat.cast_zero, add_zero]
    rfl
  have hrounded : (ExtendedMantissa.mk m false false).roundedMantissa = m := rfl
  simp only [roundWithAccuracy, hshift, hrounded]
  rw [dif_neg hm.ne']

/-- A number with its own digits describes itself. -/
theorem describes_exact {m : ℕ} {e : ℤ} (hm : 0 < m) (h : Fits m e) : Describes m e .exact ((m : ℚ) * 2 ^ e) := by
  refine ⟨?_, ?_⟩
  · rw [mul_div_cancel_right₀ _ (by positivity)]
    exact cuts_exact m
  · have hlt : (m : ℚ) * 2 ^ e < (m + 1) * 2 ^ e := by
      gcongr
      exact lt_add_one _
    rw [lastPlace, log_eq_of_units hm.ne' le_rfl hlt]
    unfold Fits at h
    omega

end NearestFloat

/-! ## The shortest decimal -/

namespace Decimal

open Float.Model UnpackedFloat NearestFloat

/-- A binary number is a decimal without a change of its value: halves are fives, one place further down. -/
theorem value_ofBinary (m : ℕ) (e : ℤ) : (ofBinary m e).value = (m : ℚ) * 2 ^ e := by
  unfold ofBinary
  split
  · rename_i he
    obtain ⟨k, rfl⟩ := Int.eq_ofNat_of_zero_le he
    simp [value]
  · rename_i he
    obtain ⟨k, rfl⟩ : ∃ k : ℕ, e = -k := ⟨(-e).toNat, by omega⟩
    simp only [value, neg_neg, Int.toNat_natCast, zpow_neg, zpow_natCast, Nat.pow_eq]
    push_cast
    rw [show (10 : ℚ) = 5 * 2 by norm_num, mul_pow]
    field_simp

/-- Every number is a decimal, and is read back from it. -/
theorem toFloat_ofBinary {x : Float} {m : ℕ} {e : ℤ} {hm : 0 < m} (h : x.toModel.unpack = .finite .positive m e hm) :
    (ofBinary m e).toFloat = x := by
  have hfits := fits_of_unpack h
  have hdescribes := describes_exact hm hfits
  rw [← value_ofBinary] at hdescribes
  have hm' : (m : ℚ) ≠ 0 := by exact_mod_cast hm.ne'
  have hne : (ofBinary m e).coefficient ≠ 0 := by
    rw [ne_eq, ← value_eq_zero_iff, value_ofBinary]
    positivity
  rw [toFloat_eq hne hdescribes, round_exact hm hfits, ← h, ofModel_pack_unpack]

/-- Zeros at the end of the coefficient go into the exponent. -/
theorem value_dropZeros (fuel : ℕ) (d : Decimal) : (dropZeros fuel d).value = d.value := by
  induction fuel generalizing d with
  | zero => rfl
  | succ fuel ih =>
    rw [dropZeros]
    split
    · rename_i hzero
      have hten : (d.coefficient : ℚ) = (d.coefficient / 10 : ℕ) * 10 := by
        exact_mod_cast (Nat.div_mul_cancel (Nat.dvd_of_mod_eq_zero hzero.1)).symm
      rw [ih, value, value, hten, zpow_add_one₀ (by norm_num)]
      ring
    · rfl

theorem value_normal (d : Decimal) : d.normal.value = d.value :=
  value_dropZeros _ d

/-- The shortest decimal of a number is read back as that number. -/
theorem toFloat_shortest {x : Float} {m : ℕ} {e : ℤ} {hm : 0 < m} (h : x.toModel.unpack = .finite .positive m e hm) :
    (shortest x m e).toFloat = x := by
  rw [shortest, toFloat_congr (value_normal _)]
  cases hshortest : shortest? x m e with
  | none => exact toFloat_ofBinary h
  | some d =>
    obtain ⟨n, -, hfind⟩ := List.exists_of_findSome?_eq_some hshortest
    simpa using List.find?_some hfind

end Decimal

end NodeScript
