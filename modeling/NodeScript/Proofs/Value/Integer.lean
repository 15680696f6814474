import Mathlib.Algebra.Order.Ring.Int
import Mathlib.Algebra.Ring.Parity
import Mathlib.Tactic.Linarith
import NodeScript.Value.Number

/-!
# Integer arithmetic is exact or traps

Integers have 64 bits, and arithmetic on them is compared here with that on integers without bounds. A sum, a difference, a product
or a power is the number itself where 64 bits hold it, and a trap where they do not. For powers that says more than that each
product on the way is checked: the way goes through squares of the base, and a square that does not fit must not be the reason for
a trap where the power would fit (`powerTimes?_eq`). The remainder is that of a division toward the floor, and neither of the two
steps that lead to it leaves the 64 bits (`isFlooredRemainder_intModulo`).
-/

namespace NodeScript

/-! ## Integers of 64 bits -/

/-- The integer is one of those that 64 bits hold. -/
def FitsInt64 (n : Int) : Prop :=
  -2 ^ 63 ≤ n ∧ n < 2 ^ 63

theorem fitsInt64_toInt (a : Int64) : FitsInt64 a.toInt :=
  ⟨a.le_toInt, a.toInt_lt⟩

/-- An integer that 64 bits hold is one of 64 bits. -/
theorem int64?_of_fits {n : Int} (h : FitsInt64 n) : ∃ a, int64? n = some a ∧ a.toInt = n := by
  have hcond : Int64.minValue.toInt ≤ n ∧ n ≤ Int64.maxValue.toInt := by
    rw [Int64.toInt_minValue, Int64.toInt_maxValue]
    exact ⟨h.1, Int.le_sub_one_of_lt h.2⟩
  refine ⟨Int64.ofInt n, ?_, Int64.toInt_ofInt_of_le h.1 h.2⟩
  rw [int64?, if_pos hcond]

/-- An integer that 64 bits do not hold is none of 64 bits. -/
theorem int64?_of_not_fits {n : Int} (h : ¬FitsInt64 n) : int64? n = none := by
  rw [int64?, if_neg]
  rintro ⟨hmin, hmax⟩
  rw [Int64.toInt_minValue] at hmin
  rw [Int64.toInt_maxValue] at hmax
  exact h ⟨hmin, Int.lt_of_le_sub_one hmax⟩

/-- An integer fits and is found, or it does not fit and is not. -/
theorem int64?_cases (n : Int) : (∃ a, int64? n = some a ∧ a.toInt = n) ∨ (int64? n = none ∧ ¬FitsInt64 n) := by
  by_cases h : FitsInt64 n
  · exact .inl (int64?_of_fits h)
  · exact .inr ⟨int64?_of_not_fits h, h⟩

theorem int64?_toInt (a : Int64) : int64? a.toInt = some a := by
  obtain ⟨b, hb, heq⟩ := int64?_of_fits (fitsInt64_toInt a)
  rw [hb, Int64.toInt_inj.mp heq]

/-- A sum that fits is the sum of 64 bits. -/
theorem toInt_add_of_fits {a b : Int64} (h : FitsInt64 (a.toInt + b.toInt)) : (a + b).toInt = a.toInt + b.toInt := by
  obtain ⟨hmin, hmax⟩ := h
  rw [Int64.toInt_add]
  apply Int.bmod_eq_of_le_mul_two
  · norm_num at hmin ⊢
    omega
  · norm_num at hmax ⊢
    omega

/-! ## Products that do not fit -/

section

variable {x y b : Int}

/-- What does not fit does not fit either when it is multiplied by a positive number. -/
theorem not_fits_mul_of_pos (hx : ¬FitsInt64 x) (hy : 1 ≤ y) : ¬FitsInt64 (x * y) := by
  rintro ⟨hmin, hmax⟩
  apply hx
  constructor
  · by_contra hlt
    nlinarith
  · by_contra hle
    nlinarith

/-- What is larger than all that fits does not fit when it is multiplied by any number but zero. -/
theorem not_fits_mul_of_lt (hx : 2 ^ 63 < x) (hy : y ≠ 0) : ¬FitsInt64 (y * x) := by
  rintro ⟨hmin, hmax⟩
  rcases Int.lt_or_gt_of_ne hy with hneg | hpos
  · nlinarith
  · nlinarith

/-- No square is `2 ^ 63`, so that a square which does not fit is larger: 3037000500 is the first number that has one. -/
theorem lt_square_of_not_fits (h : ¬FitsInt64 (b * b)) : 2 ^ 63 < b * b := by
  have hlarge : 2 ^ 63 ≤ b * b := by
    by_contra hlt
    have hnonneg : 0 ≤ b * b := mul_self_nonneg b
    exact h ⟨by linarith, by linarith⟩
  by_contra hle
  have hupper : b ≤ 3037000499 := by nlinarith
  have hlower : -3037000499 ≤ b := by nlinarith
  nlinarith

theorem one_le_square (hb : b ≠ 0) : 1 ≤ b * b := by
  have hpos : 0 < b * b := mul_self_pos.mpr hb
  omega

end

/-! ## Powers -/

/-- The steps that are left after the factor has been settled: the base is squared, and the rest of the power is taken of that. -/
theorem bind_square_eq {factor base : Int64} {k : Nat} (hk : k ≠ 0) (hzero : factor = 0 → base = 0)
    (ih : ∀ square, (factor = 0 → square = 0) → powerTimes? factor square k = int64? (factor.toInt * square.toInt ^ k)) :
    ((product? base base).bind fun square => powerTimes? factor square k) =
      int64? (factor.toInt * (base.toInt * base.toInt) ^ k) := by
  rcases int64?_cases (base.toInt * base.toInt) with ⟨square, hsome, hvalue⟩ | ⟨hnone, hlarge⟩
  · rw [product?, hsome, Option.bind_some, ih, hvalue]
    intro hfactor
    rw [← Int64.toInt_inj, hvalue, hzero hfactor]
    rfl
  · -- the square goes into the power at least once, and so does the factor, which is not zero
    have hbase : base ≠ 0 := by
      rintro rfl
      exact hlarge ⟨by decide, by decide⟩
    have hfactor : factor.toInt ≠ 0 := by
      intro h
      exact hbase (hzero (Int64.toInt_inj.mp h))
    have hsquare : 2 ^ 63 < base.toInt * base.toInt := lt_square_of_not_fits hlarge
    have hpower : base.toInt * base.toInt ≤ (base.toInt * base.toInt) ^ k := le_self_pow₀ (by linarith) hk
    rw [product?, hnone, Option.bind_none, int64?_of_not_fits]
    exact not_fits_mul_of_lt (lt_of_lt_of_le hsquare hpower) hfactor

/-- The steps that are left where the exponent is odd: the base goes into the factor, and the rest is as before. -/
theorem bind_factor_eq {factor base : Int64} {k : Nat} (hzero : factor = 0 → base = 0)
    (hrest : ∀ factor', (factor' = 0 → base = 0) → ((product? base base).bind fun square => powerTimes? factor' square k) =
      int64? (factor'.toInt * (base.toInt * base.toInt) ^ k)) :
    ((product? factor base).bind fun factor => (product? base base).bind fun square => powerTimes? factor square k) =
      int64? (factor.toInt * base.toInt * (base.toInt * base.toInt) ^ k) := by
  rcases int64?_cases (factor.toInt * base.toInt) with ⟨factor', hsome, hvalue⟩ | ⟨hnone, hlarge⟩
  · have hzero' : factor' = 0 → base = 0 := by
      rintro rfl
      rw [Int64.toInt_zero, eq_comm, mul_eq_zero] at hvalue
      rcases hvalue with h | h
      · exact hzero (Int64.toInt_inj.mp h)
      · exact Int64.toInt_inj.mp h
    rw [product?, hsome, Option.bind_some, hrest factor' hzero', hvalue]
  · -- what is left multiplies by a positive number
    have hbase : base.toInt ≠ 0 := by
      intro h
      rw [h, mul_zero] at hlarge
      exact hlarge ⟨by decide, by decide⟩
    have hpower : 1 ≤ (base.toInt * base.toInt) ^ k := one_le_pow₀ (one_le_square hbase)
    rw [product?, hnone, Option.bind_none, int64?_of_not_fits (not_fits_mul_of_pos hlarge hpower)]

/-- Squaring the base and halving the exponent gives the power times the factor, whenever that fits: no product on the way fails to
fit unless the result does. -/
theorem powerTimes?_eq (factor base : Int64) (n : Nat) (hzero : factor = 0 → base = 0) :
    powerTimes? factor base n = int64? (factor.toInt * base.toInt ^ n) := by
  induction n using Nat.strong_induction_on generalizing factor base with
  | _ n ih =>
    by_cases h0 : n = 0
    · subst h0
      rw [powerTimes?, if_pos rfl, pow_zero, mul_one, int64?_toInt]
    by_cases h1 : n = 1
    · subst h1
      rw [powerTimes?, if_neg h0, if_pos rfl, pow_one, product?]
    have hrest (factor' : Int64) (h : factor' = 0 → base = 0) :=
      bind_square_eq (by omega) h fun square h' => ih (n / 2) (by omega) factor' square h'
    rw [powerTimes?, if_neg h0, if_neg h1]
    by_cases hodd : n % 2 = 1
    · have hpow : base.toInt ^ n = base.toInt * (base.toInt * base.toInt) ^ (n / 2) := by
        have hn : n = 2 * (n / 2) + 1 := by omega
        conv_lhs => rw [hn, pow_succ', pow_mul, pow_two]
      rw [if_pos hodd, hpow, ← mul_assoc]
      exact bind_factor_eq hzero hrest
    · have hpow : base.toInt ^ n = (base.toInt * base.toInt) ^ (n / 2) := by
        have hn : n = 2 * (n / 2) := by omega
        conv_lhs => rw [hn, pow_mul, pow_two]
      rw [if_neg hodd, hpow]
      exact hrest factor hzero

/-- The power of an integer is exact for every exponent that there is. -/
theorem intPower?_eq (base : Int64) (n : Nat) : intPower? base n = int64? (base.toInt ^ n) := by
  unfold intPower?
  split
  · rw [powerTimes?_eq 1 base n (by intro h; cases h), Int64.toInt_one, one_mul]
  rename_i hn
  have hlarge : 2 ^ 32 ≤ n := Nat.le_of_not_lt hn
  have hn0 : n ≠ 0 := by omega
  split
  · rename_i hunit
    rcases hunit with rfl | rfl
    · rw [Int64.toInt_zero, zero_pow hn0]
      exact (int64?_toInt 0).symm
    · rw [Int64.toInt_one, one_pow]
      exact (int64?_toInt 1).symm
  rename_i hunit
  have hone : (-1 : Int64).toInt = -1 := by decide
  split
  · subst_vars
    rw [hone]
    by_cases heven : n % 2 = 0
    · rw [if_pos heven, (Nat.even_iff.mpr heven).neg_one_pow]
      exact (int64?_toInt 1).symm
    · rw [if_neg heven, (Nat.not_even_iff_odd.mp (mt Nat.even_iff.mp heven)).neg_one_pow]
      exact (int64?_toInt (-1)).symm
  · rename_i hminus
    -- a base of two or more, or of minus two or less
    have hbase : 2 ≤ base.toInt.natAbs := by
      have h0 : base.toInt ≠ 0 := fun h => hunit (.inl (Int64.toInt_inj.mp h))
      have h1 : base.toInt ≠ 1 := fun h => hunit (.inr (Int64.toInt_inj.mp h))
      have h2 : base.toInt ≠ -1 := fun h => hminus (Int64.toInt_inj.mp (h.trans hone.symm))
      omega
    have hpower : 2 ^ 64 ≤ (base.toInt ^ n).natAbs := by
      rw [Int.natAbs_pow]
      calc 2 ^ 64 ≤ 2 ^ n := Nat.pow_le_pow_right (by decide) (by omega)
        _ ≤ base.toInt.natAbs ^ n := Nat.pow_le_pow_left hbase n
    rw [int64?_of_not_fits]
    rintro ⟨hmin, hmax⟩
    omega

/-! ## Remainders -/

/-- What is left of an integer after a division toward the floor. -/
structure IsFlooredRemainder (a b r : Int) : Prop where
  quotient : ∃ q, a = q * b + r
  of_pos : 0 < b → 0 ≤ r ∧ r < b
  of_neg : b < 0 → b < r ∧ r ≤ 0

/-- What a division toward zero leaves is smaller than the divisor. -/
theorem natAbs_tmod_lt (a : Int) {b : Int} (hb : b ≠ 0) : (a.tmod b).natAbs < b.natAbs := by
  rw [Int.natAbs_tmod]
  exact Nat.mod_lt _ (Int.natAbs_pos.mpr hb)

/-- The two steps to the remainder are exact: what a division toward zero leaves, and the sum with the divisor where there is one. -/
theorem toInt_intModulo {a b : Int64} (hb : b ≠ 0) :
    (intModulo a b).toInt = if a.toInt.tmod b.toInt ≠ 0 ∧ ¬(a.toInt.tmod b.toInt < 0 ↔ b.toInt < 0)
      then a.toInt.tmod b.toInt + b.toInt else a.toInt.tmod b.toInt := by
  have hb' : b.toInt ≠ 0 := fun h => hb (Int64.toInt_inj.mp h)
  have hlt := natAbs_tmod_lt a.toInt hb'
  have hfits := fitsInt64_toInt b
  have hmod : (a % b).toInt = a.toInt.tmod b.toInt := Int64.toInt_mod a b
  have hcond : (a % b ≠ 0 ∧ decide (a % b < 0) ≠ decide (b < 0)) ↔
      a.toInt.tmod b.toInt ≠ 0 ∧ ¬(a.toInt.tmod b.toInt < 0 ↔ b.toInt < 0) := by
    rw [Ne, ← Int64.toInt_inj, Ne, decide_eq_decide, Int64.lt_iff_toInt_lt, Int64.lt_iff_toInt_lt, hmod, Int64.toInt_zero]
  unfold intModulo
  dsimp only
  by_cases h : a % b ≠ 0 ∧ decide (a % b < 0) ≠ decide (b < 0)
  · rw [if_pos h, if_pos (hcond.mp h), toInt_add_of_fits, hmod]
    obtain ⟨hne, hsigns⟩ := hcond.mp h
    obtain ⟨hmin, hmax⟩ := hfits
    rw [hmod]
    constructor
    · omega
    · omega
  · rw [if_neg h, if_neg (mt hcond.mpr h), hmod]

/-- The remainder is that of a division toward the floor, for all signs of both operands. -/
theorem isFlooredRemainder_intModulo (a : Int64) {b : Int64} (hb : b ≠ 0) :
    IsFlooredRemainder a.toInt b.toInt (intModulo a b).toInt := by
  have hb' : b.toInt ≠ 0 := fun h => hb (Int64.toInt_inj.mp h)
  have hlt := natAbs_tmod_lt a.toInt hb'
  have hdiv := Int.tdiv_mul_add_tmod a.toInt b.toInt
  rw [toInt_intModulo hb]
  split
  · refine ⟨⟨a.toInt.tdiv b.toInt - 1, ?_⟩, fun h => ?_, fun h => ?_⟩
    · linarith
    · omega
    · omega
  · refine ⟨⟨a.toInt.tdiv b.toInt, hdiv.symm⟩, fun h => ?_, fun h => ?_⟩
    · omega
    · omega

/-! ## Operators -/

/-- The outcome is the number, if 64 bits hold it, and else the trap for an overflow. -/
def ExactOrTraps (op : ArithOp) (n : Int) (outcome : Except Fault Int64) : Prop :=
  (FitsInt64 n → ∃ r, outcome = .ok r ∧ r.toInt = n) ∧ (¬FitsInt64 n → outcome = .error (.trap (.overflow op)))

/-- An operator that takes a number only if it fits. -/
theorem exactOrTraps_of_int64? {op : ArithOp} {n : Int} {outcome : Except Fault Int64}
    (hsome : ∀ r, int64? n = some r → outcome = .ok r) (hnone : int64? n = none → outcome = .error (.trap (.overflow op))) :
    ExactOrTraps op n outcome := by
  constructor
  · intro h
    obtain ⟨r, hr, hvalue⟩ := int64?_of_fits h
    exact ⟨r, hsome r hr, hvalue⟩
  · intro h
    exact hnone (int64?_of_not_fits h)

/-- A sum is exact, or traps. -/
theorem intArith_add (a b : Int64) : ExactOrTraps .add (a.toInt + b.toInt) (intArith .add a b) := by
  refine exactOrTraps_of_int64? (fun r hr => ?_) (fun hnone => ?_)
  · simp only [intArith, hr]
  · simp only [intArith, hnone]

/-- A power with an exponent from zero on is exact, or traps. -/
theorem intArith_pow_of_nonneg {a b : Int64} (hb : 0 ≤ b.toInt) :
    ExactOrTraps .pow (a.toInt ^ b.toInt.toNat) (intArith .pow a b) := by
  have hneg : ¬b.toInt < 0 := not_lt.mpr hb
  apply exactOrTraps_of_int64?
  · intro r hr
    simp only [intArith, if_neg hneg, intPower?_eq, hr]
  · intro hnone
    simp only [intArith, if_neg hneg, intPower?_eq, hnone]

/-- Arithmetic on integers of 64 bits is that on the integers without bounds. A sum, a difference, a product and a power with an
exponent of zero or more are exact if they fit into 64 bits, and trap if they do not. The remainder of a division by any number but
zero is that of a division toward the floor; on the way to it, neither the remainder of the division toward zero nor its sum with
the divisor, where that is taken, overflows. A quotient and a remainder by zero and a power of zero with a negative exponent
trap. -/
theorem int_arith_exact_or_traps (a b : Int64) :
    ExactOrTraps .add (a.toInt + b.toInt) (intArith .add a b) ∧
    ExactOrTraps .sub (a.toInt - b.toInt) (intArith .sub a b) ∧
    ExactOrTraps .mul (a.toInt * b.toInt) (intArith .mul a b) ∧
    (0 ≤ b.toInt → ExactOrTraps .pow (a.toInt ^ b.toInt.toNat) (intArith .pow a b)) ∧
    (b ≠ 0 → ∃ r, intArith .mod a b = .ok r ∧ IsFlooredRemainder a.toInt b.toInt r.toInt ∧
      (a % b).toInt = a.toInt.tmod b.toInt ∧
      (r.toInt = (a % b).toInt ∨ r.toInt = (a % b).toInt + b.toInt)) ∧
    intArith .div a 0 = .error (.trap .division) ∧
    intArith .mod a 0 = .error (.trap .modulo) ∧
    (b.toInt < 0 → intArith .pow 0 b = .error (.trap .zeroPower)) := by
  refine ⟨intArith_add a b, ?_, ?_, intArith_pow_of_nonneg, fun hb => ?_, rfl, rfl, fun hb => ?_⟩
  · refine exactOrTraps_of_int64? (fun r hr => ?_) (fun hnone => ?_)
    · simp only [intArith, hr]
    · simp only [intArith, hnone]
  · refine exactOrTraps_of_int64? (fun r hr => ?_) (fun hnone => ?_)
    · simp only [intArith, product?, hr]
    · simp only [intArith, product?, hnone]
  · refine ⟨intModulo a b, ?_, isFlooredRemainder_intModulo a hb, Int64.toInt_mod a b, ?_⟩
    · simp only [intArith, if_neg hb]
    · rw [toInt_intModulo hb, Int64.toInt_mod]
      split
      · exact .inr rfl
      · exact .inl rfl
  · simp only [intArith, if_pos hb, if_pos]

/-- The least integer by minus one leaves nothing, though the quotient does not fit. The least integer is a power of minus two, whose
squares stop just short of it; one power more does not fit. Minus one may be raised to the largest integer. -/
theorem int_arith_exact_at_limits :
    (∃ r, intArith .mod Int64.minValue (-1) = .ok r ∧ IsFlooredRemainder (-2 ^ 63) (-1) r.toInt ∧ r.toInt = 0) ∧
    intArith .pow (-2) 63 = .ok Int64.minValue ∧
    intArith .pow (-2) 64 = .error (.trap (.overflow .pow)) ∧
    intArith .pow (-1) Int64.maxValue = .ok (-1) ∧
    intArith .pow 0 (-1) = .error (.trap .zeroPower) := by
  obtain ⟨-, -, -, -, hmod, -⟩ := int_arith_exact_or_traps Int64.minValue (-1)
  obtain ⟨-, -, -, hmin, -⟩ := int_arith_exact_or_traps (-2) 63
  obtain ⟨-, -, -, hover, -⟩ := int_arith_exact_or_traps (-2) 64
  obtain ⟨-, -, -, hunit, -⟩ := int_arith_exact_or_traps (-1) Int64.maxValue
  obtain ⟨-, -, -, -, -, -, -, hzero⟩ := int_arith_exact_or_traps 0 (-1)
  refine ⟨?_, ?_, ?_, ?_, hzero (by decide)⟩
  · obtain ⟨r, hr, hfloor, -, -⟩ := hmod (by decide)
    refine ⟨r, hr, hfloor, ?_⟩
    obtain ⟨hlt, hle⟩ := hfloor.of_neg (by decide)
    have hone : (-1 : Int64).toInt = -1 := by decide
    omega
  · obtain ⟨r, hr, hvalue⟩ := (hmin (by decide)).1 ⟨by decide, by decide⟩
    have hr' : r = Int64.minValue := Int64.toInt_inj.mp (hvalue.trans (by decide))
    rw [hr, hr']
  · exact (hover (by decide)).2 fun h => absurd h.2 (by decide)
  · have hodd : Odd Int64.maxValue.toInt.toNat := ⟨4611686018427387903, by decide⟩
    have hpow : (-1 : Int64).toInt ^ Int64.maxValue.toInt.toNat = (-1 : Int64).toInt := by
      rw [show (-1 : Int64).toInt = -1 by decide, hodd.neg_one_pow]
    obtain ⟨r, hr, hvalue⟩ := (hunit (by decide)).1 (by rw [hpow]; exact fitsInt64_toInt (-1))
    have hr' : r = -1 := Int64.toInt_inj.mp (hvalue.trans hpow)
    rw [hr, hr']

end NodeScript
