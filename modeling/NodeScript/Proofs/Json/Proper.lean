import Mathlib.Tactic.SplitIfs
import NodeScript.Proofs.Json.Path

/-!
# Proper documents

What every document is like that was ever a text: the keys of each object are distinct, integers have 64 bits with or without a
sign, and the other numbers are finite. A text may hold a negative number, so this rests on the opposite of a finite number
being finite (`Float.isFinite_neg`), which is a fact about exponents: negation keeps them, and only infinities and what is
not a number have the largest one.
-/

namespace NodeScript

/-! ## The opposite of a finite number -/

namespace Float

open Float.Model UnpackedFloat

/-- A number that has not the largest exponent is zero or a finite number that is not too large. -/
theorem unpack_of_exponent {b : BitVec Format.binary64.numBits} (h : unpackExponent b ≠ -1#_) :
    (∃ s, UnpackedFloat.unpack Format.binary64 b = .zero s) ∨
      ∃ s m e hm, e + 1075 < 2047 ∧ UnpackedFloat.unpack Format.binary64 b = .finite s m e hm := by
  have hlt : (unpackExponent b).toNat < 2047 := by
    have hsize := (unpackExponent b).isLt
    have hne : (unpackExponent b).toNat ≠ 2047 := fun heq => h (BitVec.eq_of_toNat_eq heq)
    dsimp only at hsize
    omega
  have hbias : (Format.binary64.exponentBias : Int) = 1023 := rfl
  delta UnpackedFloat.unpack
  rw [if_neg h]
  by_cases hzero : unpackExponent b = 0#_
  · rw [if_pos hzero]
    have hexponent : (unpackExponent b).toNat = 0 := by
      rw [hzero]
      rfl
    by_cases hmantissa : unpackMantissa b = 0#_
    · exact .inl ⟨_, dif_pos hmantissa⟩
    · exact .inr ⟨_, _, _, _, by dsimp only; omega, dif_neg hmantissa⟩
  · rw [if_neg hzero]
    exact .inr ⟨_, _, _, _, by dsimp only; omega, rfl⟩

/-- A number is finite exactly when its exponent is not the largest one. -/
theorem isFinite_unpack (b : BitVec Format.binary64.numBits) :
    (UnpackedFloat.unpack Format.binary64 b).isFinite = true ↔ unpackExponent b ≠ -1#_ := by
  by_cases hlargest : unpackExponent b = -1#_
  · refine iff_of_false ?_ (not_not_intro hlargest)
    delta UnpackedFloat.unpack
    rw [if_pos hlargest]
    dsimp only
    split_ifs <;> exact Bool.false_ne_true
  · refine iff_of_true ?_ hlargest
    obtain ⟨s, hs⟩ | ⟨s, m, e, hm, -, hfinite⟩ := unpack_of_exponent hlargest
    · rw [hs]
      rfl
    · rw [hfinite]
      rfl

/-- A number that is not too large does not get the largest exponent when it is packed. -/
theorem unpackExponent_pack_finite {s : Sign} {m : Nat} {e : Int} {hm : 0 < m} (he : e + 1075 < 2047) :
    unpackExponent (UnpackedFloat.pack Format.binary64 (.finite s m e hm)) ≠ -1#_ := by
  have hbias : (Format.binary64.exponentBias : Int) = 1023 := rfl
  have hbiased : (e + Format.binary64.exponentBias + Format.binary64.mantissaBitsWithoutImplicit).toNat + 1 < 2 ^ 11 := by
    rw [hbias]
    dsimp only
    omega
  delta UnpackedFloat.pack
  dsimp only at hbiased ⊢
  rw [if_neg (Nat.not_le_of_lt hbiased)]
  split_ifs
  · rw [unpackExponent_packComponents]
    intro heq
    have hexponent := congrArg BitVec.toNat heq
    rw [BitVec.toNat_ofNat, Nat.mod_eq_of_lt (by omega)] at hexponent
    simp at hexponent
    omega
  · rw [unpackExponent_packComponents]
    decide

/-- The opposite of a finite number has the same exponent, so that it is packed as a finite number again. -/
theorem isFinite_neg_unpack {b : BitVec Format.binary64.numBits} (h : (UnpackedFloat.unpack Format.binary64 b).isFinite) :
    (UnpackedFloat.unpack Format.binary64 (UnpackedFloat.pack Format.binary64
      (UnpackedFloat.unpack Format.binary64 b).neg)).isFinite := by
  rw [isFinite_unpack] at h ⊢
  obtain ⟨s, hs⟩ | ⟨s, m, e, hm, he, hfinite⟩ := unpack_of_exponent h
  · have hpacked : unpackExponent (UnpackedFloat.pack Format.binary64 (UnpackedFloat.zero s).neg) = 0#_ :=
      unpackExponent_packComponents
    rw [hs, hpacked]
    decide
  · rw [hfinite]
    exact unpackExponent_pack_finite he

theorem isFinite_neg {x : Float} (h : x.isFinite) : (-x).isFinite :=
  isFinite_neg_unpack h

end Float

/-! ## Proper documents -/

namespace Json

/-- A document that could be a text: the keys of an object are distinct, an integer has 64 bits with or without a sign, and every
other number is finite. -/
inductive Proper : Json → Prop where
  | null : Proper .null
  | bool (b : Bool) : Proper (.bool b)
  | int {n : Int} (low : Int64.minValue.toInt ≤ n) (high : n < UInt64.size) : Proper (.int n)
  | float {x : Float} (finite : x.isFinite) : Proper (.float x)
  | string (s : String) : Proper (.string s)
  | array {items : List Json} (all : ∀ item ∈ items, Proper item) : Proper (.array items)
  | object {members : List (String × Json)} (keys : (members.map Prod.fst).Nodup) (all : ∀ m ∈ members, Proper m.2) :
      Proper (.object members)

/-- A number is an integer of 64 bits, with or without a sign, or finite. -/
theorem proper_number {n : WrittenNumber} {doc : Json} (h : n.document? = some doc) : doc.Proper := by
  unfold WrittenNumber.document? at h
  split at h
  · rename_i hint
    simp only [WrittenNumber.isInteger, Bool.and_eq_true, decide_eq_true_eq] at hint
    cases h
    exact .int hint.1.2 hint.2
  · split at h
    · rename_i hfinite
      cases h
      refine .float ?_
      by_cases hnegative : n.negative
      · rw [if_pos hnegative]
        exact Float.isFinite_neg hfinite
      · rw [if_neg hnegative]
        exact hfinite
    · cases h

/-- The document that a text holds is proper. -/
theorem proper_of_parse? {source : String} {doc : Json} (h : parse? source = some doc) : doc.Proper :=
  Composed.of_parse? ⟨.null, .bool, proper_number, .string, .array, .object⟩ h

end Json

end NodeScript
