import NodeScript.Proofs.Decimal.Rounding
import NodeScript.Proofs.Value.FloatText
import NodeScript.Value.Render

/-!
# Numbers are read back from their texts

A layout writes the digits of a decimal as a numeral that stands for the same rational number, wherever it puts the point
(`Decimal.Layout.writes_text`). A binary64 number is written by a decimal that reads as it (`Decimal.toFloat_shortest`), and reading
looks at nothing but the rational number (`Decimal.toFloat_congr`), so that the text of a number gives the number back
(`float_text_round_trip`). No text of a number is one of an integer as well.
-/

namespace NodeScript

namespace Decimal

/-! ## Digits -/

/-- Digits are moved up by as many places as digits follow them. -/
theorem digitsValue_append (cs cs' : List Char) : digitsValue (cs ++ cs') = digitsValue cs * 10 ^ cs'.length + digitsValue cs' := by
  show Nat.ofDigitChars 10 (cs ++ cs') 0 = Nat.ofDigitChars 10 cs 0 * 10 ^ cs'.length + Nat.ofDigitChars 10 cs' 0
  rw [Nat.ofDigitChars_append, Nat.ofDigitChars_eq_ofDigitChars_zero, Nat.mul_comm]

theorem digitsValue_zeros (k : ℕ) : digitsValue (List.replicate k '0') = 0 := by
  show Nat.ofDigitChars 10 (List.replicate k '0') 0 = 0
  rw [Nat.ofDigitChars_replicate_zero, Nat.mul_zero]

theorem digitsValue_toDigits (n : ℕ) : digitsValue (Nat.toDigits 10 n) = n :=
  Nat.ofDigitChars_ten_toDigits

theorem isDigit_of_mem_toDigits {n : ℕ} {c : Char} (hc : c ∈ Nat.toDigits 10 n) : c.isDigit :=
  Nat.isDigit_of_mem_toDigits (by decide) (by decide) hc

theorem isDigit_of_mem_zeros {k : ℕ} {c : Char} (hc : c ∈ List.replicate k '0') : c.isDigit := by
  rw [List.eq_of_mem_replicate hc]
  decide

/-! ## Layouts -/

/-- A text is a numeral for a number, and its point or its power of ten tells it from an integer. -/
def Writes (cs : List Char) (q : ℚ) : Prop :=
  ∃ n : Numeral, cs = n.text ∧ n.decimal.value = q ∧ (n.fraction.isSome ∨ n.power.isSome)

section

variable {digits : List Char}

/-- Digits with a point among them are a numeral. -/
theorem writes_point {whole fraction : List Char} (hne : whole ++ fraction ≠ [])
    (hdigits : ∀ c ∈ whole ++ fraction, c.isDigit) :
    Writes (whole ++ '.' :: fraction) (digitsValue (whole ++ fraction) * 10 ^ (-(fraction.length : ℤ))) :=
  ⟨⟨whole, some fraction, none, hne, hdigits⟩, by simp [Numeral.text, Numeral.fractionText, Numeral.powerText],
    by simp [Numeral.decimal, Numeral.powerValue, value], .inl rfl⟩

/-- Digits with a point among them, or with zeros between them and the point. -/
theorem writes_positional (hne : digits ≠ []) (hdigits : ∀ c ∈ digits, c.isDigit) (point : ℤ) :
    Writes (positional digits point) (digitsValue digits * 10 ^ (point - digits.length)) := by
  unfold positional
  split_ifs with hsmall hlarge
  · obtain ⟨k, rfl⟩ : ∃ k : ℕ, point = -k := ⟨(-point).toNat, by omega⟩
    have hall : ∀ c ∈ ['0'] ++ (List.replicate k '0' ++ digits), c.isDigit := by
      intro c hc
      simp only [List.mem_append, List.mem_singleton] at hc
      rcases hc with rfl | hc | hc
      · decide
      · exact isDigit_of_mem_zeros hc
      · exact hdigits c hc
    have hwrites := writes_point (by simp) hall
    have hvalue : digitsValue (['0'] ++ (List.replicate k '0' ++ digits)) = digitsValue digits := by
      rw [digitsValue_append, digitsValue_append, digitsValue_zeros, show digitsValue ['0'] = 0 from rfl]
      omega
    have hplace : -((List.replicate k '0' ++ digits).length : ℤ) = -k - digits.length := by
      rw [List.length_append, List.length_replicate]
      omega
    rw [hvalue, hplace] at hwrites
    simpa using hwrites
  · obtain ⟨k, rfl⟩ : ∃ k : ℕ, point = digits.length + k := ⟨point.toNat - digits.length, by omega⟩
    have hall : ∀ c ∈ digits ++ List.replicate k '0' ++ ['0'], c.isDigit := by
      intro c hc
      simp only [List.mem_append, List.mem_singleton] at hc
      rcases hc with (hc | hc) | rfl
      · exact hdigits c hc
      · exact isDigit_of_mem_zeros hc
      · decide
    have hwrites := writes_point (by simp) hall
    have hvalue : (digitsValue (digits ++ List.replicate k '0' ++ ['0']) : ℚ) * 10 ^ (-(['0'].length : ℤ)) =
        digitsValue digits * 10 ^ k := by
      rw [digitsValue_append, digitsValue_append, digitsValue_zeros, show digitsValue ['0'] = 0 from rfl]
      simp only [List.length_replicate, List.length_singleton, pow_one, Nat.add_zero]
      push_cast
      rw [zpow_neg_one, mul_assoc, mul_inv_cancel₀ (by norm_num), mul_one]
    have hzeros : (digits.length + k : ℤ).toNat - digits.length = k := by omega
    rw [hvalue] at hwrites
    rw [hzeros, add_sub_cancel_left, zpow_natCast]
    simpa using hwrites
  · obtain ⟨k, rfl⟩ := Int.eq_ofNat_of_zero_le (by omega : 0 ≤ point)
    simp only [Int.toNat_natCast] at hlarge ⊢
    have hsplit : digits.take k ++ digits.drop k = digits := List.take_append_drop k digits
    have hwrites := writes_point (hsplit.symm ▸ hne) (hsplit.symm ▸ hdigits)
    have hplace : -((digits.drop k).length : ℤ) = k - digits.length := by
      rw [List.length_drop]
      omega
    rw [hsplit, hplace] at hwrites
    exact hwrites

/-- The power of ten at the end of a number, as a layout writes it. -/
def Layout.power (l : Layout) (n : ℤ) : Power where
  capital := false
  sign := if n < 0 then some .minus else if l.plus then some .plus else none
  digits := List.replicate (l.width - (Nat.toDigits 10 n.natAbs).length) '0' ++ Nat.toDigits 10 n.natAbs
  ne_nil := List.append_ne_nil_of_right_ne_nil _ Nat.toDigits_ne_nil
  isDigit _ hc := (List.mem_append.mp hc).elim isDigit_of_mem_zeros isDigit_of_mem_toDigits

/-- The power that is written has the value of the exponent. -/
theorem Layout.value_power (l : Layout) (n : ℤ) : (l.power n).value = n := by
  have hdigits : digitsValue (l.power n).digits = n.natAbs := by
    rw [power, digitsValue_append, digitsValue_zeros, digitsValue_toDigits, Nat.zero_mul, Nat.zero_add]
  rw [Power.value, hdigits]
  unfold power signed
  split_ifs with hminus hneg <;> grind

/-- The power is written with a letter, with a minus or maybe a plus, and with its digits. -/
theorem Layout.text_power (l : Layout) (n : ℤ) :
    (l.power n).text = 'e' :: ((if n < 0 then ['-'] else if l.plus then ['+'] else []) ++ (l.power n).digits) := by
  have hsign : signText (l.power n).sign = if n < 0 then ['-'] else if l.plus then ['+'] else [] := by
    unfold power
    split_ifs <;> rfl
  rw [Power.text, hsign]
  rfl

/-- Digits with a point behind the first of them and a power of ten. A digit that stands alone has no point. -/
theorem Layout.writes_scientific (l : Layout) (hne : digits ≠ []) (hdigits : ∀ c ∈ digits, c.isDigit) (n : ℤ) :
    Writes (l.scientific digits n) (digitsValue digits * 10 ^ (n + 1 - digits.length)) := by
  have hpower : l.scientific digits n =
      digits.take 1 ++ ((if digits.length ≤ 1 then [] else '.' :: digits.drop 1) ++ (l.power n).text) := by
    rw [text_power]
    simp [scientific, power]
  rw [hpower]
  rcases digits with _ | ⟨first, _ | ⟨second, rest⟩⟩
  · exact absurd rfl hne
  · exact ⟨⟨[first], none, some (l.power n), hne, hdigits⟩, rfl,
      by simp [Numeral.decimal, Numeral.powerValue, value_power, value], .inr rfl⟩
  · exact ⟨⟨[first], some (second :: rest), some (l.power n), hne, hdigits⟩,
      by simp [Numeral.text, Numeral.fractionText, Numeral.powerText],
      by simp [Numeral.decimal, Numeral.powerValue, value_power, value], .inl rfl⟩

/-- Every layout writes the number. -/
theorem Layout.writes_text (l : Layout) (d : Decimal) : Writes (l.text d) d.value := by
  have hne : d.digits ≠ [] := Nat.toDigits_ne_nil
  have hdigits : ∀ c ∈ d.digits, c.isDigit := fun _ => isDigit_of_mem_toDigits
  have hvalue : (digitsValue d.digits : ℚ) * 10 ^ (d.point - d.digits.length) = d.value := by
    rw [point, add_sub_cancel_left, digits, digitsValue_toDigits, value]
  rw [← hvalue, text]
  split_ifs
  · exact writes_positional hne hdigits d.point
  · have hwrites := l.writes_scientific hne hdigits (d.point - 1)
    rwa [sub_add_cancel] at hwrites

end

/-! ## Texts of numbers -/

/-- The characters that a number can have besides its digits. -/
def marks : List Char := ['.', 'e', 'E', '+', '-']

/-- No character of a number is a blank. -/
theorem isBlank_eq_false {c : Char} (hc : c.isDigit ∨ c ∈ marks) : Text.isBlank c = false := by
  rcases hc with hc | hc
  · rw [Char.isDigit, Bool.and_eq_true, decide_eq_true_eq, decide_eq_true_eq] at hc
    have hfirst : 48 ≤ c.toNat := UInt32.le_iff_toNat_le.mp hc.1
    have hlast : c.toNat ≤ 57 := UInt32.le_iff_toNat_le.mp hc.2
    simp only [Text.isBlank, Text.inRanges, Text.blankRanges, List.any_cons, List.any_nil]
    grind
  · simp only [marks, List.mem_cons, List.not_mem_nil, or_false] at hc
    rcases hc with rfl | rfl | rfl | rfl | rfl <;> decide

theorem mem_marks_of_mem_signText {sign : Option Sign} {c : Char} (hc : c ∈ signText sign) : c ∈ marks := by
  obtain ⟨s, -, rfl⟩ := List.mem_map.mp hc
  cases s <;> decide

namespace Numeral

/-- A numeral has digits and marks only. -/
theorem isDigit_or_mem_marks (n : Numeral) : ∀ c ∈ n.text, c.isDigit ∨ c ∈ marks := by
  obtain ⟨whole, fraction, power, hne, hdigits⟩ := n
  intro c hc
  simp only [text, List.mem_append] at hc
  rcases hc with hc | hc | hc
  · exact .inl (hdigits c (List.mem_append_left _ hc))
  · cases fraction with
    | none => cases hc
    | some fraction =>
      rcases List.mem_cons.mp hc with rfl | hc
      · exact .inr (by decide)
      · exact .inl (hdigits c (List.mem_append_right _ hc))
  · cases power with
    | none => cases hc
    | some power =>
      rcases List.mem_cons.mp hc with rfl | hc
      · cases power.capital <;> exact .inr (by decide)
      · rcases List.mem_append.mp hc with hc | hc
        · exact .inr (mem_marks_of_mem_signText hc)
        · exact .inl (power.isDigit c hc)

/-- A point and the letter of a power of ten are neither digits nor signs. -/
theorem exists_mark (n : Numeral) (h : n.fraction.isSome ∨ n.power.isSome) :
    ∃ c ∈ n.text, c.isDigit = false ∧ ∀ s : Sign, c ≠ s.char := by
  obtain ⟨whole, fraction, power, hne, hdigits⟩ := n
  rcases h with h | h
  · obtain ⟨digits, rfl⟩ := Option.isSome_iff_exists.mp h
    refine ⟨'.', ?_, by decide, fun s => by cases s <;> decide⟩
    simp [text, fractionText]
  · obtain ⟨power, rfl⟩ := Option.isSome_iff_exists.mp h
    refine ⟨if power.capital then 'E' else 'e', by simp [text, powerText, Power.text], ?_, ?_⟩
    · split <;> decide
    · split <;> exact fun s => by cases s <;> decide

/-- There are no blanks in a number that could be taken away. -/
theorem trim_text (n : Numeral) (sign : Option Sign) : Text.trim (signText sign ++ n.text) = signText sign ++ n.text := by
  have hblank : ∀ c ∈ signText sign ++ n.text, Text.isBlank c = false := by
    intro c hc
    rcases List.mem_append.mp hc with hc | hc
    · exact isBlank_eq_false (.inr (mem_marks_of_mem_signText hc))
    · exact isBlank_eq_false (n.isDigit_or_mem_marks c hc)
  have htrimmed : Text.Trimmed (signText sign ++ n.text) (signText sign ++ n.text) :=
    ⟨⟨[], [], by simp, by simp⟩, fun c hc => hblank c (List.mem_of_mem_head? hc),
      fun c hc => hblank c (List.mem_of_getLast? hc)⟩
  exact htrimmed.eq_trim.symm

end Numeral

/-- The digits of an integer and its sign are all there is to it. -/
theorem integer?_eq_none {cs : List Char} {c : Char} (hmem : c ∈ cs) (hdigit : c.isDigit = false)
    (hsign : ∀ s : Sign, c ≠ s.char) : integer? cs = none := by
  rw [Option.eq_none_iff_forall_ne_some]
  intro n hn
  obtain ⟨sign, digits, -, hdigits, rfl, -⟩ := (integer?_eq_some_iff cs n).mp hn
  rcases List.mem_append.mp hmem with hmem | hmem
  · obtain ⟨s, -, rfl⟩ := List.mem_map.mp hmem
    exact hsign s rfl
  · rw [hdigits c hmem] at hdigit
    cases hdigit

open NearestFloat

/-- A finite number is written as a numeral that reads as the same number. -/
theorem Layout.exists_numeral (l : Layout) {x : Float} (hx : x.isFinite) :
    ∃ (sign : Option Sign) (n : Numeral), (l.floatText x).toList = signText sign ++ n.text ∧
      x = signed sign n.decimal.toFloat ∧ (n.fraction.isSome ∨ n.power.isSome) := by
  have hpack := ofModel_pack_unpack x
  have hfinite : x.toModel.unpack.isFinite = true := hx
  unfold floatText
  cases hunpack : x.toModel.unpack with
  | notANumber | infinity => simp [hunpack, Float.Model.UnpackedFloat.isFinite] at hfinite
  | zero sign =>
    rw [hunpack] at hpack
    let n : Numeral := ⟨['0'], some ['0'], none, by simp, by simp⟩
    have hzero : n.decimal.toFloat = .ofModel (.pack (.zero .positive)) := rfl
    cases sign with
    | positive =>
      have htext : "0.0".toList = n.text := by decide
      exact ⟨none, n, htext, hpack ▸ hzero.symm, .inl rfl⟩
    | negative =>
      have htext : "-0.0".toList = '-' :: n.text := by decide
      refine ⟨some .minus, n, htext, ?_, .inl rfl⟩
      rw [← hpack, signed, if_pos rfl, hzero]
      rfl
  | finite sign m e hm =>
    have habs : x.abs.toModel.unpack = .finite .positive m e hm := by
      rw [unpack_abs, hunpack]
      rfl
    obtain ⟨n, htext, hvalue, hmark⟩ := l.writes_text (shortest x.abs m e)
    have hread : n.decimal.toFloat = x.abs := (toFloat_congr hvalue).trans (toFloat_shortest habs)
    cases sign with
    | positive =>
      refine ⟨none, n, by simpa [signText] using htext, ?_, hmark⟩
      rw [hread, signed, if_neg (by simp), abs_of_positive hunpack]
    | negative =>
      refine ⟨some .minus, n, by simpa [signText, Sign.char] using htext, ?_, hmark⟩
      rw [hread, signed, if_pos rfl, neg_abs_of_negative hunpack]

end Decimal

open Decimal

/-! ## Reading back what was written -/

/-- What the text of a number looks like: a numeral with a point or a power of ten, or a word. -/
inductive Shown (text : String) : Float → Prop where
  | numeral {sign : Option Sign} {n : Numeral} (htext : text.toList = signText sign ++ n.text)
      (hfinite : (signed sign n.decimal.toFloat).isFinite) (hmark : n.fraction.isSome ∨ n.power.isSome) :
      Shown text (signed sign n.decimal.toFloat)
  | infinity (htext : text = "inf") : Shown text NodeScript.infinity
  | negative (htext : text = "-inf") : Shown text (-NodeScript.infinity)
  | notANumber (htext : text = "nan") : Shown text NodeScript.notANumber

/-- Every float is shown as a numeral or as a word. -/
theorem shown_floatText (l : Layout) (x : Float) : Shown (l.floatText x) x := by
  have hpack := NearestFloat.ofModel_pack_unpack x
  by_cases hfinite : x.isFinite
  · obtain ⟨sign, n, htext, hvalue, hmark⟩ := l.exists_numeral hfinite
    rw [hvalue] at hfinite
    have hshown := Shown.numeral htext hfinite hmark
    rwa [← hvalue] at hshown
  · have hnot : ¬x.toModel.unpack.isFinite = true := hfinite
    unfold Layout.floatText
    cases hunpack : x.toModel.unpack with
    | zero | finite => simp [hunpack, Float.Model.UnpackedFloat.isFinite] at hnot
    | notANumber =>
      rw [← hpack, hunpack]
      exact .notANumber rfl
    | infinity sign =>
      rw [← hpack, hunpack]
      cases sign with
      | positive => exact .infinity rfl
      | negative => exact .negative rfl

namespace Shown

variable {text : String} {x : Float}

/-- What a float is shown as stands for it. -/
theorem floatOfText_eq (h : Shown text x) : floatOfText text = .ok x := by
  cases h with
  | @numeral sign n htext hfinite hmark =>
    refine (floatOfText_eq_ok _ _).mpr (.inr (.inr ⟨sign, n, ?_, rfl, hfinite⟩))
    rw [htext, n.trim_text sign]
  | infinity htext =>
    have hspells : Spells [] ["inf", "infinity"] (Text.trim "inf".toList) := ⟨"inf".toList, by decide, by decide⟩
    rw [htext, floatOfText_infinity hspells]
    rfl
  | negative htext =>
    have hspells : Spells [.minus] ["inf", "infinity"] (Text.trim "-inf".toList) := ⟨"inf".toList, by decide, by decide⟩
    rw [htext, floatOfText_infinity hspells]
    rfl
  | notANumber htext =>
    have hspells : Spells [] ["nan"] (Text.trim "nan".toList) := ⟨"nan".toList, by decide, by decide⟩
    rw [htext, floatOfText_notANumber hspells]

/-- The point, the power of ten or a letter of a word tells the text from an integer. -/
theorem integer?_eq (h : Shown text x) : integer? (Text.trim text.toList) = none := by
  cases h with
  | @numeral sign n htext hfinite hmark =>
    rw [htext, n.trim_text sign]
    obtain ⟨c, hmem, hdigit, hsign⟩ := n.exists_mark hmark
    exact integer?_eq_none (List.mem_append_right _ hmem) hdigit hsign
  | infinity htext | negative htext | notANumber htext =>
    rw [htext]
    decide

end Shown

/-- A text that is no integer is the fault. -/
theorem intOfText_error {s : String} (h : integer? (Text.trim s.toList) = none) :
    intOfText s = .error (.mismatch (.intText s)) := by
  rw [intOfText, h]
  rfl

/-- Every number is read back from its text as it was, with the sign of a zero or of an infinity. The text is never that of an
integer, small or large: the text of a finite number is a numeral with a point or a power of ten, and an infinity is a word, as is
what is not a number. -/
theorem float_text_round_trip (x : Float) :
    floatOfText (floatLayout.floatText x) = .ok x ∧
    integer? (Text.trim (floatLayout.floatText x).toList) = none ∧
    intOfText (floatLayout.floatText x) = .error (.mismatch (.intText (floatLayout.floatText x))) ∧
    Shown (floatLayout.floatText x) x := by
  have hshown := shown_floatText floatLayout x
  exact ⟨hshown.floatOfText_eq, hshown.integer?_eq, intOfText_error hshown.integer?_eq, hshown⟩

end NodeScript
