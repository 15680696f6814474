import Mathlib.Data.List.TakeWhile
import NodeScript.Value.Operation

/-!
# Texts of floats

A text is looked at twice: first for a word that stands for what is not finite, and then for a number. The two are told apart by
their characters, since a number has a digit and a word has none (`Spells.ne_numeral`), and the number reader takes exactly the
numbers that can be written with a sign, a point and a power of ten (`Decimal.signedFloat?_eq_some_iff`). In front of a word it is
not one sign that is left out but all of them, so that some texts are read that have more than one (`float_text_exact`,
`two_signs_infinity`).
-/

namespace NodeScript

/-! ## Runs of characters -/

namespace Text

variable {p : Char → Bool}

/-- What comes after a run of characters does not go on with it. -/
theorem not_of_head?_dropWhile {cs : List Char} {c : Char} (hc : c ∈ (cs.dropWhile p).head?) : p c = false := by
  have hnot := List.head?_dropWhile_not p cs
  rw [hc] at hnot
  simpa using hnot

/-- A run of characters ends where the first one comes that does not belong to it. -/
theorem takeWhile_run {run rest : List Char} (hrun : ∀ c ∈ run, p c) (hrest : ∀ c ∈ rest.head?, p c = false) :
    (run ++ rest).takeWhile p = run ∧ (run ++ rest).dropWhile p = rest := by
  rw [List.takeWhile_append_of_pos hrun, List.dropWhile_append_of_pos hrun]
  cases rest with
  | nil => simp
  | cons c more => simp [hrest c rfl]

end Text

namespace Decimal

/-! ## Decimal literals -/

/-- A sign in front of a number. -/
inductive Sign where
  | plus | minus
  deriving DecidableEq, Repr

def Sign.char : Sign → Char
  | plus => '+'
  | minus => '-'

/-- The characters of a sign that may be left out. -/
def signText (sign : Option Sign) : List Char :=
  sign.toList.map Sign.char

/-- The number with a sign. -/
def signed {α : Type} [Neg α] (sign : Option Sign) (x : α) : α :=
  if sign = some .minus then -x else x

/-- A power of ten at the end of a number: a letter `e` of either case and one or more digits with an optional sign. -/
structure Power where
  capital : Bool
  sign : Option Sign
  digits : List Char
  ne_nil : digits ≠ []
  isDigit : ∀ c ∈ digits, c.isDigit

def Power.text (p : Power) : List Char :=
  (if p.capital then 'E' else 'e') :: (signText p.sign ++ p.digits)

def Power.value (p : Power) : Int :=
  signed p.sign (digitsValue p.digits : Int)

/-- A decimal number as it is written, without a sign: digits, then a point and more digits or none of that, then a power of ten
or none. There is a digit before the point or after it. -/
structure Numeral where
  whole : List Char
  fraction : Option (List Char)
  power : Option Power
  ne_nil : whole ++ fraction.getD [] ≠ []
  isDigit : ∀ c ∈ whole ++ fraction.getD [], c.isDigit

namespace Numeral

def powerText (power : Option Power) : List Char :=
  (power.map Power.text).getD []

def powerValue (power : Option Power) : Int :=
  (power.map Power.value).getD 0

def fractionText (fraction : Option (List Char)) : List Char :=
  (fraction.map ('.' :: ·)).getD []

def text (l : Numeral) : List Char :=
  l.whole ++ (fractionText l.fraction ++ powerText l.power)

/-- The number that is written. -/
def decimal (l : Numeral) : Decimal :=
  ⟨digitsValue (l.whole ++ l.fraction.getD []), powerValue l.power - (l.fraction.getD []).length⟩

end Numeral

/-! ### Signs and integers -/

/-- Every text has one sign in front or none, and the sign says whether it is negative. -/
theorem exists_sign (cs : List Char) :
    ∃ sign, cs = signText sign ++ (splitSign cs).2 ∧ (splitSign cs).1 = decide (sign = some .minus) := by
  unfold splitSign
  split
  · exact ⟨some .minus, rfl, rfl⟩
  · exact ⟨some .plus, rfl, rfl⟩
  · exact ⟨none, rfl, rfl⟩

/-- A sign is split off from what does not start with another one. -/
theorem splitSign_signText (sign : Option Sign) {c : Char} {cs : List Char} (hc : ∀ s : Sign, c ≠ s.char) :
    splitSign (signText sign ++ c :: cs) = (decide (sign = some .minus), c :: cs) := by
  cases sign with
  | none =>
    have hplus := hc .plus
    have hminus := hc .minus
    simp only [Sign.char] at hplus hminus
    simp [signText, splitSign, hplus, hminus]
  | some s => cases s <;> rfl

theorem ne_sign_of_isDigit {c : Char} (hc : c.isDigit) (s : Sign) : c ≠ s.char := by
  rintro rfl
  cases s <;> exact absurd hc (by decide)

/-- An integer is one or more digits with an optional sign. -/
theorem integer?_eq_some_iff (cs : List Char) (n : Int) :
    integer? cs = some n ↔ ∃ sign digits, digits ≠ [] ∧ (∀ c ∈ digits, c.isDigit) ∧ cs = signText sign ++ digits ∧
      n = signed sign (digitsValue digits : Int) := by
  constructor
  · intro h
    obtain ⟨sign, hcs, hsign⟩ := exists_sign cs
    simp only [integer?, hsign, Option.ite_none_left_eq_some] at h
    obtain ⟨hdigits, hn⟩ := h
    simp only [Bool.or_eq_true, List.isEmpty_iff, Bool.not_eq_true', not_or, Bool.not_eq_false, List.all_eq_true] at hdigits
    refine ⟨sign, (splitSign cs).2, hdigits.1, hdigits.2, hcs, ?_⟩
    by_cases hminus : sign = some .minus <;> simpa [signed, hminus, eq_comm] using hn
  · rintro ⟨sign, digits, hne, hdigits, rfl, rfl⟩
    obtain ⟨c, rest, rfl⟩ := List.exists_cons_of_ne_nil hne
    have hall : (c :: rest).all Char.isDigit = true := List.all_eq_true.mpr hdigits
    rw [integer?, splitSign_signText sign (ne_sign_of_isDigit (hdigits c (.head _)))]
    simp only [hall, signed]
    by_cases hsign : sign = some .minus <;> simp [hsign]

/-! ### Numbers -/

/-- A power of ten is read exactly if it is none or is written as one. -/
theorem power?_eq_some_iff (cs : List Char) (n : Int) :
    power? cs = some n ↔ ∃ power, cs = Numeral.powerText power ∧ n = Numeral.powerValue power := by
  constructor
  · intro h
    unfold power? at h
    split at h
    · exact ⟨none, rfl, (Option.some.inj h).symm⟩
    · rename_i c rest
      rw [Option.ite_none_right_eq_some, integer?_eq_some_iff] at h
      obtain ⟨hc, sign, digits, hne, hdigits, rfl, rfl⟩ := h
      refine ⟨some ⟨decide (c = 'E'), sign, digits, hne, hdigits⟩, ?_, rfl⟩
      rcases hc with rfl | rfl <;> rfl
  · rintro ⟨power, rfl, rfl⟩
    cases power with
    | none => rfl
    | some p =>
      have hinteger : integer? (signText p.sign ++ p.digits) = some p.value :=
        (integer?_eq_some_iff _ _).mpr ⟨p.sign, p.digits, p.ne_nil, p.isDigit, rfl, rfl⟩
      have hmark : (if p.capital then 'E' else 'e') = 'e' ∨ (if p.capital then 'E' else 'e') = 'E' := by
        cases p.capital
        · exact .inl rfl
        · exact .inr rfl
      simpa only [Numeral.powerText, Numeral.powerValue, Option.map_some, Option.getD_some, Power.text, power?,
        if_pos hmark] using hinteger

/-- An unsigned number before its power of ten: digits, and after a point more digits. The rest does not go on with what could
still belong to them. -/
structure Opens (whole : List Char) (fraction : Option (List Char)) (rest : List Char) : Prop where
  isDigit_whole : ∀ c ∈ whole, c.isDigit
  isDigit_fraction : ∀ c ∈ fraction.getD [], c.isDigit
  head_rest : ∀ c ∈ rest.head?, c.isDigit = false ∧ (fraction = none → c ≠ '.')

/-- Every text opens with digits in one way, or with none. -/
theorem exists_opens (cs : List Char) :
    ∃ whole fraction rest, cs = whole ++ (Numeral.fractionText fraction ++ rest) ∧ Opens whole fraction rest := by
  have hsplit : ∀ cs : List Char, ∃ digits rest, cs = digits ++ rest ∧ (∀ c ∈ digits, c.isDigit) ∧
      ∀ c ∈ rest.head?, c.isDigit = false := fun cs =>
    ⟨cs.takeWhile Char.isDigit, cs.dropWhile Char.isDigit, List.takeWhile_append_dropWhile.symm,
      List.all_eq_true.mp List.all_takeWhile, fun _ => Text.not_of_head?_dropWhile⟩
  obtain ⟨whole, rest, rfl, hwhole, hrest⟩ := hsplit cs
  by_cases hpoint : rest.head? = some '.'
  · obtain ⟨more, rfl⟩ := List.head?_eq_some_iff.mp hpoint
    obtain ⟨fraction, rest, rfl, hfraction, hrest⟩ := hsplit more
    exact ⟨whole, some fraction, rest, rfl, hwhole, hfraction, fun c hc => ⟨hrest c hc, by simp⟩⟩
  · refine ⟨whole, none, rest, rfl, hwhole, by simp, fun c hc => ⟨hrest c hc, fun _ => ?_⟩⟩
    rintro rfl
    exact hpoint hc

/-- What is read of an unsigned number that opens with digits. -/
theorem unsigned?_of_opens {whole rest : List Char} {fraction : Option (List Char)} (h : Opens whole fraction rest) :
    unsigned? (whole ++ (Numeral.fractionText fraction ++ rest)) =
      if whole ++ fraction.getD [] = [] then none
      else (power? rest).map fun power => ⟨digitsValue (whole ++ fraction.getD []), power - (fraction.getD []).length⟩ := by
  have hhead : ∀ c ∈ (Numeral.fractionText fraction ++ rest).head?, c.isDigit = false := by
    cases fraction with
    | none => exact fun c hc => (h.head_rest c hc).1
    | some fraction => simp [Numeral.fractionText]
  obtain ⟨htake, hdrop⟩ := Text.takeWhile_run h.isDigit_whole hhead
  rw [unsigned?, htake, hdrop]
  cases fraction with
  | none =>
    have hpoint : ∀ more, rest ≠ '.' :: more := by
      rintro more rfl
      exact (h.head_rest '.' rfl).2 rfl rfl
    -- the match looks for a point, and `hpoint` says that there is none
    simp [Numeral.fractionText]
  | some fraction =>
    obtain ⟨htake', hdrop'⟩ := Text.takeWhile_run h.isDigit_fraction fun c hc => (h.head_rest c hc).1
    rw [Option.getD_some] at htake' hdrop'
    simp [Numeral.fractionText, htake', hdrop']

/-- An unsigned number is read exactly if it is a literal. -/
theorem unsigned?_eq_some_iff (cs : List Char) (d : Decimal) :
    unsigned? cs = some d ↔ ∃ l : Numeral, cs = l.text ∧ d = l.decimal := by
  constructor
  · intro h
    obtain ⟨whole, fraction, rest, rfl, hopens⟩ := exists_opens cs
    rw [unsigned?_of_opens hopens, Option.ite_none_left_eq_some, Option.map_eq_some_iff] at h
    obtain ⟨hne, n, hpower, rfl⟩ := h
    obtain ⟨power, rfl, rfl⟩ := (power?_eq_some_iff _ _).mp hpower
    refine ⟨⟨whole, fraction, power, hne, fun c hc => ?_⟩, rfl, rfl⟩
    exact (List.mem_append.mp hc).elim (hopens.isDigit_whole c) (hopens.isDigit_fraction c)
  · rintro ⟨⟨whole, fraction, power, hne, hdigits⟩, rfl, rfl⟩
    have hrest : ∀ c ∈ (Numeral.powerText power).head?, c.isDigit = false ∧ (fraction = none → c ≠ '.') := by
      cases power with
      | none => simp [Numeral.powerText]
      | some p => cases hp : p.capital <;> simp [Numeral.powerText, Power.text, hp]
    have hopens : Opens whole fraction (Numeral.powerText power) :=
      ⟨fun c hc => hdigits c (List.mem_append_left _ hc), fun c hc => hdigits c (List.mem_append_right _ hc), hrest⟩
    rw [Numeral.text, unsigned?_of_opens hopens, if_neg hne, (power?_eq_some_iff _ _).mpr ⟨power, rfl, rfl⟩]
    rfl

/-- A literal starts with a digit or with a point. -/
theorem Numeral.exists_cons_text (l : Numeral) : ∃ c rest, l.text = c :: rest ∧ ∀ s : Sign, c ≠ s.char := by
  obtain ⟨whole, fraction, power, hne, hdigits⟩ := l
  cases whole with
  | cons c whole => exact ⟨c, _, rfl, ne_sign_of_isDigit (hdigits c (.head _))⟩
  | nil =>
    cases fraction with
    | none => exact absurd rfl hne
    | some fraction => exact ⟨'.', _, rfl, fun s => by cases s <;> decide⟩

/-- A signed number is read exactly if it is a literal with an optional sign. -/
theorem signedFloat?_eq_some_iff (cs : List Char) (x : Float) :
    signedFloat? cs = some x ↔
      ∃ (sign : Option Sign) (l : Numeral), cs = signText sign ++ l.text ∧ x = signed sign l.decimal.toFloat := by
  constructor
  · intro h
    obtain ⟨sign, hcs, hsign⟩ := exists_sign cs
    simp only [signedFloat?, Option.map_eq_some_iff, hsign, decide_eq_true_eq] at h
    obtain ⟨d, hd, rfl⟩ := h
    obtain ⟨l, htext, rfl⟩ := (unsigned?_eq_some_iff _ _).mp hd
    exact ⟨sign, l, htext ▸ hcs, rfl⟩
  · rintro ⟨sign, l, rfl, rfl⟩
    obtain ⟨c, rest, htext, hc⟩ := l.exists_cons_text
    have hunsigned := (unsigned?_eq_some_iff l.text l.decimal).mpr ⟨l, rfl, rfl⟩
    rw [htext] at hunsigned ⊢
    simp only [signedFloat?, splitSign_signText sign hc, hunsigned, Option.map_some, signed, decide_eq_true_eq]

end Decimal

/-! ## Blanks around a text -/

/-- What is left of characters when the blanks at their ends are taken away. -/
structure Text.Trimmed (all cs : List Char) : Prop where
  split : ∃ before after, all = before ++ cs ++ after ∧ ∀ c ∈ before ++ after, isBlank c
  head : ∀ c ∈ cs.head?, isBlank c = false
  last : ∀ c ∈ cs.getLast?, isBlank c = false

/-- Trimming takes away the blanks at both ends and nothing else. -/
theorem Text.trimmed_trim (all : List Char) : Trimmed all (trim all) := by
  have hblank : ∀ cs : List Char, ∀ c ∈ cs.takeWhile isBlank, isBlank c :=
    fun _ => List.all_eq_true.mp List.all_takeWhile
  have hend : all.dropWhile isBlank = trim all ++ ((all.dropWhile isBlank).reverse.takeWhile isBlank).reverse := by
    rw [trim, trimEnd, ← List.reverse_append, List.takeWhile_append_dropWhile, List.reverse_reverse]
  refine ⟨⟨all.takeWhile isBlank, ((all.dropWhile isBlank).reverse.takeWhile isBlank).reverse, ?_, fun c hc => ?_⟩,
    fun c hc => ?_, fun c hc => ?_⟩
  · rw [List.append_assoc, ← hend, List.takeWhile_append_dropWhile]
  · rcases List.mem_append.mp hc with hc | hc
    · exact hblank all c hc
    · exact hblank _ c (List.mem_reverse.mp hc)
  · have hfirst : c ∈ (all.dropWhile isBlank).head? := by
      obtain ⟨rest, hrest⟩ := List.head?_eq_some_iff.mp hc
      rw [hend, hrest]
      rfl
    exact not_of_head?_dropWhile hfirst
  · rw [trim, trimEnd, List.getLast?_reverse] at hc
    exact not_of_head?_dropWhile hc

/-- Only one thing is left. -/
theorem Text.Trimmed.eq_trim {all cs : List Char} (h : Trimmed all cs) : cs = trim all := by
  obtain ⟨before, after, rfl, hblank⟩ := h.split
  have hbefore : ∀ c ∈ before, isBlank c := fun c hc => hblank c (List.mem_append_left _ hc)
  have hafter : ∀ c ∈ after.reverse, isBlank c := fun c hc => hblank c (List.mem_append_right _ (List.mem_reverse.mp hc))
  have hlast : ∀ c ∈ cs.reverse.head?, isBlank c = false := by
    rw [List.head?_reverse]
    exact h.last
  have hend : trimEnd (cs ++ after) = cs := by
    rw [trimEnd, List.reverse_append, (takeWhile_run hafter hlast).2, List.reverse_reverse]
  rw [trim, List.append_assoc]
  cases cs with
  | nil =>
    have hall : (before ++ ([] ++ after)).dropWhile isBlank = [] := List.dropWhile_eq_nil_iff.mpr hblank
    rw [hall]
    rfl
  | cons c rest =>
    have hhead : ∀ d ∈ (c :: rest ++ after).head?, isBlank d = false := h.head
    rw [(takeWhile_run hbefore hhead).2, hend]

/-! ## Words for what is not finite -/

open Decimal

/-- Some signs, and then one of the words in letters of either case. -/
def Spells (signs : List Sign) (words : List String) (cs : List Char) : Prop :=
  ∃ letters, cs = signs.map Sign.char ++ letters ∧ String.ofList (letters.map Char.toLower) ∈ words

/-- The words for infinity, and for what is not a number. -/
def nonFiniteWords : List String := ["inf", "infinity", "nan"]

/-- Only a letter is another character in lower case. -/
theorem toLower_eq_iff {c d : Char} (hd : d.toNat < 'A'.toNat) : c.toLower = d ↔ c = d := by
  have hlow : d.val.toNat < 65 := hd
  delta Char.toLower
  split
  · rename_i hc
    have hfirst : 65 ≤ c.val.toNat := UInt32.le_iff_toNat_le.mp hc.1
    have hlast : c.val.toNat ≤ 90 := UInt32.le_iff_toNat_le.mp hc.2
    constructor
    · rintro rfl
      have hsum : (c.val.toNat + 32) % 2 ^ 32 < 65 := hlow
      omega
    · rintro rfl
      omega
  · rfl

/-- The characters of the words are neither signs nor digits. -/
theorem not_sign_of_mem_word {word : String} (hword : word ∈ nonFiniteWords) :
    ∀ c ∈ word.toList, c ≠ '+' ∧ c ≠ '-' ∧ c.isDigit = false := by
  simp only [nonFiniteWords, List.mem_cons, List.not_mem_nil, or_false] at hword
  rcases hword with rfl | rfl | rfl <;> simp

theorem isSign_toLower {c : Char} : (c.toLower = '+' || c.toLower = '-') = (c = '+' || c = '-') := by
  simp only [toLower_eq_iff (d := '+') (by decide), toLower_eq_iff (d := '-') (by decide)]

/-- Characters that are all signs are a row of signs. -/
theorem exists_signs {cs : List Char} (hcs : ∀ c ∈ cs, (c = '+' || c = '-') = true) :
    ∃ signs : List Sign, cs = signs.map Sign.char := by
  induction cs with
  | nil => exact ⟨[], rfl⟩
  | cons c rest ih =>
    obtain ⟨signs, rfl⟩ := ih fun d hd => hcs d (.tail _ hd)
    have hc := hcs c (.head _)
    simp only [Bool.or_eq_true, decide_eq_true_eq] at hc
    rcases hc with rfl | rfl
    · exact ⟨.plus :: signs, rfl⟩
    · exact ⟨.minus :: signs, rfl⟩

section

variable {signs : List Sign} {words : List String} {cs : List Char}

/-- In lower case, what spells a word is the signs and the word. -/
theorem Spells.exists_word (h : Spells signs words cs) :
    ∃ word ∈ words, cs.map Char.toLower = signs.map Sign.char ++ word.toList := by
  obtain ⟨letters, rfl, hword⟩ := h
  have hsigns : (signs.map Sign.char).map Char.toLower = signs.map Sign.char := by
    rw [List.map_map]
    exact List.map_congr_left fun s _ => by cases s <;> rfl
  exact ⟨_, hword, by rw [List.map_append, hsigns, String.toList_ofList]⟩

/-- Behind the signs of what spells a word there is the word. -/
theorem Spells.word_mem (h : Spells signs words cs) (hwords : words ⊆ nonFiniteWords) :
    String.ofList ((cs.map Char.toLower).dropWhile fun c => c = '+' || c = '-') ∈ words := by
  obtain ⟨word, hword, hlower⟩ := h.exists_word
  have hsigns : ∀ c ∈ signs.map Sign.char, (c = '+' || c = '-') = true := by
    intro c hc
    obtain ⟨s, -, rfl⟩ := List.mem_map.mp hc
    cases s <;> rfl
  have hletters : word.toList.dropWhile (fun c => c = '+' || c = '-') = word.toList := by
    cases hchars : word.toList with
    | nil => rfl
    | cons c rest =>
      obtain ⟨hplus, hminus, -⟩ := not_sign_of_mem_word (hwords hword) c (by rw [hchars]; exact .head _)
      simp [hplus, hminus]
  rw [hlower, List.dropWhile_append_of_pos hsigns, hletters, String.ofList_toList]
  exact hword

/-- Of the signs the first one counts. -/
theorem Spells.head?_eq_minus_iff (h : Spells signs words cs) (hwords : words ⊆ nonFiniteWords) :
    (cs.map Char.toLower).head? = some '-' ↔ signs.head? = some .minus := by
  obtain ⟨word, hword, hlower⟩ := h.exists_word
  rw [hlower]
  cases signs with
  | nil =>
    refine iff_of_false (fun hminus => ?_) (by simp)
    exact (not_sign_of_mem_word (hwords hword) '-' (List.mem_of_mem_head? hminus)).2.1 rfl
  | cons s rest => cases s <;> simp [Sign.char]

/-- What has one of the words behind its signs spells it. -/
theorem exists_spells (hword : String.ofList ((cs.map Char.toLower).dropWhile fun c => c = '+' || c = '-') ∈ words) :
    ∃ signs, Spells signs words cs := by
  have hrun : ∀ c ∈ cs.takeWhile (fun c => c = '+' || c = '-'), (c = '+' || c = '-') = true :=
    List.all_eq_true.mp List.all_takeWhile
  obtain ⟨signs, hsigns⟩ := exists_signs hrun
  refine ⟨signs, cs.dropWhile fun c => c = '+' || c = '-', ?_, ?_⟩
  · rw [← hsigns, List.takeWhile_append_dropWhile]
  · rw [List.dropWhile_map] at hword
    simpa only [Function.comp_def, isSign_toLower] using hword

/-- A number has a digit, before the point or behind it. -/
theorem Decimal.Numeral.exists_digit (l : Numeral) : ∃ c ∈ l.text, c.isDigit := by
  obtain ⟨c, hc⟩ := List.exists_mem_of_ne_nil _ l.ne_nil
  refine ⟨c, ?_, l.isDigit c hc⟩
  rcases List.mem_append.mp hc with hc | hc
  · exact List.mem_append_left _ hc
  · refine List.mem_append_right _ (List.mem_append_left _ ?_)
    cases hfraction : l.fraction with
    | none =>
      rw [hfraction] at hc
      cases hc
    | some fraction =>
      rw [hfraction] at hc
      exact .tail _ hc

/-- What spells a word is no number: there is no digit in it. -/
theorem Spells.ne_numeral (h : Spells signs words cs) (hwords : words ⊆ nonFiniteWords) (sign : Option Sign) (l : Numeral) :
    cs ≠ signText sign ++ l.text := by
  rintro rfl
  obtain ⟨word, hword, hlower⟩ := h.exists_word
  obtain ⟨c, hc, hdigit⟩ := l.exists_digit
  have hsame : c.toLower = c := by
    rw [Char.isDigit, Bool.and_eq_true, decide_eq_true_eq, decide_eq_true_eq] at hdigit
    have hlast : c.val.toNat ≤ 57 := UInt32.le_iff_toNat_le.mp hdigit.2
    exact (toLower_eq_iff (Nat.lt_of_le_of_lt hlast (by decide))).mpr rfl
  have hmem : c ∈ signs.map Sign.char ++ word.toList := by
    rw [← hlower, ← hsame]
    exact List.mem_map_of_mem (List.mem_append_right _ hc)
  rcases List.mem_append.mp hmem with hmem | hmem
  · obtain ⟨s, -, rfl⟩ := List.mem_map.mp hmem
    exact ne_sign_of_isDigit hdigit s rfl
  · rw [(not_sign_of_mem_word (hwords hword) c hmem).2.2] at hdigit
    cases hdigit

end

/-! ## What a text stands for -/

/-- Infinity. -/
def infinity : Float := .ofModel (.pack (.infinity .positive))

/-- What is not a number; it has no sign. -/
def notANumber : Float := .ofModel (.pack .notANumber)

section

variable {signs : List Sign} {s : String}

/-- A word for infinity stands for it, with the first of its signs. -/
theorem floatOfText_infinity (h : Spells signs ["inf", "infinity"] (Text.trim s.toList)) :
    floatOfText s = .ok (if signs.head? = some .minus then -infinity else infinity) := by
  have hword := h.word_mem (by decide)
  have hhead := h.head?_eq_minus_iff (by decide)
  simp only [List.mem_cons, List.not_mem_nil, or_false] at hword
  simp only [floatOfText, hword, hhead, if_true, infinity]

/-- The word for what is not a number stands for that, whatever the signs. -/
theorem floatOfText_notANumber (h : Spells signs ["nan"] (Text.trim s.toList)) : floatOfText s = .ok notANumber := by
  have hword := h.word_mem (by decide)
  have hother : ¬("nan" = "inf" ∨ "nan" = "infinity") := by decide
  rw [List.mem_singleton] at hword
  simp only [floatOfText, hword, if_neg hother, if_true]
  -- its opposite is the same
  split <;> rfl

/-- What spells no word has to be a finite number. -/
theorem floatOfText_eq_ok_iff (h : ¬∃ signs, Spells signs nonFiniteWords (Text.trim s.toList)) (x : Float) :
    floatOfText s = .ok x ↔ signedFloat? (Text.trim s.toList) = some x ∧ x.isFinite := by
  have hword := mt exists_spells h
  simp only [nonFiniteWords, List.mem_cons, List.not_mem_nil, or_false, not_or] at hword
  obtain ⟨hinf, hinfinity, hnan⟩ := hword
  simp only [floatOfText, hinf, hinfinity, hnan, or_self, if_false, ← Option.filter_eq_some_iff]
  cases (signedFloat? (Text.trim s.toList)).filter Float.isFinite <;> simp

/-- A text that is no float is the fault. -/
theorem floatOfText_error {f : Fault} (h : floatOfText s = .error f) : f = .mismatch (.floatText s) := by
  simp only [floatOfText] at h
  split at h
  · cases h
  · split at h
    · cases h
    · split at h
      · cases h
      · exact (Except.error.inj h).symm

end

/-- A word for what is not finite is one for infinity or the one for what is not a number. -/
theorem spells_nonFiniteWords_iff {signs : List Sign} {cs : List Char} :
    Spells signs nonFiniteWords cs ↔ Spells signs ["inf", "infinity"] cs ∨ Spells signs ["nan"] cs := by
  simp only [Spells, nonFiniteWords, List.mem_cons, List.not_mem_nil, or_false]
  grind

/-- The three kinds of texts that are floats, and what they stand for. -/
theorem floatOfText_eq_ok (s : String) (x : Float) :
    floatOfText s = .ok x ↔
      (∃ signs, Spells signs ["inf", "infinity"] (Text.trim s.toList) ∧
        x = if signs.head? = some .minus then -infinity else infinity) ∨
      (∃ signs, Spells signs ["nan"] (Text.trim s.toList) ∧ x = notANumber) ∨
      ∃ (sign : Option Sign) (l : Numeral), Text.trim s.toList = signText sign ++ l.text ∧
        x = signed sign l.decimal.toFloat ∧ x.isFinite := by
  constructor
  · intro hx
    by_cases hspells : ∃ signs, Spells signs nonFiniteWords (Text.trim s.toList)
    · obtain ⟨signs, hsigns⟩ := hspells
      rcases spells_nonFiniteWords_iff.mp hsigns with hsigns | hsigns
      · rw [floatOfText_infinity hsigns] at hx
        exact .inl ⟨signs, hsigns, (Except.ok.inj hx).symm⟩
      · rw [floatOfText_notANumber hsigns] at hx
        exact .inr (.inl ⟨signs, hsigns, (Except.ok.inj hx).symm⟩)
    · obtain ⟨hnumber, hfinite⟩ := (floatOfText_eq_ok_iff hspells x).mp hx
      obtain ⟨sign, l, htext, hvalue⟩ := (signedFloat?_eq_some_iff _ _).mp hnumber
      exact .inr (.inr ⟨sign, l, htext, hvalue, hfinite⟩)
  · rintro (⟨signs, hsigns, rfl⟩ | ⟨signs, hsigns, rfl⟩ | ⟨sign, l, htext, hvalue, hfinite⟩)
    · exact floatOfText_infinity hsigns
    · exact floatOfText_notANumber hsigns
    · have hspells : ¬∃ signs, Spells signs nonFiniteWords (Text.trim s.toList) := by
        rintro ⟨signs, hsigns⟩
        exact hsigns.ne_numeral (List.Subset.refl _) sign l htext
      exact (floatOfText_eq_ok_iff hspells x).mpr ⟨(signedFloat?_eq_some_iff _ _).mpr ⟨sign, l, htext, hvalue⟩, hfinite⟩

/-- A text stands for what is not finite exactly if it spells one of the words. -/
theorem exists_nonFinite_iff (s : String) :
    (∃ x, floatOfText s = .ok x ∧ x.isFinite = false) ↔ ∃ signs, Spells signs nonFiniteWords (Text.trim s.toList) := by
  constructor
  · rintro ⟨x, hx, hnot⟩
    rcases (floatOfText_eq_ok s x).mp hx with ⟨signs, hsigns, -⟩ | ⟨signs, hsigns, -⟩ | ⟨sign, l, -, -, hfinite⟩
    · exact ⟨signs, spells_nonFiniteWords_iff.mpr (.inl hsigns)⟩
    · exact ⟨signs, spells_nonFiniteWords_iff.mpr (.inr hsigns)⟩
    · rw [hfinite] at hnot
      cases hnot
  · rintro ⟨signs, hsigns⟩
    rcases spells_nonFiniteWords_iff.mp hsigns with hsigns | hsigns
    · refine ⟨_, floatOfText_infinity hsigns, ?_⟩
      split <;> decide
    · exact ⟨_, floatOfText_notANumber hsigns, by decide⟩

/-- Where no two signs come first, a word has one sign or none. -/
theorem Spells.exists_sign {signs : List Sign} {words : List String} {cs : List Char} (h : Spells signs words cs)
    (hcs : ∀ (a b : Sign) (rest : List Char), cs ≠ a.char :: b.char :: rest) : ∃ sign : Option Sign, signs = sign.toList := by
  obtain ⟨letters, rfl, -⟩ := h
  rcases signs with _ | ⟨a, _ | ⟨b, rest⟩⟩
  · exact ⟨none, rfl⟩
  · exact ⟨some a, rfl⟩
  · exact absurd rfl (hcs a b _)

/-- Which texts are floats. One thing is left of a text when the blanks around it are taken away. The text stands for an infinity,
or for what is not a number, exactly if that is one of the words for them, in letters of either case, after signs: any number of
them, of which the first one says whether an infinity is negative. It stands for another number exactly if that is a decimal
number with at most one sign that is finite when it is rounded. So of the texts that do not start with two signs, those are
infinite or not a number that are a word with a sign or without. Every other text is refused, in a fault that holds it as it is. A
conversion to a float and the right side of an operation on floats read a text in this way. -/
theorem float_text_exact (s : String) :
    (∃! cs, Text.Trimmed s.toList cs) ∧
    (∀ cs, Text.Trimmed s.toList cs →
      ((∃ x, floatOfText s = .ok x ∧ x.isFinite = false) ↔ ∃ signs, Spells signs nonFiniteWords cs) ∧
      (∀ x, floatOfText s = .ok x ↔
        (∃ signs, Spells signs ["inf", "infinity"] cs ∧ x = if signs.head? = some .minus then -infinity else infinity) ∨
        (∃ signs, Spells signs ["nan"] cs ∧ x = notANumber) ∨
        ∃ (sign : Option Sign) (l : Numeral), cs = signText sign ++ l.text ∧ x = signed sign l.decimal.toFloat ∧ x.isFinite) ∧
      ((∀ (a b : Sign) (rest : List Char), cs ≠ a.char :: b.char :: rest) →
        ∀ x, floatOfText s = .ok x ∧ x.isFinite = false ↔ ∃ sign : Option Sign,
          Spells sign.toList ["inf", "infinity"] cs ∧ x = signed sign infinity ∨
          Spells sign.toList ["nan"] cs ∧ x = notANumber)) ∧
    (∀ f, floatOfText s = .error f → f = .mismatch (.floatText s)) ∧
    (∀ h, Value.convert h .float (.string s) = (floatOfText s).map .float) ∧
    ∀ h op a, Value.arith h op (.float a) (.string s) =
      (floatOfText s).bind fun b => (floatArith op a b).map .float := by
  refine ⟨⟨_, Text.trimmed_trim _, fun cs hcs => hcs.eq_trim⟩, fun cs hcs => ?_, fun f => floatOfText_error, fun h => rfl,
    fun h op a => rfl⟩
  obtain rfl := hcs.eq_trim
  refine ⟨exists_nonFinite_iff s, floatOfText_eq_ok s, fun hcs x => ?_⟩
  have hsigned (sign : Option Sign) :
      (if sign.toList.head? = some .minus then -infinity else infinity) = signed sign infinity := by
    rw [signed, Option.head?_toList]
  rw [floatOfText_eq_ok]
  constructor
  · rintro ⟨⟨signs, hsigns, rfl⟩ | ⟨signs, hsigns, rfl⟩ | ⟨sign, l, -, -, hfinite⟩, hnot⟩
    · obtain ⟨sign, rfl⟩ := hsigns.exists_sign hcs
      exact ⟨sign, .inl ⟨hsigns, hsigned sign⟩⟩
    · obtain ⟨sign, rfl⟩ := hsigns.exists_sign hcs
      exact ⟨sign, .inr ⟨hsigns, rfl⟩⟩
    · rw [hfinite] at hnot
      cases hnot
  · rintro ⟨sign, ⟨hsigns, rfl⟩ | ⟨hsigns, rfl⟩⟩
    · refine ⟨.inl ⟨sign.toList, hsigns, (hsigned sign).symm⟩, ?_⟩
      rw [signed]
      split <;> decide
    · exact ⟨.inr (.inl ⟨sign.toList, hsigns, rfl⟩), by decide⟩

/-- A word with one sign, between blanks. -/
theorem blanksAround_negative_infinity :
    Text.Trimmed "\t-Infinity \n".toList "-Infinity".toList ∧
    (∀ (a b : Sign) (rest : List Char), "-Infinity".toList ≠ a.char :: b.char :: rest) ∧
    floatOfText "\t-Infinity \n" = .ok (-infinity) := by
  have htrimmed : Text.Trimmed "\t-Infinity \n".toList "-Infinity".toList := by
    have htrim : Text.trim "\t-Infinity \n".toList = "-Infinity".toList := by decide
    exact htrim ▸ Text.trimmed_trim _
  have hsigns : ∀ (a b : Sign) (rest : List Char), "-Infinity".toList ≠ a.char :: b.char :: rest := by
    intro a b rest h
    cases b <;> simp [Sign.char] at h
  have hspells : Spells [.minus] ["inf", "infinity"] "-Infinity".toList := ⟨"Infinity".toList, rfl, by decide⟩
  obtain ⟨-, htexts, -⟩ := float_text_exact "\t-Infinity \n"
  have hword := (htexts _ htrimmed).2.2 hsigns (-infinity)
  exact ⟨htrimmed, hsigns, (hword.mpr ⟨some .minus, .inl ⟨hspells, rfl⟩⟩).1⟩

/-- A word after two signs is an infinity too. -/
theorem two_signs_infinity :
    floatOfText "--inf" = .ok (-infinity) ∧
    ¬∃ sign : Option Sign, Spells sign.toList nonFiniteWords (Text.trim "--inf".toList) := by
  have htrim : Text.trim "--inf".toList = "--inf".toList := by decide
  have hspells : Spells [.minus, .minus] ["inf", "infinity"] (Text.trim "--inf".toList) := ⟨"inf".toList, htrim, by decide⟩
  refine ⟨floatOfText_infinity hspells, ?_⟩
  rintro ⟨sign, hspells⟩
  obtain ⟨word, hword, hlower⟩ := hspells.exists_word
  have hchars : sign.toList.map Sign.char ++ word.toList = ['-', '-', 'i', 'n', 'f'] := by
    rw [← hlower, htrim]
    decide
  -- one sign is not enough to take both away
  have hminus : '-' ∈ word.toList := by
    cases sign with
    | none =>
      have hword : word.toList = ['-', '-', 'i', 'n', 'f'] := hchars
      simp [hword]
    | some sign =>
      have hword : word.toList = ['-', 'i', 'n', 'f'] := (List.cons.inj hchars).2
      simp [hword]
  exact (not_sign_of_mem_word hword '-' hminus).2.1 rfl

end NodeScript
