import NodeScript.Value.Fault

/-!
# The text of a failure

The text of a failure starts with its position, if it has one. The position can be read off the text: the text starts with no
other one, and what follows is the message of the fault (`Failure.message_eq_iff`). No fault that a run comes to has a message
that starts with a position itself (`Fault.OfRun.worded`, `Worded.not_positioned`).
-/

namespace NodeScript

/-- The text starts with a position. -/
def Positioned (text : String) : Prop :=
  ∃ (s : Span) (rest : String), text = s.text ++ ": " ++ rest

/-- A fault that a run can come to: not one of a document that does not load. -/
def Fault.OfRun : Fault → Prop
  | .unknownExpression _ | .unknownInstruction _ | .malformedNode _ => False
  | _ => True

/-! ## Numbers at the start of a text -/

section

variable {a b : Nat} {c : Char} {rest rest' : List Char}

/-- The digits of a number end where the first character stands that is no digit. -/
theorem takeWhile_digits (hc : c.isDigit = false) :
    (Nat.toDigits 10 a ++ c :: rest).takeWhile Char.isDigit = Nat.toDigits 10 a := by
  have hdigits : ∀ d ∈ Nat.toDigits 10 a, d.isDigit = true := fun d => Nat.isDigit_of_mem_toDigits (by omega) (by omega)
  rw [List.takeWhile_append_of_pos hdigits, List.takeWhile_cons_of_neg (by simp [hc]), List.append_nil]

/-- A number that ends before a character that is no digit can be read off. -/
theorem digits_append_inj (hc : c.isDigit = false) (h : Nat.toDigits 10 a ++ c :: rest = Nat.toDigits 10 b ++ c :: rest') :
    a = b ∧ rest = rest' := by
  have hdigits : Nat.toDigits 10 a = Nat.toDigits 10 b := by
    rw [← takeWhile_digits hc, h, takeWhile_digits hc]
  have hab : a = b := by
    rw [← Nat.ofDigitChars_ten_toDigits (n := a), hdigits, Nat.ofDigitChars_ten_toDigits]
  rw [hdigits] at h
  exact ⟨hab, (List.cons.inj (List.append_cancel_left h)).2⟩

end

/-! ## Positions -/

/-- A text with a position starts with a line, a colon, a column and a colon. -/
theorem Span.toList_text_append (s : Span) (rest : String) : (s.text ++ ": " ++ rest).toList =
    Nat.toDigits 10 s.line.toNat ++ ':' :: (Nat.toDigits 10 s.column.toNat ++ ':' :: ' ' :: rest.toList) := by
  have hnumber (n : UInt32) : (toString n).toList = Nat.toDigits 10 n.toNat := by
    rw [show toString n = toString n.toNat from rfl, Nat.toString_eq_ofList_toDigits, String.toList_ofList]
  simp [Span.text, hnumber]

/-- A text starts with one position only. -/
theorem Span.text_append_inj {s s' : Span} {rest rest' : String} :
    s.text ++ ": " ++ rest = s'.text ++ ": " ++ rest' ↔ s = s' ∧ rest = rest' := by
  constructor
  · intro h
    have hchars := congrArg String.toList h
    rw [Span.toList_text_append, Span.toList_text_append] at hchars
    obtain ⟨hline, hchars⟩ := digits_append_inj rfl hchars
    obtain ⟨hcolumn, hchars⟩ := digits_append_inj rfl hchars
    have hspan : s = s' := by
      cases s
      cases s'
      simp only [Span.mk.injEq]
      exact ⟨UInt32.toNat_inj.mp hline, UInt32.toNat_inj.mp hcolumn⟩
    exact ⟨hspan, String.toList_inj.mp (List.cons.inj hchars).2⟩
  · rintro ⟨rfl, rfl⟩
    rfl

/-! ## Messages -/

/-- The text starts with a character that is no digit. -/
def Worded (text : String) : Prop :=
  ∃ c, text.toList.head? = some c ∧ c.isDigit = false

/-- What follows does not change the first character. -/
theorem Worded.append {start : String} (h : Worded start) (rest : String) : Worded (start ++ rest) := by
  obtain ⟨c, hhead, hc⟩ := h
  refine ⟨c, ?_, hc⟩
  rw [String.toList_append, List.head?_append, hhead]
  rfl

/-- A text that starts with no digit starts with no position. -/
theorem Worded.not_positioned {text : String} (h : Worded text) : ¬Positioned text := by
  rintro ⟨s, rest, rfl⟩
  obtain ⟨c, hhead, hc⟩ := h
  rw [Span.toList_text_append] at hhead
  cases hdigits : Nat.toDigits 10 s.line.toNat with
  | nil => exact absurd hdigits Nat.toDigits_ne_nil
  | cons d digits =>
    rw [hdigits] at hhead
    cases hhead
    have hdigit : c.isDigit = true :=
      Nat.isDigit_of_mem_toDigits (b := 10) (n := s.line.toNat) (by omega) (by omega) (by simp [hdigits])
    rw [hc] at hdigit
    cases hdigit

/-- The message of every fault that a run can come to starts with a word. -/
theorem Fault.OfRun.worded {f : Fault} (hf : f.OfRun) : Worded f.message := by
  cases f with
  | unknownExpression | unknownInstruction | malformedNode => exact hf.elim
  | returnOutsideFunction => exact ⟨'r', rfl, rfl⟩
  | variableNotFound name => exact .append ⟨'v', rfl, rfl⟩ _
  | mismatch m => exact .append ⟨'t', rfl, rfl⟩ _
  | indexOutOfRange index length => exact (Worded.append ⟨'i', rfl, rfl⟩ _).append _ |>.append _
  | argumentCount expected given =>
    exact (((((Worded.append ⟨'e', rfl, rfl⟩ _).append _).append _).append _).append _).append _
  | unknownParameter name => exact .append ⟨'u', rfl, rfl⟩ _
  | trap t => exact .append ⟨'a', rfl, rfl⟩ _
  | notAssignable u => exact .append ⟨'c', rfl, rfl⟩ _
  | callDepth limit => exact (Worded.append ⟨'c', rfl, rfl⟩ _).append _
  | stream text => exact .append ⟨'i', rfl, rfl⟩ _

/-- The text of a failure starts with its position and nothing else that could be one. -/
theorem Failure.message_eq_iff {f : Failure} (hf : f.fault.OfRun) {s : Span} {rest : String} :
    f.message = s.text ++ ": " ++ rest ↔ f.span = some s ∧ rest = f.fault.message := by
  obtain ⟨fault, span⟩ := f
  cases span with
  | none =>
    constructor
    · intro h
      exact absurd ⟨s, rest, h⟩ hf.worded.not_positioned
    · rintro ⟨h, -⟩
      cases h
  | some s' =>
    show s'.text ++ ": " ++ fault.message = _ ↔ _
    rw [Span.text_append_inj]
    simp only [Option.some.injEq]
    exact and_congr_right fun _ => eq_comm

end NodeScript
