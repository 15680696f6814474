import NodeScript.Golden
import NodeScript.Proofs.Diff.Walk
import NodeScript.Proofs.Text.LineEnd

/-!
# A difference without changed lines

Texts that differ but have the same lines are said to differ in their end. There is nothing to change between two texts exactly if
they have the same lines (`LineDiff.changes_eq_nil_iff`), and the notice is not the text of any change
(`LineDiff.join_text_ne_notice`). So it stands for the differences that lines do not show (`notice_iff_same_up_to_line_ends`), and
these are not all at the end (`inner_line_end_gets_notice`).
-/

namespace NodeScript

namespace LineDiff

/-! ## No changes -/

theorem without_nil (i : Nat) (lines : List String) : without [] i lines = lines := by
  induction lines generalizing i with
  | nil => rfl
  | cons a lines ih => rw [without, if_neg List.not_mem_nil, ih]

/-- There is nothing to change only between equal lines. -/
theorem changes_eq_nil_iff (old new : List String) : changes old new = [] ↔ old = new := by
  have hscript := isScript_changes old new
  constructor
  · intro hnil
    have hcommon := hscript.common
    rw [hnil] at hcommon
    exact (without_nil 1 old).symm.trans (hcommon.trans (without_nil 1 new))
  · rintro rfl
    have hpicks : Picks old [] := ⟨.nil, fun _ hp => absurd hp List.not_mem_nil⟩
    have hempty : IsScript old old [] := ⟨hpicks, hpicks, rfl⟩
    exact List.eq_nil_of_length_eq_zero (Nat.le_zero.mp (length_changes_le hempty))

/-- What is said of two texts between whose lines there is nothing to change. -/
def notice : String := "       (trailing newline differs)\n"

/-- Among the first four characters of a change there is a digit. -/
theorem exists_digit_text (change : LineChange) : ∃ c ∈ change.text.toList.take 4, c.isDigit := by
  have hplaced : ∀ (n : Nat) (rest : List Char), ∃ c ∈ ((placed n).toList ++ rest).take 4, c.isDigit := by
    intro n rest
    obtain ⟨c, digits, hdigits⟩ := List.exists_cons_of_ne_nil (Nat.toDigits_ne_nil (b := 10) (n := n))
    have hc : c ∈ Nat.toDigits 10 n := hdigits ▸ List.mem_cons_self
    refine ⟨c, ?_, Nat.isDigit_of_mem_toDigits (by decide) (by decide) hc⟩
    rw [placed, String.toList_ofList, hdigits, List.append_assoc, List.take_append]
    refine List.mem_append_right _ ?_
    obtain ⟨k, hk⟩ : ∃ k, 4 - (List.replicate (4 - (c :: digits).length) ' ').length = k + 1 :=
      Nat.exists_eq_succ_of_ne_zero (by simp only [List.length_replicate, List.length_cons]; omega)
    rw [hk]
    exact List.mem_cons_self
  cases change with
  | removed n line => simpa [LineChange.text] using hplaced n (" - ".toList ++ (line.toList ++ "\n".toList))
  | added n line => simpa [LineChange.text] using hplaced n (" + ".toList ++ (line.toList ++ "\n".toList))

/-- The notice is not the text of changes, whatever their lines are. -/
theorem join_text_ne_notice {changes : List LineChange} (hne : changes ≠ []) :
    String.join (changes.map LineChange.text) ≠ notice := by
  intro hnotice
  obtain ⟨change, rest, rfl⟩ := List.exists_cons_of_ne_nil hne
  obtain ⟨c, hc, hdigit⟩ := exists_digit_text change
  have hfirst : c ∈ notice.toList.take 4 := by
    rw [← hnotice, List.map_cons, String.join_cons, String.toList_append, List.take_append]
    exact List.mem_append_left _ hc
  have hblanks : notice.toList.take 4 = [' ', ' ', ' ', ' '] := rfl
  have hblank : c = ' ' := by
    rw [hblanks] at hfirst
    simpa using hfirst
  rw [hblank] at hdigit
  cases hdigit

/-- The notice is given exactly for texts that are the same up to line ends. -/
theorem lineDiff_eq_notice_iff (expected actual : String) :
    lineDiff expected actual = notice ↔ Text.SameUpToLineEnds expected actual := by
  rw [← Text.lines_eq_iff, ← changes_eq_nil_iff, lineDiff_eq]
  constructor
  · intro hnotice
    by_contra hne
    rw [if_neg hne] at hnotice
    exact join_text_ne_notice hne hnotice
  · intro hnil
    rw [if_pos hnil, notice]

end LineDiff

/-- What the notice of a difference stands for. Two texts get it exactly if they are the same up to their line ends, be it the
last one or one in the middle. If no line end with a carriage return is left in either when its last line end is taken away, then
this is to say that what is left of the two is the same. A golden program gets the notice if it runs to its end and what it writes
is not what is expected, but is the same up to its line ends. -/
theorem notice_iff_same_up_to_line_ends (expected actual : String) :
    (lineDiff expected actual = LineDiff.notice ↔ Text.SameUpToLineEnds expected actual) ∧
    (¬['\r', '\n'] <:+: Source.dropLineEnd expected.toList → ¬['\r', '\n'] <:+: Source.dropLineEnd actual.toList →
      (lineDiff expected actual = LineDiff.notice ↔
        (expected = "" ↔ actual = "") ∧ Source.dropLineEnd expected.toList = Source.dropLineEnd actual.toList)) ∧
    (∀ config source input, Golden.compare config source expected input = .diff LineDiff.notice ↔
      ∃ value m, runText source config ⟨input.toUTF8.toList⟩ .unlimited = (.ok value, m) ∧ expected ≠ m.sink.text ∧
        Text.SameUpToLineEnds expected m.sink.text) := by
  refine ⟨LineDiff.lineDiff_eq_notice_iff expected actual, fun hexpected hactual => ?_, fun config source input => ?_⟩
  · rw [LineDiff.lineDiff_eq_notice_iff]
    constructor
    · rintro ⟨hempty, hunified⟩
      rw [Text.unifyEnds_of_not_infix hexpected, Text.unifyEnds_of_not_infix hactual] at hunified
      exact ⟨hempty, hunified⟩
    · rintro ⟨hempty, hsame⟩
      exact ⟨hempty, by rw [hsame]⟩
  · rw [Golden.compare]
    rcases runText source config ⟨input.toUTF8.toList⟩ .unlimited with ⟨halt | value, m⟩
    · simp
    · by_cases htext : m.sink.text = expected
      · simp [htext]
      · simp [htext, Ne.symm htext, LineDiff.lineDiff_eq_notice_iff]

/-- Texts that differ in whether they end with a carriage return and a line feed. -/
theorem last_line_end_gets_notice :
    ¬['\r', '\n'] <:+: Source.dropLineEnd "a\nb\r\n".toList ∧ ¬['\r', '\n'] <:+: Source.dropLineEnd "a\nb".toList ∧
    lineDiff "a\nb\r\n" "a\nb" = LineDiff.notice := by
  have hexpected : ¬['\r', '\n'] <:+: Source.dropLineEnd "a\nb\r\n".toList := by decide
  have hactual : ¬['\r', '\n'] <:+: Source.dropLineEnd "a\nb".toList := by decide
  have hsame : Source.dropLineEnd "a\nb\r\n".toList = Source.dropLineEnd "a\nb".toList := by decide
  exact ⟨hexpected, hactual, ((notice_iff_same_up_to_line_ends _ _).2.1 hexpected hactual).mpr ⟨by decide, hsame⟩⟩

/-- A carriage return in the middle is behind the notice too, though the ends of the two texts are the same. -/
theorem inner_line_end_gets_notice :
    lineDiff "a\nb\n" "a\r\nb\n" = LineDiff.notice ∧
    Source.dropLineEnd "a\nb\n".toList ≠ Source.dropLineEnd "a\r\nb\n".toList := by
  decide

end NodeScript
