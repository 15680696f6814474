import Mathlib.Data.List.Infix
import NodeScript.Run.Stream
import NodeScript.Text.Lines

/-!
# Line ends

A line ends with a line feed, or with a carriage return and a line feed. The lines of a text do not tell the two from each other,
at the end of the text or anywhere else: with line feeds between them they are the text without its last line end and without the
carriage returns before its line feeds (`Text.intercalate_lines`), and nothing else of the text is lost (`Text.lines_eq_iff`).
-/

namespace NodeScript

namespace Text

open Source

/-! ## Line ends -/

/-- The characters without the carriage returns that stand right before a line feed. -/
def unifyEnds : List Char → List Char
  | [] => []
  | c :: rest => if c = '\r' ∧ rest.head? = some '\n' then unifyEnds rest else c :: unifyEnds rest

variable {line : List Char}

/-- Where no line feed has a carriage return before it, nothing is left out. -/
theorem unifyEnds_of_not_infix {cs : List Char} (h : ¬['\r', '\n'] <:+: cs) : unifyEnds cs = cs := by
  induction cs with
  | nil => rfl
  | cons c rest ih =>
    have hrest : ¬['\r', '\n'] <:+: rest := fun hpair => h (hpair.trans (List.infix_cons List.infix_rfl))
    have hpair : ¬(c = '\r' ∧ rest.head? = some '\n') := by
      rintro ⟨rfl, hhead⟩
      obtain ⟨rest', rfl⟩ := List.head?_eq_some_iff.mp hhead
      exact h ⟨[], rest', rfl⟩
    rw [unifyEnds, if_neg hpair, ih hrest]

/-- A line without a line feed has no carriage return to leave out. -/
theorem unifyEnds_of_not_mem (h : '\n' ∉ line) : unifyEnds line = line := by
  refine unifyEnds_of_not_infix fun hpair => h ?_
  exact hpair.subset (by simp)

/-- A line without a line feed has none after its carriage return is gone. -/
theorem not_mem_dropReturn (h : '\n' ∉ line) : '\n' ∉ dropReturn line := by
  rw [dropReturn]
  split
  · exact fun hmem => h (List.mem_of_mem_take (List.dropLast_eq_take ▸ hmem))
  · exact h

/-- A carriage return is taken away at the end only. -/
theorem dropReturn_cons (c : Char) (hline : line ≠ []) : dropReturn (c :: line) = c :: dropReturn line := by
  obtain ⟨d, rest, rfl⟩ := List.exists_cons_of_ne_nil hline
  simp only [dropReturn, List.getLast?_cons_cons, List.dropLast_cons_cons]
  split <;> rfl

/-- A line loses the carriage return at its end. -/
theorem unifyEnds_line (h : '\n' ∉ line) (rest : List Char) :
    unifyEnds (line ++ '\n' :: rest) = dropReturn line ++ '\n' :: unifyEnds rest := by
  induction line with
  | nil => rfl
  | cons c line ih =>
    have hline : '\n' ∉ line := fun hmem => h (.tail _ hmem)
    rw [List.cons_append, unifyEnds, ih hline]
    by_cases hempty : line = []
    · subst hempty
      by_cases hc : c = '\r' <;> simp [hc, dropReturn]
    · obtain ⟨d, more, rfl⟩ := List.exists_cons_of_ne_nil hempty
      have hd : d ≠ '\n' := fun hd => hline (by rw [hd]; exact .head _)
      rw [if_neg (by simp [hd]), dropReturn_cons c hempty, List.cons_append]

theorem dropLineEnd_of_not_mem (h : '\n' ∉ line) : dropLineEnd line = line := by
  have hlast : line.getLast? ≠ some '\n' := fun hlast => h (List.mem_of_getLast? hlast)
  rw [dropLineEnd, if_neg hlast]

/-- The line end of a line is its line feed, with the carriage return before it. -/
theorem dropLineEnd_line (line : List Char) : dropLineEnd (line ++ ['\n']) = dropReturn line := by
  simp [dropLineEnd, dropReturn]

/-- A line end is taken from the end of a text, whatever stands before, unless this is a carriage return that belongs to it. -/
theorem dropLineEnd_append {first rest : List Char} (hrest : rest ≠ []) (hfirst : first.getLast? ≠ some '\r') :
    dropLineEnd (first ++ rest) = first ++ dropLineEnd rest := by
  obtain ⟨body, c, rfl⟩ := List.eq_nil_or_concat rest |>.resolve_left hrest
  by_cases hc : c = '\n'
  · subst hc
    rw [List.concat_eq_append, ← List.append_assoc, dropLineEnd_line, dropLineEnd_line, dropReturn, dropReturn,
      List.getLast?_append]
    by_cases hbody : body = []
    · simp [hbody, hfirst]
    · obtain ⟨d, hd⟩ := Option.ne_none_iff_exists'.mp (mt List.getLast?_eq_none_iff.mp hbody)
      rw [hd, Option.some_or]
      split
      · rw [List.dropLast_append_of_ne_nil hbody]
      · rfl
  · simp [dropLineEnd, hc]

/-! ## Lines -/

/-- Only the empty text has no lines. -/
theorem linesFrom_ne_nil (line : List Char) {cs : List Char} (hne : cs ≠ []) : linesFrom line cs ≠ [] := by
  induction cs generalizing line with
  | nil => exact absurd rfl hne
  | cons c rest ih =>
    rw [linesFrom]
    split
    · exact List.cons_ne_nil _ _
    · by_cases hrest : rest = []
      · simp [hrest, linesFrom]
      · exact ih (c :: line) hrest

/-- No line has a line feed in it. -/
theorem not_mem_linesFrom (hline : '\n' ∉ line) (cs : List Char) : ∀ s ∈ linesFrom line cs, '\n' ∉ s.toList := by
  have hopen : ∀ {line : List Char}, '\n' ∉ line → '\n' ∉ line.reverse := fun h => by rwa [List.mem_reverse]
  induction cs generalizing line with
  | nil =>
    intro s hs
    rw [linesFrom] at hs
    split at hs
    · cases hs
    · obtain rfl := List.mem_singleton.mp hs
      rw [String.toList_ofList]
      exact hopen hline
  | cons c rest ih =>
    intro s hs
    rw [linesFrom] at hs
    split at hs
    · rcases List.mem_cons.mp hs with rfl | hs
      · rw [String.toList_ofList]
        exact not_mem_dropReturn (hopen hline)
      · exact ih List.not_mem_nil s hs
    · rename_i hc
      refine ih (fun hmem => ?_) s hs
      rcases List.mem_cons.mp hmem with hmem | hmem
      · exact hc hmem.symm
      · exact hline hmem

/-- The lines that are still to come, with line feeds between them, are the rest of the text with the open line, without its last
line end and without the carriage returns before its line feeds. -/
theorem intercalate_linesFrom (hline : '\n' ∉ line) {cs : List Char} (hne : line.reverse ++ cs ≠ []) :
    ['\n'].intercalate ((linesFrom line cs).map String.toList) = unifyEnds (dropLineEnd (line.reverse ++ cs)) := by
  induction cs generalizing line with
  | nil =>
    have hopen : '\n' ∉ line.reverse := by rwa [List.mem_reverse]
    have hempty : line.isEmpty = false := by simpa using hne
    rw [List.append_nil, dropLineEnd_of_not_mem hopen, unifyEnds_of_not_mem hopen, linesFrom, hempty]
    simp
  | cons c rest ih =>
    by_cases hc : c = '\n'
    · subst hc
      have hopen : '\n' ∉ line.reverse := by rwa [List.mem_reverse]
      rw [linesFrom, if_pos rfl]
      by_cases hrest : rest = []
      · -- the line feed ends the text
        subst hrest
        rw [dropLineEnd_line, unifyEnds_of_not_mem (not_mem_dropReturn hopen)]
        simp [linesFrom]
      · obtain ⟨next, more, hlines⟩ := List.exists_cons_of_ne_nil (linesFrom_ne_nil [] hrest)
        have htext : dropLineEnd (line.reverse ++ '\n' :: rest) = line.reverse ++ '\n' :: dropLineEnd rest := by
          have hfirst : (line.reverse ++ ['\n']).getLast? ≠ some '\r' := by simp
          simpa using dropLineEnd_append hrest hfirst
        have hih := ih List.not_mem_nil (by simpa using hrest)
        rw [List.reverse_nil, List.nil_append, hlines, List.map_cons] at hih
        rw [hlines, List.map_cons, List.map_cons, List.intercalate_cons_cons, hih, String.toList_ofList, htext,
          unifyEnds_line hopen, List.append_assoc, List.singleton_append]
    · have hline' : '\n' ∉ c :: line := by
        rintro (_ | ⟨_, hmem⟩)
        · exact hc rfl
        · exact hline hmem
      rw [linesFrom, if_neg hc, ih hline' (by simp), List.reverse_cons, List.append_assoc, List.singleton_append]

/-- Only the empty text has no lines. -/
theorem lines_eq_nil_iff (s : String) : lines s = [] ↔ s = "" := by
  constructor
  · intro hnil
    by_contra hne
    exact linesFrom_ne_nil [] (mt String.toList_eq_nil_iff.mp hne) hnil
  · rintro rfl
    rfl

/-- With line feeds between them, the lines are the text without its last line end and with all others unified. -/
theorem intercalate_lines {s : String} (hne : s ≠ "") :
    ['\n'].intercalate ((lines s).map String.toList) = unifyEnds (dropLineEnd s.toList) :=
  intercalate_linesFrom List.not_mem_nil (mt String.toList_eq_nil_iff.mp hne)

/-- The lines of a text are what stands between the line feeds of what is left of it. -/
theorem lines_toList {s : String} (hne : s ≠ "") :
    (lines s).map String.toList = (unifyEnds (dropLineEnd s.toList)).splitOn '\n' := by
  rw [← intercalate_lines hne, List.splitOn_intercalate '\n' (fun l hl => ?_) (by simpa [lines_eq_nil_iff] using hne)]
  obtain ⟨s', hs', rfl⟩ := List.mem_map.mp hl
  exact not_mem_linesFrom List.not_mem_nil s.toList s' hs'

/-- Two texts are the same but for the carriage returns in their line ends, and for a line end that only one of them ends with.
The empty text is the same as no other: a line end is a line. -/
structure SameUpToLineEnds (s t : String) : Prop where
  empty : s = "" ↔ t = ""
  unified : unifyEnds (dropLineEnd s.toList) = unifyEnds (dropLineEnd t.toList)

/-- Two texts have the same lines exactly when they are the same up to line ends. -/
theorem lines_eq_iff (s t : String) : lines s = lines t ↔ SameUpToLineEnds s t := by
  constructor
  · intro hlines
    have hempty : s = "" ↔ t = "" := by rw [← lines_eq_nil_iff, hlines, lines_eq_nil_iff]
    refine ⟨hempty, ?_⟩
    by_cases hs : s = ""
    · rw [hs, hempty.mp hs]
    · rw [← intercalate_lines hs, ← intercalate_lines (mt hempty.mpr hs), hlines]
  · rintro ⟨hempty, hsame⟩
    by_cases hs : s = ""
    · rw [hs, hempty.mp hs]
    · have hmap : (lines s).map String.toList = (lines t).map String.toList := by
        rw [lines_toList hs, lines_toList (mt hempty.mpr hs), hsame]
      exact List.map_injective_iff.mpr (fun _ _ => String.toList_inj.mp) hmap

end Text

end NodeScript
