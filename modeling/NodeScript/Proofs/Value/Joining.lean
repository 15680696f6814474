import NodeScript.Proofs.Value.Iteration
import NodeScript.Proofs.Value.Rendering

/-!
# Joining and showing

The texts of the elements of a sequence are put together in two ways. To join them, a pass through the sequence is asked for one
item after the other, until there is none left or one has no text (`Heap.joinByPass`); all of them are kept, and only then put
together with the separator between them. To show a list, each element is written with a comma before it unless it is the first
(`Heap.write`), and a range is shown as its integers. Joined with commas, the elements are what stands between the brackets
(`join_agrees_with_render`).
-/

namespace NodeScript

/-! ## Elements one after the other -/

/-- The texts of the items that a pass still gives; where one has no text, no more items are asked for. `fuel` bounds the number
of items. -/
def Cursor.texts : Nat → Cursor → Heap → Option (Except Fault (List String))
  | 0, _, _ => none
  | fuel + 1, cursor, h =>
    match cursor.next? h with
    | (none, _) => some (.ok [])
    | (some (s, next), h') =>
      match (h'.get s).scalarText with
      | .error f => some (.error f)
      | .ok text => (texts fuel next h').map (Except.map (text :: ·))

/-- Joins the texts of the items that a pass through the sequence gives. -/
def Heap.joinByPass (h : Heap) (fuel : Nat) (sequence separator : Value) : Option (Except Fault Value) :=
  match separator with
  | .string text =>
    match sequence.cursor with
    | .error f => some (.error f)
    | .ok cursor => (cursor.texts fuel h).map (Except.map fun texts => .string (text.intercalate texts))
  | v => some (.error (.mismatch (.separator v.type)))

/-- The integers below a bound start with the first one. -/
theorem intsFrom_of_lt {a b : Int64} (hlt : a < b) : intsFrom a b = a :: intsFrom (a + 1) b := by
  have hnext := Pass.toInt_succ_of_lt hlt
  have hcount : (b.toInt - a.toInt).toNat = (b.toInt - (a + 1).toInt).toNat + 1 := by
    have := Int64.lt_iff_toInt_lt.mp hlt
    omega
  rw [intsFrom, hcount, List.range_succ_eq_map, List.map_cons, List.map_map]
  refine congrArg₂ List.cons (by simp) (List.map_congr_left fun k _ => ?_)
  simp only [Function.comp_apply, hnext]
  congr 1
  push_cast
  omega

/-- There are no integers below a bound that is not above. -/
theorem intsFrom_of_not_lt {a b : Int64} (hnot : ¬a < b) : intsFrom a b = [] := by
  rw [← List.length_eq_zero_iff, length_intsFrom]
  have := mt Int64.lt_iff_toInt_lt.mpr hnot
  omega

namespace Cursor

variable {fuel : Nat}

/-- A pass that has nothing left gives no texts. -/
theorem texts_of_next?_none {cursor : Cursor} {h h' : Heap} (hnext : cursor.next? h = (none, h')) :
    cursor.texts (fuel + 1) h = some (.ok []) := by
  rw [texts, hnext]

/-- The text of an item comes before those of the items after it. -/
theorem texts_of_next?_some {cursor next : Cursor} {h h' : Heap} {s : SlotId} {rest : List Value}
    (hnext : cursor.next? h = (some (s, next), h')) (hrest : next.texts fuel h' = some (rest.mapM Value.scalarText)) :
    cursor.texts (fuel + 1) h = some ((h'.get s :: rest).mapM Value.scalarText) := by
  rw [texts, hnext, List.mapM_cons]
  simp only [hrest]
  cases (h'.get s).scalarText with
  | error f => rfl
  | ok text => cases rest.mapM Value.scalarText <;> rfl

/-- A pass through a list gives the texts of its values, from its place on. -/
theorem texts_list (h : Heap) (l : ListId) {i : Nat} (hfuel : ((h.values l).drop i).length < fuel) :
    (Cursor.list l i).texts fuel h = some (((h.values l).drop i).mapM Value.scalarText) := by
  induction fuel generalizing i with
  | zero => exact absurd hfuel (Nat.not_lt_zero _)
  | succ fuel ih =>
    cases hs : (h.items l)[i]? with
    | none =>
      have hend : (h.values l).drop i = [] := by
        rw [List.drop_eq_nil_iff, Heap.values, List.length_map]
        simpa using hs
      rw [texts_of_next?_none (by rw [Pass.next?_list, hs, Option.map_none]), hend]
      rfl
    | some s =>
      have hcons : (h.values l).drop i = h.get s :: (h.values l).drop (i + 1) := by
        rw [Heap.values, ← List.map_drop, ← List.map_drop, List.drop_eq_getElem?_toList_append, Array.getElem?_toList, hs]
        rfl
      rw [hcons, List.length_cons] at hfuel
      rw [hcons]
      exact texts_of_next?_some (by rw [Pass.next?_list, hs, Option.map_some]) (ih (by omega))

/-- A pass through integers gives their texts. -/
theorem texts_ints (h : Heap) {a b : Int64} (hfuel : (intsFrom a b).length < fuel) :
    (Cursor.ints a b).texts fuel h = some (((intsFrom a b).map Value.int).mapM Value.scalarText) := by
  induction fuel generalizing h a with
  | zero => exact absurd hfuel (Nat.not_lt_zero _)
  | succ fuel ih =>
    by_cases hlt : a < b
    · rw [intsFrom_of_lt hlt, List.length_cons] at hfuel
      have hnext : (Cursor.ints a b).next? h = (some (h.slots.size, .ints (a + 1) b), (h.alloc (.int a)).2) := by
        rw [Cursor.next?, if_pos hlt]
        rfl
      rw [texts_of_next?_some hnext (ih _ (by omega)), intsFrom_of_lt hlt, Heap.get_alloc, if_pos rfl, List.map_cons]
    · rw [texts_of_next?_none (by rw [Cursor.next?, if_neg hlt]), intsFrom_of_not_lt hlt]
      rfl

end Cursor

namespace Heap

/-- To join with a string is to put the texts of the elements together with it between them. -/
theorem join_string (h : Heap) (sequence : Value) (text : String) :
    h.join sequence (.string text) =
      (h.elements sequence).bind fun vs => (vs.mapM Value.scalarText).map fun texts => .string (text.intercalate texts) := by
  rw [join]
  cases h.elements sequence with
  | error f => rfl
  | ok vs => cases vs.mapM Value.scalarText <;> rfl

/-- With enough fuel, what a pass through a sequence joins is what is joined. -/
theorem joinByPass_eq (h : Heap) (sequence separator : Value) :
    ∃ n, ∀ fuel, n < fuel → h.joinByPass fuel sequence separator = some (h.join sequence separator) := by
  cases separator with
  | string text =>
    cases sequence with
    | list l =>
      refine ⟨(h.values l).length, fun fuel hfuel => ?_⟩
      have htexts := Cursor.texts_list h l (i := 0) hfuel
      simp only [joinByPass, Value.cursor, htexts, join_string]
      rfl
    | range start stop =>
      cases hbounds : Value.bounds start stop with
      | error f =>
        refine ⟨0, fun fuel _ => ?_⟩
        simp [joinByPass, Value.cursor, join_string, elements, hbounds, bind, Except.bind]
      | ok found =>
        obtain ⟨a, b⟩ := found
        refine ⟨(intsFrom a b).length, fun fuel hfuel => ?_⟩
        have htexts := Cursor.texts_ints h hfuel
        simp [joinByPass, Value.cursor, join_string, elements, hbounds, htexts, bind, Except.bind, pure, Except.pure]
    | _ => exact ⟨0, fun _ _ => rfl⟩
  | _ => exact ⟨0, fun _ _ => rfl⟩

/-! ## Lists of scalars -/

theorem exists_scalarText_iff (v : Value) : (∃ text, v.scalarText = .ok text) ↔ v.IsScalar := by
  cases v <;> simp [Value.scalarText, Value.IsScalar, Value.type]

/-- A scalar is shown as the text that is joined. -/
theorem renderWith_of_isScalar (nested : ListId → Except Fault String) {v : Value} (hv : v.IsScalar) :
    renderWith nested v = v.scalarText := by
  cases v with
  | list | range | func | void => simp [Value.IsScalar, Value.type] at hv
  | _ => rfl

/-- All values have texts exactly if they are scalars. -/
theorem exists_mapM_scalarText_iff (vs : List Value) :
    (∃ texts, vs.mapM Value.scalarText = .ok texts) ↔ ∀ v ∈ vs, v.IsScalar := by
  have hfails : (∃ e, vs.mapM Value.scalarText = .error e) ↔ ∃ v ∈ vs, ∃ e, v.scalarText = .error e := mapM_error_iff
  constructor
  · rintro ⟨texts, htexts⟩ v hv
    rw [← exists_scalarText_iff]
    cases htext : v.scalarText with
    | ok text => exact ⟨text, rfl⟩
    | error f =>
      obtain ⟨e, he⟩ := hfails.mpr ⟨v, hv, f, htext⟩
      rw [htexts] at he
      cases he
  · intro hvs
    cases htexts : vs.mapM Value.scalarText with
    | ok texts => exact ⟨texts, rfl⟩
    | error e =>
      obtain ⟨v, hv, f, hf⟩ := hfails.mp ⟨e, htexts⟩
      obtain ⟨text, htext⟩ := (exists_scalarText_iff v).mpr (hvs v hv)
      rw [hf] at htext
      cases htext

/-- A list is joined exactly when the separator is a string and all elements are scalars. -/
theorem exists_join_list_iff (h : Heap) (l : ListId) (separator : Value) :
    (∃ v, h.join (.list l) separator = .ok v) ↔ separator.type = .string ∧ ∀ v ∈ h.values l, v.IsScalar := by
  rw [← exists_mapM_scalarText_iff]
  cases separator with
  | string text =>
    rw [join_string]
    cases htexts : (h.values l).mapM Value.scalarText <;> simp [elements, htexts, Except.bind, Except.map, Value.type]
  | _ => simp [join, Value.type]

/-- A list of scalars is shown as their texts between brackets. -/
theorem render_of_isScalar {h : Heap} {l : ListId} (hscalar : ∀ v ∈ h.values l, v.IsScalar) :
    h.render (.list l) = ((h.values l).mapM Value.scalarText).map bracketed := by
  have helements : ∀ v ∈ h.values l, renderWith (h.renderList h.lists.size [l]) v = v.scalarText :=
    fun v hv => renderWith_of_isScalar _ (hscalar v hv)
  rw [render, renderWith, renderList_succ h h.lists.size List.not_mem_nil, mapM_congr_of_mem helements]

/-! ## Ranges -/

/-- The bounds of a range fail exactly when the range is a bad one, and the fault names the types of both. -/
theorem bounds_error_iff (start stop : Value) (f : Fault) :
    Value.bounds start stop = .error f ↔
      (Value.range start stop).BadRange ∧ f = .mismatch (.rangeBounds start.type stop.type) := by
  cases start <;> cases stop <;> simp [Value.bounds, Value.bound?, Value.BadRange, Value.type, eq_comm]

/-- Integers have their digits for texts. -/
theorem mapM_scalarText_ints (ns : List Int64) : (ns.map Value.int).mapM Value.scalarText = .ok (ns.map toString) := by
  induction ns with
  | nil => rfl
  | cons n rest ih =>
    rw [List.map_cons, List.mapM_cons, ih]
    rfl

/-- A range is joined from the digits of its integers. -/
theorem join_range (h : Heap) (start stop : Value) (text : String) :
    h.join (.range start stop) (.string text) =
      (Value.bounds start stop).map fun p => .string (text.intercalate ((intsFrom p.1 p.2).map toString)) := by
  rw [join_string, elements]
  cases Value.bounds start stop with
  | error f => rfl
  | ok p =>
    simp only [bind, Except.bind, pure, Except.pure, mapM_scalarText_ints]
    rfl

/-- A range is shown as the digits of its integers between brackets. -/
theorem render_range (h : Heap) (start stop : Value) :
    h.render (.range start stop) = (Value.bounds start stop).map fun p => bracketed ((intsFrom p.1 p.2).map toString) := by
  rw [render, renderWith]
  cases Value.bounds start stop <;> rfl

end Heap

/-- Joining and showing agree. A list can be joined exactly if the separator is a string and all elements are scalars, and then it
is shown as its elements joined by commas, between brackets. A range between integers or truth values can always be joined and
shown, and the same holds of it. On any other range both fail, with the same fault. The pass that joins a sequence, and the
writing that shows a value, come to an end, with what is said here as their result. -/
theorem join_agrees_with_render (h : Heap) :
    (∀ l separator, (∃ v, h.join (.list l) separator = .ok v) ↔
      separator.type = .string ∧ ∀ v ∈ h.values l, v.type ∈ [.int, .float, .bool, .string]) ∧
    (∀ l, (∀ v ∈ h.values l, v.type ∈ [.int, .float, .bool, .string]) →
      ∃ text, h.join (.list l) (.string ",") = .ok (.string text) ∧ h.render (.list l) = .ok ("[" ++ text ++ "]")) ∧
    (∀ start stop, start.type ∈ [.int, .bool] → stop.type ∈ [.int, .bool] →
      ∃ text, h.join (.range start stop) (.string ",") = .ok (.string text) ∧
        h.render (.range start stop) = .ok ("[" ++ text ++ "]")) ∧
    (∀ start stop text f, h.join (.range start stop) (.string text) = .error f ↔ h.render (.range start stop) = .error f) ∧
    (∀ start stop f, h.render (.range start stop) = .error f ↔
      (start.type ∉ [.int, .bool] ∨ stop.type ∉ [.int, .bool]) ∧ f = .mismatch (.rangeBounds start.type stop.type)) ∧
    ∀ sequence separator, ∃ n, ∀ fuel, n < fuel →
      h.joinByPass fuel sequence separator = some (h.join sequence separator) ∧
      h.write fuel sequence ⟨"", []⟩ = some ((h.render sequence).map fun s => ((), ⟨s, []⟩)) := by
  refine ⟨h.exists_join_list_iff, fun l hscalar => ?_, fun start stop hstart hstop => ?_, fun start stop text f => ?_,
    fun start stop f => ?_, fun sequence separator => ?_⟩
  · obtain ⟨texts, htexts⟩ := (Heap.exists_mapM_scalarText_iff (h.values l)).mpr hscalar
    refine ⟨String.intercalate "," texts, ?_, ?_⟩
    · rw [Heap.join_string, Heap.elements, Except.bind, htexts]
      rfl
    · rw [Heap.render_of_isScalar hscalar, htexts]
      rfl
  · cases hbounds : Value.bounds start stop with
    | error f =>
      obtain ⟨hbad, -⟩ := (Heap.bounds_error_iff start stop f).mp hbounds
      rcases hbad with hbad | hbad
      · exact absurd hstart hbad
      · exact absurd hstop hbad
    | ok p =>
      refine ⟨String.intercalate "," ((intsFrom p.1 p.2).map toString), ?_, ?_⟩
      · rw [Heap.join_range, hbounds]
        rfl
      · rw [Heap.render_range, hbounds]
        rfl
  · rw [Heap.join_range, Heap.render_range]
    cases Value.bounds start stop <;> simp [Except.map]
  · have hbounds := Heap.bounds_error_iff start stop f
    rw [Heap.render_range, ← Value.BadRange, ← hbounds]
    cases Value.bounds start stop <;> simp [Except.map]
  · obtain ⟨n, hjoin⟩ := h.joinByPass_eq sequence separator
    refine ⟨max n h.lists.size, fun fuel hfuel => ⟨hjoin fuel (by omega), ?_⟩⟩
    rw [h.writes_write sequence [] fuel (by omega) "", Heap.render]
    simp only [String.empty_append]

/-- A list of three scalars, and a range from a truth value to an integer. -/
theorem scalarsAndRange_join_agrees :
    let h : Heap := ⟨#[.int 1, .string "a", .bool true], #[#[0, 1, 2]]⟩
    let range : Value := .range (.bool true) (.int 3)
    (∀ v ∈ h.values 0, v.type ∈ [.int, .float, .bool, .string]) ∧
    h.join (.list 0) (.string ",") = .ok (.string "1,a,True") ∧ h.render (.list 0) = .ok "[1,a,True]" ∧
    h.join range (.string ",") = .ok (.string "1,2") ∧ h.render range = .ok "[1,2]" := by
  intro h range
  have hscalar : ∀ v ∈ h.values 0, v.type ∈ [.int, .float, .bool, .string] := by
    simp [h, Heap.values, Heap.items, Heap.get, Value.type]
  have hlist : h.join (.list 0) (.string ",") = .ok (.string "1,a,True") := by cbv
  have hrange : h.join range (.string ",") = .ok (.string "1,2") := by cbv
  obtain ⟨-, hlists, hranges, -⟩ := join_agrees_with_render h
  obtain ⟨text, htext, hshown⟩ := hlists 0 hscalar
  obtain ⟨text', htext', hshown'⟩ := hranges (.bool true) (.int 3) (by decide) (by decide)
  rw [hlist] at htext
  rw [hrange] at htext'
  cases htext
  cases htext'
  exact ⟨hscalar, hlist, hshown, hrange, hshown'⟩

end NodeScript
