import Mathlib.Data.Finset.Card
import Mathlib.Data.Nat.Find
import NodeScript.Proofs.Value.Heap
import NodeScript.Proofs.Value.Nesting

/-!
# Showing a value

The text of a value is written by going through its lists, with a stack of those that are open; one that is met again while it is
open is cut off. There are only so many lists to open, so the writing comes to an end, with the stack as it was
(`Heap.writes_writeList`). It fails exactly when there is a range somewhere in the lists whose bounds are no integers: a list that
is cut off hides nothing, since what is inside it is found on a shortest way that does not pass through it twice
(`Heap.renderList_fails`). Where no list contains itself the text is that of the tree that the value unfolds to
(`Heap.renderList_unfolds`).
-/

namespace NodeScript

/-! ## What a value holds -/

/-- A range with a bound that is neither an integer nor a truth value. -/
def Value.BadRange : Value → Prop
  | range a b => a.type ∉ [.int, .bool] ∨ b.type ∉ [.int, .bool]
  | _ => False

theorem Value.eq_list_or_type_ne (v : Value) : (∃ l, v = .list l) ∨ v.type ≠ .list := by
  cases v with
  | list l => exact .inl ⟨l, rfl⟩
  | _ => exact .inr (by simp [Value.type])

namespace Heap

variable {h : Heap}

/-- A value is an element of a list. The bounds of a range are no elements. -/
inductive Element (h : Heap) : Value → Value → Prop where
  | of_mem {l : ListId} {v : Value} (hv : v ∈ h.values l) : Element h (.list l) v

/-- A value is another one, or is held by it through elements of lists. -/
abbrev Holds (h : Heap) : Value → Value → Prop :=
  Relation.ReflTransGen h.Element

/-- A value is held by another one, not more than `n` lists deep. -/
inductive HoldsWithin (h : Heap) : Nat → Value → Value → Prop where
  | here {n : Nat} (v : Value) : HoldsWithin h n v v
  | element {n : Nat} {l : ListId} {v w : Value} (hv : v ∈ h.values l) (hw : HoldsWithin h n v w) :
      HoldsWithin h (n + 1) (.list l) w

/-- What is held is held within any larger depth. -/
theorem HoldsWithin.mono {n : Nat} {v w : Value} (hw : h.HoldsWithin n v w) : ∀ {m : Nat}, n ≤ m → h.HoldsWithin m v w := by
  induction hw with
  | here v => intro m _; exact .here v
  | element hv _ ih =>
    intro m hm
    obtain ⟨k, rfl⟩ : ∃ k, m = k + 1 := ⟨m - 1, by omega⟩
    exact .element hv (ih (by omega))

/-- What is held is held at some depth. -/
theorem exists_holdsWithin {v w : Value} (hw : h.Holds v w) : ∃ n, h.HoldsWithin n v w := by
  induction hw using Relation.ReflTransGen.head_induction_on with
  | refl => exact ⟨0, .here w⟩
  | head hv _ ih =>
    obtain ⟨n, hn⟩ := ih
    cases hv with
    | of_mem hv => exact ⟨n + 1, .element hv hn⟩

/-- The shortest way from a list to another value goes through an element from which the list is not on the way any more. -/
theorem HoldsWithin.least {n : Nat} {l : ListId} {w : Value} (hw : h.HoldsWithin n (.list l) w) (hne : .list l ≠ w) :
    ∃ k < n, ¬h.HoldsWithin k (.list l) w ∧ ∃ v ∈ h.values l, h.HoldsWithin k v w := by
  classical
  have hex : ∃ m, h.HoldsWithin m (.list l) w := ⟨n, hw⟩
  have hle : Nat.find hex ≤ n := Nat.find_min' hex hw
  have hmin : ∀ k < Nat.find hex, ¬h.HoldsWithin k (.list l) w := fun k hk => Nat.find_min hex hk
  have hfound := Nat.find_spec hex
  generalize Nat.find hex = m at hle hmin hfound
  cases hfound with
  | here => exact absurd rfl hne
  | @element k _ v _ hv hw => exact ⟨k, by omega, hmin k (by omega), v, hv, hw⟩

/-! ## Lists that are not open -/

/-- The lists that are not open. -/
def closedLists (h : Heap) (opened : List ListId) : Finset ListId :=
  (Finset.range h.lists.size).filter (· ∉ opened)

/-- Opening a list leaves fewer closed. -/
theorem card_closedLists_cons {opened : List ListId} {l : ListId} (hl : l < h.lists.size) (ho : l ∉ opened) :
    (h.closedLists (l :: opened)).card < (h.closedLists opened).card := by
  apply Finset.card_lt_card
  rw [Finset.ssubset_iff_of_subset]
  · exact ⟨l, by simp [closedLists, hl, ho], by simp [closedLists]⟩
  · intro k hk
    simp only [closedLists, Finset.mem_filter, List.mem_cons, not_or] at hk ⊢
    exact ⟨hk.1, hk.2.2⟩

theorem card_closedLists_le (h : Heap) (opened : List ListId) : (h.closedLists opened).card ≤ h.lists.size := by
  have hle := Finset.card_filter_le (Finset.range h.lists.size) (· ∉ opened)
  rwa [Finset.card_range] at hle

/-- Fuel for the lists that are closed is enough for those that are closed once a list with an element is open. -/
theorem card_closedLists_lt {opened : List ListId} {l : ListId} {v : Value} {fuel : Nat}
    (hf : (h.closedLists opened).card < fuel + 1) (ho : l ∉ opened) (hv : v ∈ h.values l) :
    (h.closedLists (l :: opened)).card < fuel := by
  have hlt := card_closedLists_cons (lt_size_of_mem_values hv) ho
  omega

end Heap

/-! ## Texts of values -/

/-- The text of a value that is no list. -/
def Value.flatText (v : Value) : Except Fault String :=
  Heap.renderWith (fun _ => .ok "") v

namespace Heap

variable {h : Heap}

/-- A value that is no list has its text whatever lists have. -/
theorem renderWith_of_not_list (nested : ListId → Except Fault String) {v : Value} (hv : v.type ≠ .list) :
    renderWith nested v = v.flatText := by
  refine renderWith_congr fun l hl => ?_
  rw [hl] at hv
  exact absurd rfl hv

/-- A value that is no list has a text, unless it is a range with bad bounds. -/
theorem flatText_error_iff {v : Value} (hv : v.type ≠ .list) : (∃ f, v.flatText = .error f) ↔ v.BadRange := by
  cases v with
  | list l => exact absurd rfl hv
  | range a b => cases a <;> cases b <;> simp [Value.flatText, renderWith, Value.bounds, Value.bound?, Value.BadRange, Value.type,
      bind, Except.bind, pure, Except.pure]
  | _ => simp [Value.flatText, renderWith, Value.scalarText, Value.BadRange]

/-! ## When there is no text -/

/-- A sequence of values has no texts exactly when one of them has none. -/
theorem mapM_error_iff {f : Value → Except Fault String} {vs : List Value} :
    (∃ e, vs.mapM f = .error e) ↔ ∃ v ∈ vs, ∃ e, f v = .error e := by
  induction vs with
  | nil => simp [pure, Except.pure]
  | cons v rest ih =>
    rw [List.mapM_cons, List.exists_mem_cons_iff, ← ih]
    cases f v with
    | error e => simp [bind, Except.bind]
    | ok text => cases rest.mapM f <;> simp [bind, Except.bind, pure, Except.pure]

/-- The text of a list that is not open. -/
theorem renderList_succ (h : Heap) (fuel : Nat) {opened : List ListId} {l : ListId} (ho : l ∉ opened) :
    h.renderList (fuel + 1) opened l =
      ((h.values l).mapM (renderWith (h.renderList fuel (l :: opened)))).map bracketed := by
  rw [renderList, if_neg (mt List.contains_iff_mem.mp ho)]
  cases (h.values l).mapM (renderWith (h.renderList fuel (l :: opened))) <;> rfl

/-- A list has no text exactly when one of its elements has none, with the list open. -/
theorem renderList_error_iff {fuel : Nat} {opened : List ListId} {l : ListId} (ho : l ∉ opened) :
    (∃ f, h.renderList (fuel + 1) opened l = .error f) ↔
      ∃ v ∈ h.values l, ∃ f, renderWith (h.renderList fuel (l :: opened)) v = .error f := by
  rw [renderList_succ h fuel ho, ← mapM_error_iff]
  cases (h.values l).mapM (renderWith (h.renderList fuel (l :: opened))) <;> simp [Except.map]

/-- A list has no text only because of a range with bad bounds that it holds. -/
theorem exists_badRange_of_renderList (fuel : Nat) {opened : List ListId} {l : ListId}
    (hf : ∃ f, h.renderList fuel opened l = .error f) : ∃ w, h.Holds (.list l) w ∧ w.BadRange := by
  induction fuel generalizing opened l with
  | zero =>
    obtain ⟨f, hf⟩ := hf
    cases hf
  | succ fuel ih =>
    by_cases ho : l ∈ opened
    · rw [renderList, if_pos (List.contains_iff_mem.mpr ho)] at hf
      obtain ⟨f, hf⟩ := hf
      cases hf
    obtain ⟨v, hv, hf⟩ := (renderList_error_iff ho).mp hf
    rcases v.eq_list_or_type_ne with ⟨k, rfl⟩ | hlist
    · obtain ⟨w, hw, hbad⟩ := ih hf
      exact ⟨w, .head (.of_mem hv) hw, hbad⟩
    · rw [renderWith_of_not_list _ hlist] at hf
      exact ⟨v, .single (.of_mem hv), (flatText_error_iff hlist).mp hf⟩

/-- A range with bad bounds that a list holds leaves the list without a text. The lists that are cut off are those from which the
range is further away than from this one, so that they are not on the shortest way to it. -/
theorem renderList_fails (fuel : Nat) {opened : List ListId} {l : ListId} {w : Value} {n : Nat} (hbad : w.BadRange)
    (hw : h.HoldsWithin n (.list l) w) (hopen : ∀ k ∈ opened, ¬h.HoldsWithin n (.list k) w)
    (hf : (h.closedLists opened).card < fuel) : ∃ f, h.renderList fuel opened l = .error f := by
  induction fuel generalizing opened l n with
  | zero => exact absurd hf (Nat.not_lt_zero _)
  | succ fuel ih =>
    have ho : l ∉ opened := fun ho => hopen l ho hw
    have hne : .list l ≠ w := by
      rintro rfl
      exact hbad
    obtain ⟨k, hk, hnot, v, hv, hvw⟩ := hw.least hne
    refine (renderList_error_iff ho).mpr ⟨v, hv, ?_⟩
    rcases v.eq_list_or_type_ne with ⟨j, rfl⟩ | hlist
    · refine ih hvw (fun i hi => ?_) (card_closedLists_lt hf ho hv)
      rcases List.mem_cons.mp hi with rfl | hi
      · exact hnot
      · exact fun hiw => hopen i hi (hiw.mono (by omega))
    · have hvw : v = w := by
        cases hvw with
        | here => rfl
        | element => exact absurd rfl hlist
      subst hvw
      rw [renderWith_of_not_list _ hlist]
      exact (flatText_error_iff hlist).mpr hbad

/-- A value has no text exactly when it holds a range with bad bounds, or is one. -/
theorem render_error_iff (h : Heap) (v : Value) : (∃ f, h.render v = .error f) ↔ ∃ w, h.Holds v w ∧ w.BadRange := by
  rw [render]
  rcases v.eq_list_or_type_ne with ⟨l, rfl⟩ | hlist
  · refine ⟨exists_badRange_of_renderList _, ?_⟩
    rintro ⟨w, hw, hbad⟩
    obtain ⟨n, hn⟩ := exists_holdsWithin hw
    exact renderList_fails _ hbad hn (by simp) (Nat.lt_succ_of_le (h.card_closedLists_le []))
  · rw [renderWith_of_not_list _ hlist, flatText_error_iff hlist]
    refine ⟨fun hbad => ⟨v, .refl, hbad⟩, ?_⟩
    rintro ⟨w, hw, hbad⟩
    -- a value that is no list holds nothing but itself
    rcases Relation.ReflTransGen.cases_head hw with rfl | ⟨_, hv, -⟩
    · exact hbad
    · cases hv
      exact absurd rfl hlist

end Heap

/-! ## Writing a text -/

/-- A text that is being written: what is written so far, and the lists that are open, the innermost first. -/
structure Draft where
  text : String
  opened : List ListId

/-- What writes: it goes on with the draft, or fails. When its fuel is used up it does neither. -/
abbrev Writer := StateT Draft (ExceptT Fault Option)

namespace Writer

/-- Adds to the text. -/
def put (s : String) : Writer Unit :=
  modify fun d => { d with text := d.text ++ s }

/-- Adds a comma, unless it would be the first thing. -/
def comma (first : Bool) : Writer Unit :=
  unless first do put ","

/-- Whether a list is open. -/
def isOpen (l : ListId) : Writer Bool := do
  return (← get).opened.contains l

/-- Opens a list, writes, and closes the list that was opened last. -/
def opening (l : ListId) (x : Writer Unit) : Writer Unit := do
  modify fun d => { d with opened := l :: d.opened }
  x
  modify fun d => { d with opened := d.opened.tail }

end Writer

namespace Heap

variable {h : Heap}

/-- Writes a value, where `nested` writes a list. -/
def writeWith (nested : ListId → Writer Unit) : Value → Writer Unit
  | .list l => nested l
  | v => do Writer.put (← v.flatText)

/-- Writes values one after the other, with a comma before each but the first. -/
def writeItems (write : Value → Writer Unit) : Bool → List Value → Writer Unit
  | _, [] => return
  | first, v :: rest => do
    Writer.comma first
    write v
    writeItems write false rest

/-- Writes a list; `fuel` bounds how deep lists are nested. A list is open while its elements are written. -/
def writeList (h : Heap) : Nat → ListId → Writer Unit
  | 0, _ => fun _ => none
  | fuel + 1, l => do
    if ← Writer.isOpen l then Writer.put "[...]"
    else
      Writer.opening l do
        Writer.put "["
        writeItems (writeWith (writeList h fuel)) true (h.values l)
        Writer.put "]"

/-- Writes a value; `fuel` bounds how deep lists are nested. -/
def write (h : Heap) (fuel : Nat) (v : Value) : Writer Unit :=
  writeWith (h.writeList fuel) v

end Heap

/-- With the given lists open, a writer adds the given text to whatever is written already and leaves open what was open; or it
fails, if there is a fault in place of the text. -/
def Writer.Writes (x : Writer Unit) (opened : List ListId) (added : Except Fault String) : Prop :=
  ∀ text, x ⟨text, opened⟩ = some (added.map fun s => ((), ⟨text ++ s, opened⟩))

namespace Writer.Writes

variable {opened : List ListId} {x y : Writer Unit} {r r' : Except Fault String}

theorem put (s : String) : Writes (Writer.put s) opened (.ok s) :=
  fun _ => rfl

theorem nothing : Writes (return) opened (.ok "") := by
  intro text
  simp only [Except.map, String.append_empty]
  rfl

/-- One writer after another adds one text after the other. -/
theorem andThen (hx : Writes x opened r) (hy : Writes y opened r') :
    Writes (do x; y) opened (r.bind fun s => r'.map fun s' => s ++ s') := by
  intro text
  have hstep : (do x; y : Writer Unit) ⟨text, opened⟩ = (x ⟨text, opened⟩).run.bind (ExceptT.bindCont fun p => y p.2) := rfl
  rw [hstep, hx text]
  cases r with
  | error f => rfl
  | ok s =>
    refine (hy (text ++ s)).trans ?_
    cases r' with
    | error f => rfl
    | ok s' => simp [Except.bind, Except.map, String.append_assoc]

/-- What a list that is opened and closed again adds is what is written while it is open. -/
theorem opening {l : ListId} (hx : Writes x (l :: opened) r) : Writes (Writer.opening l x) opened r := by
  intro text
  have hstep : Writer.opening l x ⟨text, opened⟩ =
      (x ⟨text, l :: opened⟩).run.bind (ExceptT.bindCont fun p => pure ((), ⟨p.2.text, p.2.opened.tail⟩)) := rfl
  rw [hstep, hx text]
  cases r <;> rfl

/-- Which of two writers goes on depends on whether the list is open. -/
theorem ifOpen {l : ListId} (hx : l ∈ opened → Writes x opened r) (hy : l ∉ opened → Writes y opened r) :
    Writes (do if ← Writer.isOpen l then x else y) opened r := by
  intro text
  have hstep : (do if ← Writer.isOpen l then x else y : Writer Unit) ⟨text, opened⟩ =
      (if opened.contains l then x else y) ⟨text, opened⟩ := rfl
  rw [hstep]
  by_cases ho : l ∈ opened
  · rw [if_pos (List.contains_iff_mem.mpr ho)]
    exact hx ho text
  · rw [if_neg (mt List.contains_iff_mem.mp ho)]
    exact hy ho text

/-- The text of a value is added as it is. -/
theorem putText (r : Except Fault String) : Writes (do Writer.put (← r)) opened r := by
  intro text
  cases r <;> rfl

end Writer.Writes

namespace Heap

open Writer

variable {h : Heap}

/-- Texts one after the other, with a comma before each but the first. -/
def separated : Bool → List String → String
  | _, [] => ""
  | first, s :: rest => (if first then "" else ",") ++ s ++ separated false rest

/-- After the first text a comma stands before each one. -/
theorem separated_true (texts : List String) : separated true texts = String.intercalate "," texts := by
  cases texts with
  | nil => rw [separated, String.intercalate_nil]
  | cons s rest =>
    rw [separated, if_pos rfl, String.empty_append]
    induction rest generalizing s with
    | nil => rw [separated, String.append_empty, String.intercalate_singleton]
    | cons s' rest ih =>
      rw [separated, if_neg Bool.false_ne_true, String.intercalate_cons_cons, ← ih s', String.append_assoc, String.append_assoc]

/-- Values are written one after the other as their texts are put together, and the first fault ends the writing. -/
theorem writes_writeItems {opened : List ListId} {write : Value → Writer Unit} {f : Value → Except Fault String} (vs : List Value)
    (hwrite : ∀ v ∈ vs, Writes (write v) opened (f v)) (first : Bool) :
    Writes (writeItems write first vs) opened ((vs.mapM f).map (separated first)) := by
  induction vs generalizing first with
  | nil => exact Writes.nothing
  | cons v rest ih =>
    have hcomma : Writes (Writer.comma first) opened (.ok (if first then "" else ",")) := by
      cases first with
      | true => exact Writes.nothing
      | false => exact Writes.put ","
    have hrest := ih (fun w hw => hwrite w (.tail _ hw)) false
    have hall := hcomma.andThen ((hwrite v (.head _)).andThen hrest)
    have htexts : ((v :: rest).mapM f).map (separated first) =
        (Except.ok (if first then "" else ",")).bind fun s =>
          ((f v).bind fun s' => ((rest.mapM f).map (separated false)).map fun s'' => s' ++ s'').map fun s' => s ++ s' := by
      rw [List.mapM_cons]
      cases f v with
      | error e => rfl
      | ok text =>
        cases rest.mapM f with
        | error e => rfl
        | ok texts => exact congrArg Except.ok (String.append_assoc ..)
    rw [htexts, writeItems]
    exact hall

/-- A value is written as its text if its list is. -/
theorem writes_writeWith {opened : List ListId} {nested : ListId → Writer Unit} {nested' : ListId → Except Fault String}
    {v : Value} (hnested : ∀ l, v = .list l → Writes (nested l) opened (nested' l)) :
    Writes (writeWith nested v) opened (renderWith nested' v) := by
  cases v with
  | list l => exact hnested l rfl
  | _ =>
    rw [renderWith_of_not_list _ (by simp [Value.type])]
    exact Writes.putText _

/-- With more fuel than there are lists to open, a list is written to its end, with the lists open afterwards that were open
before. -/
theorem writes_writeList (h : Heap) (fuel : Nat) {opened : List ListId} (l : ListId) (hf : (h.closedLists opened).card < fuel) :
    Writes (h.writeList fuel l) opened (h.renderList fuel opened l) := by
  induction fuel generalizing opened l with
  | zero => exact absurd hf (Nat.not_lt_zero _)
  | succ fuel ih =>
    rw [writeList]
    refine Writes.ifOpen (fun ho => ?_) fun ho => ?_
    · rw [renderList, if_pos (List.contains_iff_mem.mpr ho)]
      exact Writes.put "[...]"
    · have hwrite : ∀ v ∈ h.values l,
          Writes (writeWith (h.writeList fuel) v) (l :: opened) (renderWith (h.renderList fuel (l :: opened)) v) :=
        fun v hv => writes_writeWith fun k _ => ih k (card_closedLists_lt hf ho hv)
      have hitems := writes_writeItems (h.values l) hwrite true
      have hbrackets := (Writes.put "[").andThen (hitems.andThen (Writes.put "]"))
      rw [renderList_succ h fuel ho]
      cases htexts : (h.values l).mapM (renderWith (h.renderList fuel (l :: opened))) with
      | error f =>
        rw [htexts] at hbrackets
        exact Writes.opening hbrackets
      | ok texts =>
        rw [htexts] at hbrackets
        have htext : bracketed texts = "[" ++ (separated true texts ++ "]") := by
          rw [bracketed, separated_true, String.append_assoc]
        simp only [Except.map, htext]
        exact Writes.opening hbrackets

/-- More fuel than there are lists to open gives the same text. -/
theorem renderList_stable (h : Heap) {fuel fuel' : Nat} {opened : List ListId} (l : ListId)
    (hf : (h.closedLists opened).card < fuel) (hf' : (h.closedLists opened).card < fuel') :
    h.renderList fuel opened l = h.renderList fuel' opened l := by
  induction fuel generalizing fuel' opened l with
  | zero => exact absurd hf (Nat.not_lt_zero _)
  | succ fuel ih =>
    obtain ⟨fuel', rfl⟩ : ∃ k, fuel' = k + 1 := ⟨fuel' - 1, by omega⟩
    by_cases ho : l ∈ opened
    · rw [renderList, renderList, if_pos (List.contains_iff_mem.mpr ho), if_pos (List.contains_iff_mem.mpr ho)]
    · have helements : ∀ v ∈ h.values l,
          renderWith (h.renderList fuel (l :: opened)) v = renderWith (h.renderList fuel' (l :: opened)) v :=
        fun v hv => renderWith_congr fun k _ => ih k (card_closedLists_lt hf ho hv) (card_closedLists_lt hf' ho hv)
      rw [renderList_succ h fuel ho, renderList_succ h fuel' ho, mapM_congr_of_mem helements]

/-- Writing a value comes to an end, whatever is open already, and more fuel changes nothing. -/
theorem writes_write (h : Heap) (v : Value) (opened : List ListId) :
    ∀ fuel, h.lists.size < fuel →
      Writes (h.write fuel v) opened (renderWith (h.renderList (h.lists.size + 1) opened) v) := by
  intro fuel hf
  have hclosed := h.card_closedLists_le opened
  refine writes_writeWith fun l _ => ?_
  rw [h.renderList_stable l (Nat.lt_succ_of_le hclosed) (Nat.lt_of_le_of_lt hclosed hf)]
  exact h.writes_writeList fuel l (Nat.lt_of_le_of_lt hclosed hf)

end Heap

/-! ## Unfolding a value -/

/-- A value with the elements of its lists in place, wherever they are shared. -/
inductive Unfolded where
  | flat (v : Value)
  | list (elements : List Unfolded)

namespace Unfolded

mutual

/-- The text of an unfolded value: nothing is cut off. -/
def text : Unfolded → Except Fault String
  | flat v => v.flatText
  | list elements => (texts elements).map bracketed

/-- The texts of unfolded values. -/
def texts : List Unfolded → Except Fault (List String)
  | [] => .ok []
  | t :: rest => do return (← text t) :: (← texts rest)

end

end Unfolded

namespace Heap

variable {h : Heap}

/-- A value unfolds to a tree, which has the elements of its lists in their order. -/
inductive Unfolds (h : Heap) : Value → Unfolded → Prop where
  | flat {v : Value} (hv : v.type ≠ .list) : Unfolds h v (.flat v)
  | list {l : ListId} {elements : List Unfolded} (size : elements.length = (h.values l).length)
      (all : ∀ (i : Nat) (v : Value) (t : Unfolded), (h.values l)[i]? = some v → elements[i]? = some t → Unfolds h v t) :
      Unfolds h (.list l) (.list elements)

/-- A value unfolds in one way at most. -/
theorem Unfolds.unique {v : Value} {t t' : Unfolded} (ht : h.Unfolds v t) (ht' : h.Unfolds v t') : t = t' := by
  induction ht generalizing t' with
  | flat hv =>
    cases ht' with
    | flat => rfl
    | list => exact absurd rfl hv
  | @list l elements size _ ih =>
    cases ht' with
    | flat hv => exact absurd rfl hv
    | @list _ elements' size' all' =>
      congr 1
      apply List.ext_getElem (size.trans size'.symm)
      intro i hi hi'
      have hvalue : i < (h.values l).length := by omega
      exact ih i _ _ (List.getElem?_eq_getElem hvalue) (List.getElem?_eq_getElem hi)
        (all' i _ _ (List.getElem?_eq_getElem hvalue) (List.getElem?_eq_getElem hi'))

/-- The elements of a list unfold together if each one does, and have the texts that each one has. -/
theorem exists_unfolded {f : Value → Except Fault String} (vs : List Value) (hvs : ∀ v ∈ vs, ∃ t, h.Unfolds v t ∧ f v = t.text) :
    ∃ elements : List Unfolded, elements.length = vs.length ∧
      (∀ (i : Nat) (v : Value) (t : Unfolded), vs[i]? = some v → elements[i]? = some t → h.Unfolds v t) ∧
      vs.mapM f = Unfolded.texts elements := by
  induction vs with
  | nil => exact ⟨[], rfl, by simp, rfl⟩
  | cons v rest ih =>
    obtain ⟨t, ht, htext⟩ := hvs v (.head _)
    obtain ⟨elements, hsize, hall, htexts⟩ := ih fun w hw => hvs w (.tail _ hw)
    refine ⟨t :: elements, by simp [hsize], fun i w u hw hu => ?_, by rw [List.mapM_cons, htext, htexts, Unfolded.texts]⟩
    cases i with
    | zero =>
      cases hw
      cases hu
      exact ht
    | succ i => exact hall i w u hw hu

/-- No list that the value holds contains itself. -/
def AcyclicFrom (h : Heap) (v : Value) : Prop :=
  ∀ l, h.Holds v (.list l) → ¬Relation.TransGen h.Element (.list l) (.list l)

/-- A list that holds none that contains itself unfolds, and has the text of what it unfolds to: the lists that are open are all
around it, so it is not one of them. -/
theorem renderList_unfolds (fuel : Nat) {opened : List ListId} {l : ListId} (hacyclic : h.AcyclicFrom (.list l))
    (ho : ∀ k ∈ opened, Relation.TransGen h.Element (.list k) (.list l)) (hf : (h.closedLists opened).card < fuel) :
    ∃ t, h.Unfolds (.list l) t ∧ h.renderList fuel opened l = t.text := by
  induction fuel generalizing opened l with
  | zero => exact absurd hf (Nat.not_lt_zero _)
  | succ fuel ih =>
    have hl : l ∉ opened := fun hmem => hacyclic l .refl (ho l hmem)
    have helements : ∀ v ∈ h.values l, ∃ t, h.Unfolds v t ∧ renderWith (h.renderList fuel (l :: opened)) v = t.text := by
      intro v hv
      rcases v.eq_list_or_type_ne with ⟨k, rfl⟩ | hlist
      · refine ih (fun j hj => hacyclic j (.head (.of_mem hv) hj)) (fun j hj => ?_) (card_closedLists_lt hf hl hv)
        rcases List.mem_cons.mp hj with rfl | hj
        · exact .single (.of_mem hv)
        · exact (ho j hj).tail (.of_mem hv)
      · exact ⟨.flat v, .flat hlist, renderWith_of_not_list _ hlist⟩
    obtain ⟨elements, hsize, hall, htexts⟩ := exists_unfolded _ helements
    refine ⟨.list elements, .list hsize hall, ?_⟩
    rw [renderList_succ h fuel hl, htexts, Unfolded.text]

/-- A value that holds no list which contains itself unfolds to a tree, and has the text of the tree. -/
theorem AcyclicFrom.render_unfolds {v : Value} (hacyclic : h.AcyclicFrom v) : ∃ t, h.Unfolds v t ∧ h.render v = t.text := by
  rcases v.eq_list_or_type_ne with ⟨l, rfl⟩ | hlist
  · exact renderList_unfolds _ hacyclic (by simp) (Nat.lt_succ_of_le (h.card_closedLists_le []))
  · exact ⟨.flat v, .flat hlist, renderWith_of_not_list _ hlist⟩

end Heap

/-- Showing a value comes to an end on every heap, also one whose lists contain themselves. Whatever is written and open already,
writing the value either fails or adds a text and leaves open the lists that were, and from some fuel on always does the same; at
the start of a text it is the text of the value that is written. There is no text exactly if a range with a bound that is neither
an integer nor a truth value is found in the lists, or is the value itself. If no list that is found there contains itself, the
value unfolds in exactly one way, and its text is the plain text of that. -/
theorem render_ends_and_fails_exactly (h : Heap) (v : Value) :
    (∀ d : Draft, ∃ added : Except Fault String, ∀ fuel, h.lists.size < fuel →
      h.write fuel v d = some (added.map fun s => ((), ⟨d.text ++ s, d.opened⟩))) ∧
    (∀ fuel, h.lists.size < fuel → h.write fuel v ⟨"", []⟩ = some ((h.render v).map fun s => ((), ⟨s, []⟩))) ∧
    ((∃ f, h.render v = .error f) ↔ ∃ w, h.Holds v w ∧ w.BadRange) ∧
    (h.AcyclicFrom v → (∃! t, h.Unfolds v t) ∧ ∀ t, h.Unfolds v t → h.render v = t.text) := by
  refine ⟨fun d => ⟨_, fun fuel hf => h.writes_write v d.opened fuel hf d.text⟩, fun fuel hf => ?_, h.render_error_iff v,
    fun hacyclic => ?_⟩
  · rw [h.writes_write v [] fuel hf "", Heap.render]
    simp only [String.empty_append]
  · obtain ⟨t, ht, htext⟩ := hacyclic.render_unfolds
    refine ⟨⟨t, ht, fun t' ht' => ht'.unique ht⟩, fun t' ht' => ?_⟩
    rw [ht'.unique ht, htext]

-- A list that holds only itself.
example : (⟨#[.list 0], #[#[0]]⟩ : Heap).render (.list 0) = .ok "[[...]]" := by cbv

/-- A list that holds another one twice, and the text with both. -/
theorem sharedTwice_rendered :
    let h : Heap := ⟨#[.int 7, .list 0, .list 0], #[#[0], #[1, 2]]⟩
    h.AcyclicFrom (.list 1) ∧ (∃! t, h.Unfolds (.list 1) t) ∧
      h.write 3 (.list 1) ⟨"", []⟩ = some (.ok ((), ⟨"[[7],[7]]", []⟩)) := by
  intro h
  have hranked : h.Ranked := by
    rintro (_ | _ | l) s hs
    · have hs : s = 0 := by simpa [h, Heap.items] using hs
      subst hs
      trivial
    · have hs : s = 1 ∨ s = 2 := by simpa [h, Heap.items] using hs
      rcases hs with rfl | rfl <;> exact Nat.one_pos
    · exact absurd (Heap.lt_size_of_mem_items hs) (by simp [h])
  have hpart : ∀ v w, h.Element v w → h.Part v w := by
    rintro _ w ⟨hw⟩
    exact Heap.part_of_mem_values hw
  have hacyclic : h.AcyclicFrom (.list 1) := fun l _ hl => hranked.acyclic l (Relation.TransGen.mono hpart _ _ hl)
  have htext : h.render (.list 1) = .ok "[[7],[7]]" := by cbv
  obtain ⟨-, hwritten, -, hplain⟩ := render_ends_and_fails_exactly h (.list 1)
  refine ⟨hacyclic, (hplain hacyclic).1, ?_⟩
  rw [hwritten 3 (by decide), htext]
  rfl

end NodeScript
