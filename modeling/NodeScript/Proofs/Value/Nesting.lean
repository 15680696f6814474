import Mathlib.Data.List.Perm.Subperm
import Mathlib.Logic.Relation
import NodeScript.Proofs.Value.Equality
import NodeScript.Proofs.Value.ResultType

/-!
# What lies inside a value

The parts of a list are the values of its slots, and those of a range are its bounds. A heap is acyclic when no list is reached
from itself through parts; one in which every list was made after the lists inside it is (`Heap.Ranked.acyclic`). Showing a list
and comparing two lists both stop at lists that they are inside of already; in an acyclic heap that never happens, so it does not
matter what they do there (`Heap.Acyclic.renderCut_eq`, `Heap.Acyclic.equalCut_eq`).
-/

namespace NodeScript

namespace Heap

variable {h : Heap}

/-! ## Parts -/

/-- A value is directly inside another. -/
inductive Part (h : Heap) : Value → Value → Prop where
  | element {l : ListId} {s : SlotId} (hs : s ∈ h.items l) : Part h (.list l) (h.get s)
  | start {a b : Value} : Part h (.range a b) a
  | stop {a b : Value} : Part h (.range a b) b

/-- A value is inside another, or is the other. -/
abbrev Inside (h : Heap) : Value → Value → Prop :=
  Relation.ReflTransGen h.Part

/-- No list is inside itself. -/
def Acyclic (h : Heap) : Prop :=
  ∀ l, ¬Relation.TransGen h.Part (.list l) (.list l)

theorem part_of_mem_values {l : ListId} {v : Value} (hv : v ∈ h.values l) : h.Part (.list l) v := by
  obtain ⟨s, hs, rfl⟩ := List.mem_map.mp hv
  exact .element (Array.mem_toList_iff.mp hs)

/-! ## Ranks -/

end Heap

/-- The lists that a value is or is made of by ranges were all made before the list `l`. -/
def Value.Below (l : ListId) : Value → Prop
  | .list k => k < l
  | .range a b => a.Below l ∧ b.Below l
  | _ => True

namespace Value

variable {v : Value} {l k : ListId}

/-- What was made before a list was made before every later one. -/
theorem Below.mono (hv : v.Below k) (hk : k ≤ l) : v.Below l := by
  induction v with
  | list j => exact Nat.lt_of_lt_of_le hv hk
  | range a b iha ihb => exact ⟨iha hv.1, ihb hv.2⟩
  | _ => trivial

/-- A scalar has no lists in it. -/
theorem Below.of_isScalar (hv : v.IsScalar) : v.Below l := by
  cases v with
  | list | range | func => simp [IsScalar, type] at hv
  | _ => trivial

end Value

namespace Heap

variable {h : Heap}

/-- Every list was made after the lists that are inside its elements. -/
def Ranked (h : Heap) : Prop :=
  ∀ l, ∀ s ∈ h.items l, (h.get s).Below l

/-- A part of a value was made no later than the value, in a heap with ranks. -/
theorem Ranked.below_of_part (hranked : h.Ranked) {v w : Value} {l : ListId} (hp : h.Part v w) (hv : v.Below l) :
    w.Below l := by
  cases hp with
  | element hs => exact (hranked _ _ hs).mono (Nat.le_of_lt hv)
  | start => exact hv.1
  | stop => exact hv.2

/-- Whatever is inside a list was made before it. -/
theorem Ranked.below_of_inside (hranked : h.Ranked) {l : ListId} {w : Value}
    (hp : Relation.TransGen h.Part (.list l) w) : w.Below l := by
  induction hp with
  | single hp =>
    cases hp with
    | element hs => exact hranked l _ hs
  | tail _ hp ih => exact hranked.below_of_part hp ih

/-- A list is not inside itself where what is inside it was made before it. -/
theorem Ranked.acyclic (hranked : h.Ranked) : h.Acyclic :=
  fun l hl => Nat.lt_irrefl l (hranked.below_of_inside hl)

/-! ## The lists around a list -/

/-- Lists that are nested: each list that is open has the list `l` inside. -/
def Around (h : Heap) (opened : List ListId) (l : ListId) : Prop :=
  ∀ k ∈ opened, Relation.TransGen h.Part (.list k) (.list l)

/-- The lists around a list are around every list inside it, and so is the list itself. -/
theorem Around.cons {opened : List ListId} {l k : ListId} {v : Value} (ho : h.Around opened l) (hv : v ∈ h.values l)
    (hk : h.Inside v (.list k)) : h.Around (l :: opened) k := by
  have hlk : Relation.TransGen h.Part (.list l) (.list k) := .head' (part_of_mem_values hv) hk
  intro j hj
  rcases List.mem_cons.mp hj with rfl | hj
  · exact hlk
  · exact (ho j hj).trans hlk

/-- A list of an acyclic heap is not one of the lists around it. -/
theorem Acyclic.not_mem_of_around (hacyclic : h.Acyclic) {opened : List ListId} {l : ListId} (ho : h.Around opened l) :
    l ∉ opened :=
  fun hl => hacyclic l (ho l hl)

/-! ## Showing a list -/

/-- The text of a list, where `cut` stands for a list that is open already, and for one that the fuel does not reach. -/
def renderListCut (h : Heap) (cut : Except Fault String) : Nat → List ListId → ListId → Except Fault String
  | 0, _, _ => cut
  | fuel + 1, opened, l =>
    if opened.contains l then cut
    else do
      let texts ← (h.values l).mapM (renderWith (renderListCut h cut fuel (l :: opened)))
      return bracketed texts

/-- The text of a value, where `cut` stands for a list that is open already. -/
def renderCut (h : Heap) (cut : Except Fault String) (v : Value) : Except Fault String :=
  renderWith (h.renderListCut cut (h.lists.size + 1) []) v

/-- With dots for a list that is met again, a list is shown as usual. -/
theorem renderListCut_dots (h : Heap) (fuel : Nat) : h.renderListCut (.ok "[...]") fuel = h.renderList fuel := by
  induction fuel with
  | zero => rfl
  | succ fuel ih =>
    funext opened l
    rw [renderListCut, renderList, ih]

/-- A list that is met again is shown as dots. -/
theorem renderCut_dots (h : Heap) (v : Value) : h.renderCut (.ok "[...]") v = h.render v := by
  rw [renderCut, renderListCut_dots, render]

/-- Two ways to show lists agree on a value if they agree on the list that it is. -/
theorem renderWith_congr {nested nested' : ListId → Except Fault String} {v : Value}
    (hv : ∀ l, v = .list l → nested l = nested' l) : renderWith nested v = renderWith nested' v := by
  cases v with
  | list l => exact hv l rfl
  | _ => rfl

/-- Values that are shown alike one by one are shown alike in a row. -/
theorem mapM_congr_of_mem {f g : Value → Except Fault String} {vs : List Value} (hv : ∀ v ∈ vs, f v = g v) :
    vs.mapM f = vs.mapM g := by
  induction vs with
  | nil => rfl
  | cons v rest ih => rw [List.mapM_cons, List.mapM_cons, hv v (.head _), ih fun w hw => hv w (.tail _ hw)]

/-- There are never more open lists than lists, as they are all different. -/
theorem length_le_of_nodup {opened : List ListId} {n : Nat} (hnodup : opened.Nodup) (hlt : ∀ k ∈ opened, k < n) :
    opened.length ≤ n := by
  have hsub : opened ⊆ List.range n := fun k hk => List.mem_range.mpr (hlt k hk)
  simpa using (hnodup.subperm hsub).length_le

/-- In an acyclic heap nothing is cut: no list is met again, and the fuel is enough for as many lists as there are. -/
theorem Acyclic.renderListCut_eq (hacyclic : h.Acyclic) (cut cut' : Except Fault String) (fuel : Nat) {opened : List ListId}
    {l : ListId} (ho : h.Around opened l) (hnodup : opened.Nodup) (hlt : ∀ k ∈ opened, k < h.lists.size)
    (hfuel : h.lists.size < fuel + opened.length) :
    h.renderListCut cut fuel opened l = h.renderListCut cut' fuel opened l := by
  induction fuel generalizing opened l with
  | zero =>
    have := length_le_of_nodup hnodup hlt
    omega
  | succ fuel ih =>
    have hl : l ∉ opened := hacyclic.not_mem_of_around ho
    have hcontains : ¬opened.contains l = true := mt List.contains_iff_mem.mp hl
    rw [renderListCut, renderListCut, if_neg hcontains, if_neg hcontains]
    have helements : ∀ v ∈ h.values l, renderWith (h.renderListCut cut fuel (l :: opened)) v =
        renderWith (h.renderListCut cut' fuel (l :: opened)) v := by
      intro v hv
      refine renderWith_congr fun k hk => ih (ho.cons hv (by rw [hk])) ?_ ?_ ?_
      · exact List.nodup_cons.mpr ⟨hl, hnodup⟩
      · intro j hj
        rcases List.mem_cons.mp hj with rfl | hj
        · exact lt_size_of_mem_values hv
        · exact hlt j hj
      · rw [List.length_cons]
        omega
    rw [mapM_congr_of_mem helements]

/-- No list is met again while a value of an acyclic heap is shown. -/
theorem Acyclic.renderCut_eq (hacyclic : h.Acyclic) (cut : Except Fault String) (v : Value) : h.renderCut cut v = h.render v := by
  rw [← renderCut_dots]
  refine renderWith_congr fun l _ => hacyclic.renderListCut_eq _ _ _ ?_ .nil ?_ (by simp)
  · exact fun k hk => nomatch hk
  · exact fun k hk => nomatch hk

/-! ## Comparing lists -/

/-- Equality of lists, where `cut` compares two lists that are being compared already. -/
def equalListsCut (h : Heap) (cut : Value.Comparison) : Nat → ListId → ListId → Value.Comparison
  | 0, _, _ => failure
  | fuel + 1, a, b => do
    if a == b then return true
    else if ← Value.Comparison.isOpen (a, b) then cut
    else if (h.items a).size != (h.items b).size then return false
    else
      Value.Comparison.opening (a, b)
        (allEqual (Value.equalWith (equalListsCut h cut fuel)) (h.values a) (h.values b))

/-- Equality of values, where `cut` compares two lists that are being compared already. -/
def equalCut (h : Heap) (cut : Value.Comparison) (v w : Value) : Bool :=
  match Value.equalWith (h.equalListsCut cut h.pairFuel) v w [] with
  | some (same, _) => same
  | none => false

/-- With `false` for two lists that are met again, lists are compared as usual. -/
theorem equalListsCut_false (h : Heap) (fuel : Nat) : h.equalListsCut (return false) fuel = h.equalLists fuel := by
  induction fuel with
  | zero => rfl
  | succ fuel ih =>
    funext a b
    rw [equalListsCut, equalLists, ih]

/-- Lists that are being compared already are not equal by that. -/
theorem equalCut_false (h : Heap) (v w : Value) : h.equalCut (return false) v w = h.equal v w := by
  rw [equalCut, equalListsCut_false]
  rfl

/-- A comparison leaves the pairs that are being compared as they were. -/
theorem restores_equalListsCut (h : Heap) (fuel : Nat) (a b : ListId) :
    Restores (h.equalListsCut (return false) fuel a b) := by
  rw [equalListsCut_false]
  exact restores_equalLists h fuel a b

/-- What the comparison of two lists does that are not being compared already. -/
theorem equalListsCut_succ (h : Heap) (cut : Value.Comparison) (fuel : Nat) {a b : ListId} {o : Value.OpenPairs}
    (ho : (a, b) ∉ o) : h.equalListsCut cut (fuel + 1) a b o =
      if a = b then some (true, o)
      else if (h.items a).size ≠ (h.items b).size then some (false, o)
      else (allEqual (Value.equalWith (h.equalListsCut cut fuel)) (h.values a) (h.values b) ((a, b) :: o)).map
        fun (same, o') => (same, o'.tail) := by
  by_cases hab : a = b
  · rw [if_pos hab, equalListsCut, if_pos (beq_iff_eq.mpr hab)]
    rfl
  rw [if_neg hab, equalListsCut, if_neg (mt beq_iff_eq.mp hab)]
  simp only [bind, StateT.bind, Value.Comparison.isOpen_apply, Option.bind_some]
  rw [if_neg (mt List.contains_iff_mem.mp ho)]
  by_cases hs : (h.items a).size = (h.items b).size
  · rw [if_neg (by simpa using hs), if_neg (by simpa using hs), Value.Comparison.opening_apply]
  · rw [if_pos (by simpa using hs), if_pos hs]
    rfl

/-- Two ways to compare values agree if they agree on the lists inside the first one. -/
theorem equalWith_congr {lists lists' : ListId → ListId → Value.Comparison} (hrestores : ∀ a b, Restores (lists a b))
    {v w : Value} {o : Value.OpenPairs} (hlists : ∀ a, h.Inside v (.list a) → ∀ b, lists' a b o = lists a b o) :
    Value.equalWith lists' v w o = Value.equalWith lists v w o := by
  induction v, w using Value.pairInduction with
  | lists a b => exact hlists a .refl b
  | ranges a b c d ihs ihe =>
    have hstart := ihs fun k hk => hlists k (.head .start hk)
    have hstop := ihe fun k hk => hlists k (.head .stop hk)
    rw [Value.equalWith_range, Value.equalWith_range, hstart]
    cases hx : Value.equalWith lists a c o with
    | none => rfl
    | some x =>
      obtain ⟨same, o'⟩ := x
      -- the ends are compared with the same pairs open as the starts
      cases Restores.equalWith hrestores a c o o' same hx
      simp only [Option.bind_some, hstop]
  | others v w hl hr => rw [Value.equalWith_scalar _ hl hr, Value.equalWith_scalar _ hl hr]

/-- Two ways to compare agree on rows of values if they agree on the values of the first one. -/
theorem allEqual_congr {same same' : Value → Value → Value.Comparison} (hrestores : ∀ v w, Restores (same v w))
    {vs ws : List Value} {o : Value.OpenPairs} (hsame : ∀ v ∈ vs, ∀ w, same' v w o = same v w o) :
    allEqual same' vs ws o = allEqual same vs ws o := by
  induction vs generalizing ws with
  | nil => rfl
  | cons v vs ih =>
    cases ws with
    | nil => rfl
    | cons w ws =>
      have hrest : allEqual same' vs ws o = allEqual same vs ws o := ih fun v' hv' => hsame v' (.tail _ hv')
      rw [allEqual_cons, allEqual_cons, hsame v (.head _)]
      cases hx : same v w o with
      | none => rfl
      | some x =>
        obtain ⟨eq, o'⟩ := x
        cases hrestores v w o o' eq hx
        simp only [Option.bind_some, hrest]

/-- In an acyclic heap nothing is cut: two lists that are being compared are not met again inside. -/
theorem Acyclic.equalListsCut_eq (hacyclic : h.Acyclic) (cut : Value.Comparison) (fuel : Nat) {a b : ListId}
    {o : Value.OpenPairs} (ho : h.Around (o.map Prod.fst) a) :
    h.equalListsCut cut fuel a b o = h.equalListsCut (return false) fuel a b o := by
  induction fuel generalizing a b o with
  | zero => rfl
  | succ fuel ih =>
    have hab : (a, b) ∉ o := fun hab => hacyclic.not_mem_of_around ho (List.mem_map_of_mem hab)
    have hrestores := h.restores_equalListsCut fuel
    have helements : allEqual (Value.equalWith (h.equalListsCut cut fuel)) (h.values a) (h.values b) ((a, b) :: o) =
        allEqual (Value.equalWith (h.equalListsCut (return false) fuel)) (h.values a) (h.values b) ((a, b) :: o) := by
      refine allEqual_congr (Restores.equalWith hrestores) fun v hv w => ?_
      exact equalWith_congr hrestores fun k hk c => ih (ho.cons hv hk)
    rw [equalListsCut_succ h cut fuel hab, equalListsCut_succ h _ fuel hab, helements]

/-- No two lists are met again while two values of an acyclic heap are compared. -/
theorem Acyclic.equalCut_eq (hacyclic : h.Acyclic) (cut : Value.Comparison) (v w : Value) : h.equalCut cut v w = h.equal v w := by
  have hrestores := h.restores_equalListsCut h.pairFuel
  have hlists : Value.equalWith (h.equalListsCut cut h.pairFuel) v w [] =
      Value.equalWith (h.equalListsCut (return false) h.pairFuel) v w [] :=
    equalWith_congr (h := h) hrestores fun a _ b => hacyclic.equalListsCut_eq cut _ fun k hk => nomatch hk
  rw [← equalCut_false, equalCut, equalCut, hlists]

end Heap

end NodeScript
