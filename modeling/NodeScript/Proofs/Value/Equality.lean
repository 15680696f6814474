import Mathlib.Data.Finset.Prod
import Mathlib.Data.Nat.Find
import NodeScript.Value.Equal

/-!
# What equality of values means

`Derives h n v w` says that `v` and `w` are equal by the rules of equality, with lists opened at most `n` deep inside one
another; a derivation is thus finite. The comparison finds a derivation exactly when there is one (`equal_iff_derivation`):
it always comes to an answer, since there are only so many pairs of lists to open, and answering `false` for a pair that is
open already is no loss, since a derivation of least depth never needs the pair it derives.
-/

namespace NodeScript

/-- The rules of equality. Two lists are equal when they have the same storage, or as many elements and equal ones in each
place; ranges when their starts and their ends are; functions when they come from the same node; numbers and truth values, unless
both are integers, when they stand for equal binary64 numbers. -/
inductive Derives (h : Heap) : Nat → Value → Value → Prop where
  | storage {n : Nat} (l : ListId) : Derives h n (.list l) (.list l)
  | elements {n : Nat} {a b : ListId} (size : (h.items a).size = (h.items b).size)
      (same : ∀ (i : Nat) (v w : Value), (h.values a)[i]? = some v → (h.values b)[i]? = some w → Derives h n v w) :
      Derives h (n + 1) (.list a) (.list b)
  | range {n : Nat} {a b c d : Value} (start : Derives h n a c) (stop : Derives h n b d) :
      Derives h n (.range a b) (.range c d)
  | func {n : Nat} {f g : Func} (node : f.id = g.id) : Derives h n (.func f) (.func g)
  | void {n : Nat} : Derives h n .void .void
  | int {n : Nat} (i : Int64) : Derives h n (.int i) (.int i)
  | string {n : Nat} (s : String) : Derives h n (.string s) (.string s)
  | number {n : Nat} {v w : Value} {x y : Float} (left : v.numeric? = some x) (right : w.numeric? = some y)
      (mixed : v.type ≠ .int ∨ w.type ≠ .int) (same : (x == y) = true) : Derives h n v w

namespace Derives

/-- A derivation stays one when lists may be opened deeper. -/
theorem mono {h : Heap} {n : Nat} {v w : Value} (hd : Derives h n v w) : ∀ {m : Nat}, n ≤ m → Derives h m v w := by
  induction hd with
  | storage l => intro m _; exact .storage l
  | elements size _ ih =>
    intro m hm
    obtain ⟨k, rfl⟩ : ∃ k, m = k + 1 := ⟨m - 1, by omega⟩
    exact .elements size fun i v w hv hw => ih i v w hv hw (by omega)
  | range _ _ ihs ihe => intro m hm; exact .range (ihs hm) (ihe hm)
  | func node => intro m _; exact .func node
  | void => intro m _; exact .void
  | int i => intro m _; exact .int i
  | string s => intro m _; exact .string s
  | number left right mixed same => intro m _; exact .number left right mixed same

/-- The comparison of scalars says exactly what the rules say of them, lists and ranges apart. -/
theorem of_scalarEqual {h : Heap} {n : Nat} {v w : Value} (hs : Value.scalarEqual v w = true) : Derives h n v w := by
  cases v <;> cases w <;> simp only [Value.scalarEqual, Value.numeric?, beq_iff_eq, reduceCtorEq] at hs
  case int.int a b => subst hs; exact .int a
  case string.string a b => subst hs; exact .string a
  case func.func f g => exact .func hs
  case void.void => exact .void
  all_goals exact .number rfl rfl (by simp [Value.type]) hs

/-- A derivation for values that are neither both lists nor both ranges is the comparison of scalars. -/
theorem scalarEqual {h : Heap} {n : Nat} {v w : Value} (hd : Derives h n v w) (hl : ¬(v.type = .list ∧ w.type = .list))
    (hr : ¬(v.type = .range ∧ w.type = .range)) : Value.scalarEqual v w = true := by
  cases hd with
  | storage l => exact absurd ⟨rfl, rfl⟩ hl
  | elements _ _ => exact absurd ⟨rfl, rfl⟩ hl
  | range _ _ => exact absurd ⟨rfl, rfl⟩ hr
  | func node => simpa [Value.scalarEqual] using node
  | void => rfl
  | int i => simp [Value.scalarEqual]
  | string s => simp [Value.scalarEqual]
  | number left right mixed same =>
    cases v <;> cases w <;> simp_all [Value.scalarEqual, Value.numeric?, Value.type]

/-- A derivation for two ranges has one for their starts and one for their ends. -/
theorem bounds {h : Heap} {n : Nat} {a b c d : Value} (hd : Derives h n (.range a b) (.range c d)) :
    Derives h n a c ∧ Derives h n b d := by
  cases hd with
  | range start stop => exact ⟨start, stop⟩
  | number left _ _ _ => simp [Value.numeric?] at left

/-- The derivation of least depth for two lists with different storage: their elements are derived at a depth where the lists
themselves are not, so the pair is not needed below itself. -/
theorem least {h : Heap} {n : Nat} {a b : ListId} (hd : Derives h n (.list a) (.list b)) (hab : a ≠ b) :
    ∃ k < n, ¬Derives h k (.list a) (.list b) ∧ (h.items a).size = (h.items b).size ∧
      ∀ (i : Nat) (v w : Value), (h.values a)[i]? = some v → (h.values b)[i]? = some w → Derives h k v w := by
  classical
  have hex : ∃ m, Derives h m (.list a) (.list b) := ⟨n, hd⟩
  have hle : Nat.find hex ≤ n := Nat.find_min' hex hd
  have hmin : ∀ k < Nat.find hex, ¬Derives h k (.list a) (.list b) := fun k hk => Nat.find_min hex hk
  have hfound := Nat.find_spec hex
  generalize Nat.find hex = m at hle hmin hfound
  cases hfound with
  | storage => exact absurd rfl hab
  | @elements k _ _ size same => exact ⟨k, by omega, hmin k (by omega), size, same⟩
  | number left _ _ _ => simp [Value.numeric?] at left

end Derives

/-! ## One step of a comparison -/

namespace Value

/-- What holds of two lists, of two ranges whose bounds it holds of, and of two values that are neither, holds of any two
values. -/
theorem pairInduction {motive : Value → Value → Prop} (lists : ∀ a b, motive (.list a) (.list b))
    (ranges : ∀ a b c d, motive a c → motive b d → motive (.range a b) (.range c d))
    (others : ∀ v w : Value, ¬(v.type = .list ∧ w.type = .list) → ¬(v.type = .range ∧ w.type = .range) → motive v w)
    (v w : Value) : motive v w := by
  induction v generalizing w with
  | list a =>
    cases w with
    | list b => exact lists a b
    | _ => exact others _ _ (by simp [type]) (by simp [type])
  | range a b ihs ihe =>
    cases w with
    | range c d => exact ranges a b c d (ihs c) (ihe d)
    | _ => exact others _ _ (by simp [type]) (by simp [type])
  | _ => exact others _ _ (by simp [type]) (by simp [type])

/-- Two ranges: the starts, and then the ends if the starts are equal. -/
theorem equalWith_range (lists : ListId → ListId → Comparison) (a b c d : Value) (o : OpenPairs) :
    equalWith lists (.range a b) (.range c d) o =
      (equalWith lists a c o).bind fun (same, o') => if same then equalWith lists b d o' else some (false, o') := by
  rw [equalWith]
  simp only [bind, StateT.bind]
  congr 1
  funext ⟨same, o'⟩
  cases same <;> rfl

/-- Values that are neither both lists nor both ranges are compared as scalars, and the open pairs stay as they are. -/
theorem equalWith_scalar (lists : ListId → ListId → Comparison) {v w : Value}
    (hl : ¬(v.type = .list ∧ w.type = .list)) (hr : ¬(v.type = .range ∧ w.type = .range)) (o : OpenPairs) :
    equalWith lists v w o = some (scalarEqual v w, o) := by
  unfold equalWith
  split
  · simp [type] at hl
  · simp [type] at hr
  · rfl

/-- Looking whether a pair is open changes nothing. -/
theorem Comparison.isOpen_apply (pair : ListId × ListId) (o : OpenPairs) :
    isOpen pair o = some (o.contains pair, o) := rfl

/-- A pair is open in the comparison between its opening and its closing. -/
theorem Comparison.opening_apply (pair : ListId × ListId) (x : Comparison) (o : OpenPairs) :
    opening pair x o = (x (pair :: o)).map fun (same, o') => (same, o'.tail) := by
  have step : opening pair x o = (x (pair :: o)).bind fun (same, o') => some (same, o'.tail) := rfl
  rw [step, Option.map_eq_bind]
  rfl

end Value

namespace Heap

/-- Rows are compared from their heads on, up to the first difference. -/
theorem allEqual_cons (same : Value → Value → Value.Comparison) (v w : Value) (vs ws : List Value) (o : Value.OpenPairs) :
    allEqual same (v :: vs) (w :: ws) o =
      (same v w o).bind fun (eq, o') => if eq then allEqual same vs ws o' else some (false, o') := by
  rw [allEqual]
  simp only [bind, StateT.bind]
  congr 1
  funext ⟨eq, o'⟩
  cases eq <;> rfl

/-- What the comparison of two lists does, step by step. -/
theorem equalLists_succ (h : Heap) (fuel : Nat) (a b : ListId) (o : Value.OpenPairs) :
    equalLists h (fuel + 1) a b o =
      if a = b then some (true, o)
      else if (a, b) ∈ o then some (false, o)
      else if (h.items a).size ≠ (h.items b).size then some (false, o)
      else (allEqual (Value.equalWith (equalLists h fuel)) (h.values a) (h.values b) ((a, b) :: o)).map
        fun (same, o') => (same, o'.tail) := by
  by_cases hab : a = b
  · rw [if_pos hab, equalLists, if_pos (beq_iff_eq.mpr hab)]
    rfl
  rw [if_neg hab, equalLists, if_neg (mt beq_iff_eq.mp hab)]
  simp only [bind, StateT.bind, Value.Comparison.isOpen_apply, Option.bind_some]
  by_cases ho : (a, b) ∈ o
  · rw [if_pos ho, if_pos (List.contains_iff_mem.mpr ho)]
    rfl
  rw [if_neg ho, if_neg (mt List.contains_iff_mem.mp ho)]
  by_cases hs : (h.items a).size = (h.items b).size
  · rw [if_neg (by simpa using hs), if_neg (by simpa using hs), Value.Comparison.opening_apply]
  · rw [if_pos (by simpa using hs), if_pos hs]
    rfl

/-! ## The open pairs are the same afterwards -/

/-- A comparison leaves the open pairs as it found them whenever it has an answer. -/
def Restores (x : Value.Comparison) : Prop :=
  ∀ (o o' : Value.OpenPairs) (same : Bool), x o = some (same, o') → o' = o

/-- Comparing values leaves the open pairs as they were if comparing lists does. -/
theorem Restores.equalWith {lists : ListId → ListId → Value.Comparison} (hl : ∀ a b, Restores (lists a b)) (v w : Value) :
    Restores (Value.equalWith lists v w) := by
  induction v, w using Value.pairInduction with
  | lists a b => exact hl a b
  | ranges a b c d ihs ihe =>
    intro o o' same hx
    rw [Value.equalWith_range, Option.bind_eq_some_iff] at hx
    obtain ⟨⟨eq, o₁⟩, hac, hx⟩ := hx
    have ho₁ := ihs o o₁ eq hac
    cases eq with
    | true => rw [ihe o₁ o' same hx, ho₁]
    | false => simp_all
  | others v w hl hr =>
    intro o o' same hx
    rw [Value.equalWith_scalar _ hl hr] at hx
    simp_all

/-- Comparing rows leaves the open pairs as they were if comparing values does. -/
theorem Restores.allEqual {same : Value → Value → Value.Comparison} (hs : ∀ v w, Restores (same v w)) (vs ws : List Value) :
    Restores (allEqual same vs ws) := by
  induction vs generalizing ws with
  | nil =>
    intro o o' r hx
    cases ws <;> cases hx <;> rfl
  | cons v vs ih =>
    cases ws with
    | nil => intro o o' r hx; cases hx; rfl
    | cons w ws =>
      intro o o' r hx
      rw [allEqual_cons, Option.bind_eq_some_iff] at hx
      obtain ⟨⟨eq, o₁⟩, hvw, hx⟩ := hx
      have ho₁ := hs v w o o₁ eq hvw
      cases eq with
      | true => rw [ih ws o₁ o' r hx, ho₁]
      | false => simp_all

/-- The pair that is closed is the one that was opened: what is compared in between leaves the open pairs alone. -/
theorem restores_equalLists (h : Heap) (fuel : Nat) (a b : ListId) : Restores (h.equalLists fuel a b) := by
  induction fuel generalizing a b with
  | zero => intro o o' same hx; cases hx
  | succ fuel ih =>
    intro o o' same hx
    rw [equalLists_succ] at hx
    split at hx
    · simp_all
    split at hx
    · simp_all
    split at hx
    · simp_all
    obtain ⟨⟨eq, o₁⟩, hall, hx⟩ := Option.map_eq_some_iff.mp hx
    have ho₁ := Restores.allEqual (Restores.equalWith ih) _ _ _ _ _ hall
    simp_all

/-! ## Every answer is right -/

/-- Sequences that compare as equal have equal elements in each place. -/
theorem allEqual_sound {same : Value → Value → Value.Comparison} {P : Value → Value → Prop}
    (hs : ∀ v w o o', same v w o = some (true, o') → P v w) (vs ws : List Value) {o o' : Value.OpenPairs}
    (hx : allEqual same vs ws o = some (true, o')) :
    ∀ (i : Nat) (v w : Value), vs[i]? = some v → ws[i]? = some w → P v w := by
  induction vs generalizing ws o with
  | nil => simp
  | cons v vs ih =>
    cases ws with
    | nil => simp
    | cons w ws =>
      rw [allEqual_cons, Option.bind_eq_some_iff] at hx
      obtain ⟨⟨eq, o₁⟩, hvw, hx⟩ := hx
      cases eq with
      | false => simp at hx
      | true =>
        intro i
        cases i with
        | zero =>
          intro v' w' hv hw
          simp only [List.getElem?_cons_zero, Option.some.injEq] at hv hw
          subst hv hw
          exact hs v w o o₁ hvw
        | succ i => simpa using ih ws hx i

/-- Equal values, where equal lists are derived: a derivation for them. -/
theorem equalWith_sound {h : Heap} {n : Nat} {lists : ListId → ListId → Value.Comparison}
    (hl : ∀ a b o o', lists a b o = some (true, o') → Derives h n (.list a) (.list b)) (v w : Value) :
    ∀ o o', Value.equalWith lists v w o = some (true, o') → Derives h n v w := by
  induction v, w using Value.pairInduction with
  | lists a b => exact hl a b
  | ranges a b c d ihs ihe =>
    intro o o' hx
    rw [Value.equalWith_range, Option.bind_eq_some_iff] at hx
    obtain ⟨⟨eq, o₁⟩, hac, hx⟩ := hx
    cases eq with
    | true => exact .range (ihs o o₁ hac) (ihe o₁ o' hx)
    | false => simp at hx
  | others v w hl hr =>
    intro o o' hx
    rw [Value.equalWith_scalar _ hl hr, Option.some.injEq, Prod.mk.injEq] at hx
    exact .of_scalarEqual hx.1

/-- Lists that compare as equal are derived as equal, no deeper than the fuel went. -/
theorem equalLists_sound (h : Heap) (fuel : Nat) (a b : ListId) :
    ∀ o o', h.equalLists fuel a b o = some (true, o') → Derives h fuel (.list a) (.list b) := by
  induction fuel generalizing a b with
  | zero => intro o o' hx; cases hx
  | succ fuel ih =>
    intro o o' hx
    rw [equalLists_succ] at hx
    split at hx
    · rename_i hab
      subst hab
      exact .storage a
    split at hx
    · simp at hx
    split at hx
    · simp at hx
    rename_i hsize
    obtain ⟨⟨eq, o₁⟩, hall, hx⟩ := Option.map_eq_some_iff.mp hx
    simp only [Prod.mk.injEq] at hx
    obtain ⟨rfl, -⟩ := hx
    exact .elements (not_not.mp hsize) (allEqual_sound (equalWith_sound ih) _ _ hall)

/-! ## No derivation is missed -/

/-- Sequences whose elements compare as equal in each place compare as equal. -/
theorem allEqual_complete {same : Value → Value → Value.Comparison} (vs ws : List Value) {o : Value.OpenPairs}
    (hs : ∀ (i : Nat) (v w : Value), vs[i]? = some v → ws[i]? = some w →
      ∀ r o', same v w o = some (r, o') → r = true ∧ o' = o) :
    ∀ r o', allEqual same vs ws o = some (r, o') → r = true := by
  induction vs generalizing ws with
  | nil =>
    intro r o' hx
    cases ws <;> cases hx <;> rfl
  | cons v vs ih =>
    cases ws with
    | nil => intro r o' hx; cases hx; rfl
    | cons w ws =>
      intro r o' hx
      rw [allEqual_cons, Option.bind_eq_some_iff] at hx
      obtain ⟨⟨eq, o₁⟩, hvw, hx⟩ := hx
      obtain ⟨rfl, rfl⟩ := hs 0 v w rfl rfl eq o₁ hvw
      exact ih ws (fun i v w hv hw => hs (i + 1) v w (by simpa using hv) (by simpa using hw)) r o' hx

/-- Values that have a derivation are found equal if lists that have one are, wherever there is an answer. -/
theorem equalWith_complete {h : Heap} {n : Nat} {lists : ListId → ListId → Value.Comparison} {o : Value.OpenPairs}
    (hres : ∀ a b, Restores (lists a b))
    (hl : ∀ a b, Derives h n (.list a) (.list b) → ∀ r o', lists a b o = some (r, o') → r = true) (v w : Value)
    (hd : Derives h n v w) : ∀ r o', Value.equalWith lists v w o = some (r, o') → r = true := by
  induction v, w using Value.pairInduction with
  | lists a b => exact hl a b hd
  | ranges a b c d ihs ihe =>
    intro r o' hx
    obtain ⟨hs, he⟩ := hd.bounds
    rw [Value.equalWith_range, Option.bind_eq_some_iff] at hx
    obtain ⟨⟨eq, o₁⟩, hac, hx⟩ := hx
    have heq := ihs hs eq o₁ hac
    have ho₁ := Restores.equalWith hres a c o o₁ eq hac
    subst heq ho₁
    exact ihe he r o' hx
  | others v w hnl hnr =>
    intro r o' hx
    rw [Value.equalWith_scalar _ hnl hnr, hd.scalarEqual hnl hnr] at hx
    simp_all

/-- The cut-off at open pairs rejects nothing that can be derived: as long as no open pair can be derived within the depth `n`,
lists that can be derived within `n` compare as equal. -/
theorem equalLists_complete (h : Heap) (n : Nat) : ∀ (a b : ListId), Derives h n (.list a) (.list b) →
    ∀ (fuel : Nat) (o : Value.OpenPairs), (∀ p ∈ o, ¬Derives h n (.list p.1) (.list p.2)) →
      ∀ r o', h.equalLists fuel a b o = some (r, o') → r = true := by
  induction n using Nat.strong_induction_on with
  | _ n ih =>
    intro a b hd fuel o ho r o' hx
    cases fuel with
    | zero => cases hx
    | succ fuel =>
      rw [equalLists_succ] at hx
      split at hx
      · simp_all
      rename_i hab
      obtain ⟨k, hk, hnot, hsize, hsame⟩ := hd.least hab
      have hclosed : (a, b) ∉ o := fun hmem => ho _ hmem hd
      rw [if_neg hclosed, if_neg (not_not.mpr hsize)] at hx
      obtain ⟨⟨eq, o₁⟩, hall, hx⟩ := Option.map_eq_some_iff.mp hx
      -- Below the pair only depth `k` is needed, and at depth `k` neither the pair nor those open before can be derived.
      have hopen : ∀ p ∈ (a, b) :: o, ¬Derives h k (.list p.1) (.list p.2) := by
        intro p hp hdp
        rcases List.mem_cons.mp hp with rfl | hp
        · exact hnot hdp
        · exact ho p hp (hdp.mono (by omega))
      have helem := allEqual_complete (h.values a) (h.values b) (fun i v w hv hw r' o₂ hvw =>
        ⟨equalWith_complete (restores_equalLists h fuel) (fun c d hcd r o' => ih k hk c d hcd fuel _ hopen r o') v w
            (hsame i v w hv hw) r' o₂ hvw,
          Restores.equalWith (restores_equalLists h fuel) v w _ o₂ r' hvw⟩) eq o₁ hall
      simp_all

/-! ## There always is an answer -/

/-- The pairs of lists that are not open. -/
def closedPairs (h : Heap) (o : Value.OpenPairs) : Finset (ListId × ListId) :=
  (Finset.range h.lists.size ×ˢ Finset.range h.lists.size).filter (· ∉ o)

/-- Opening a pair leaves fewer closed. -/
theorem card_closedPairs_cons {h : Heap} {o : Value.OpenPairs} {a b : ListId} (ha : a < h.lists.size)
    (hb : b < h.lists.size) (ho : (a, b) ∉ o) : (h.closedPairs ((a, b) :: o)).card < (h.closedPairs o).card := by
  apply Finset.card_lt_card
  rw [Finset.ssubset_iff_of_subset]
  · exact ⟨(a, b), by simp [closedPairs, ha, hb, ho], by simp [closedPairs]⟩
  · intro p hp
    simp only [closedPairs, Finset.mem_filter, List.mem_cons, not_or] at hp ⊢
    exact ⟨hp.1, hp.2.2⟩

/-- The fuel is more than there are pairs to open. -/
theorem card_closedPairs_lt_pairFuel (h : Heap) (o : Value.OpenPairs) : (h.closedPairs o).card < h.pairFuel := by
  have hle := Finset.card_filter_le (Finset.range h.lists.size ×ˢ Finset.range h.lists.size) (· ∉ o)
  rw [Finset.card_product, Finset.card_range] at hle
  exact Nat.lt_succ_of_le hle

/-- Only a list that is there has elements. -/
theorem lt_size_of_mem_values {h : Heap} {l : ListId} {v : Value} (hv : v ∈ h.values l) : l < h.lists.size := by
  by_contra hl
  simp [values, items, Array.getD, hl] at hv

/-- Rows have an answer if their values do. -/
theorem allEqual_answers {same : Value → Value → Value.Comparison} {o : Value.OpenPairs} (vs ws : List Value)
    (hs : ∀ v ∈ vs, ∀ w ∈ ws, ∃ r, same v w o = some (r, o)) : ∃ r, allEqual same vs ws o = some (r, o) := by
  induction vs generalizing ws with
  | nil => exact ⟨true, by cases ws <;> rfl⟩
  | cons v vs ih =>
    cases ws with
    | nil => exact ⟨true, rfl⟩
    | cons w ws =>
      obtain ⟨eq, hvw⟩ := hs v (by simp) w (by simp)
      rw [allEqual_cons, hvw, Option.bind_some]
      cases eq with
      | true => exact ih ws fun v hv w hw => hs v (by simp [hv]) w (by simp [hw])
      | false => exact ⟨false, rfl⟩

/-- Values have an answer if lists do. -/
theorem equalWith_answers {lists : ListId → ListId → Value.Comparison} {o : Value.OpenPairs}
    (hl : ∀ a b, ∃ r, lists a b o = some (r, o)) (v w : Value) : ∃ r, Value.equalWith lists v w o = some (r, o) := by
  induction v, w using Value.pairInduction with
  | lists a b => exact hl a b
  | ranges a b c d ihs ihe =>
    obtain ⟨eq, hac⟩ := ihs
    rw [Value.equalWith_range, hac, Option.bind_some]
    cases eq with
    | true => exact ihe
    | false => exact ⟨false, rfl⟩
  | others v w hl hr => exact ⟨_, Value.equalWith_scalar _ hl hr o⟩

/-- The measure of a comparison is the number of pairs that are not open: with more fuel than that it has an answer. -/
theorem equalLists_answers (h : Heap) (fuel : Nat) (a b : ListId) (o : Value.OpenPairs)
    (hf : (h.closedPairs o).card < fuel) : ∃ r, h.equalLists fuel a b o = some (r, o) := by
  induction fuel generalizing a b o with
  | zero => exact absurd hf (Nat.not_lt_zero _)
  | succ fuel ih =>
    rw [equalLists_succ]
    split
    · exact ⟨true, rfl⟩
    split
    · exact ⟨false, rfl⟩
    split
    · exact ⟨false, rfl⟩
    rename_i ho _
    have hall := allEqual_answers (o := (a, b) :: o) (h.values a) (h.values b) fun v hv w hw =>
      equalWith_answers (fun c d => ih c d _ (by
        have := card_closedPairs_cons (lt_size_of_mem_values hv) (lt_size_of_mem_values hw) ho
        omega)) v w
    obtain ⟨eq, hall⟩ := hall
    exact ⟨eq, by rw [hall]; rfl⟩

/-! ## More fuel gives the same answer -/

/-- An answer for rows stays where answers for values stay. -/
theorem allEqual_mono {same same' : Value → Value → Value.Comparison}
    (hs : ∀ v w o x, same v w o = some x → same' v w o = some x) (vs ws : List Value) :
    ∀ o x, allEqual same vs ws o = some x → allEqual same' vs ws o = some x := by
  induction vs generalizing ws with
  | nil => intro o x hx; cases ws <;> exact hx
  | cons v vs ih =>
    cases ws with
    | nil => intro o x hx; exact hx
    | cons w ws =>
      intro o x hx
      rw [allEqual_cons, Option.bind_eq_some_iff] at hx ⊢
      obtain ⟨⟨eq, o₁⟩, hvw, hx⟩ := hx
      refine ⟨⟨eq, o₁⟩, hs v w o _ hvw, ?_⟩
      cases eq with
      | true => exact ih ws o₁ x hx
      | false => exact hx

/-- An answer for values stays where answers for lists stay. -/
theorem equalWith_mono {lists lists' : ListId → ListId → Value.Comparison}
    (hl : ∀ a b o x, lists a b o = some x → lists' a b o = some x) (v w : Value) :
    ∀ o x, Value.equalWith lists v w o = some x → Value.equalWith lists' v w o = some x := by
  induction v, w using Value.pairInduction with
  | lists a b => exact hl a b
  | ranges a b c d ihs ihe =>
    intro o x hx
    rw [Value.equalWith_range, Option.bind_eq_some_iff] at hx ⊢
    obtain ⟨⟨eq, o₁⟩, hac, hx⟩ := hx
    refine ⟨⟨eq, o₁⟩, ihs o _ hac, ?_⟩
    cases eq with
    | true => exact ihe o₁ x hx
    | false => exact hx
  | others v w hl hr =>
    intro o x hx
    rw [Value.equalWith_scalar _ hl hr] at hx ⊢
    exact hx

/-- More fuel gives the same answer for lists. -/
theorem equalLists_mono (h : Heap) {fuel fuel' : Nat} (hle : fuel ≤ fuel') (a b : ListId) :
    ∀ o x, h.equalLists fuel a b o = some x → h.equalLists fuel' a b o = some x := by
  induction fuel generalizing fuel' a b with
  | zero => intro o x hx; cases hx
  | succ fuel ih =>
    intro o x hx
    obtain ⟨k, rfl⟩ : ∃ k, fuel' = k + 1 := ⟨fuel' - 1, by omega⟩
    rw [equalLists_succ] at hx ⊢
    split at hx
    · rw [if_pos (by assumption)]; exact hx
    rw [if_neg (by assumption)]
    split at hx
    · rw [if_pos (by assumption)]; exact hx
    rw [if_neg (by assumption)]
    split at hx
    · rw [if_pos (by assumption)]; exact hx
    rw [if_neg (by assumption)]
    obtain ⟨y, hall, hx⟩ := Option.map_eq_some_iff.mp hx
    rw [allEqual_mono (equalWith_mono fun c d => ih (by omega) c d) _ _ _ y hall, ← hx]
    rfl

/-- Two values are equal exactly when there is a derivation for them. -/
theorem equal_iff_derives (h : Heap) (v w : Value) : h.equal v w = true ↔ ∃ n, Derives h n v w := by
  obtain ⟨same, hsame⟩ := equalWith_answers
    (fun a b => equalLists_answers h h.pairFuel a b [] (card_closedPairs_lt_pairFuel h [])) v w
  have hequal : h.equal v w = same := by rw [equal, hsame]
  rw [hequal]
  constructor
  · rintro rfl
    exact ⟨h.pairFuel, equalWith_sound (equalLists_sound h h.pairFuel) v w [] [] hsame⟩
  · rintro ⟨n, hd⟩
    have hlists : ∀ a b, Derives h n (.list a) (.list b) → ∀ r o', h.equalLists h.pairFuel a b [] = some (r, o') → r = true :=
      fun a b hab => equalLists_complete h n a b hab h.pairFuel [] (by simp)
    exact equalWith_complete (restores_equalLists h h.pairFuel) hlists v w hd same [] hsame

end Heap

open Heap

/-- Equality is what the rules derive, on every heap, also one whose lists contain themselves. The comparison of any two values
comes to an answer, from some fuel on always the same; whenever it has an answer the open pairs are those it started with;
and values are equal exactly when there is a derivation for them. -/
theorem equal_iff_derivation (h : Heap) (v w : Value) :
    (∀ o, ∃ same, ∀ fuel, h.pairFuel ≤ fuel → Value.equalWith (h.equalLists fuel) v w o = some (same, o)) ∧
    (∀ fuel o o' same, Value.equalWith (h.equalLists fuel) v w o = some (same, o') → o' = o) ∧
    (h.equal v w = true ↔ ∃ n, Derives h n v w) := by
  have hends : ∀ o, ∃ same, ∀ fuel, h.pairFuel ≤ fuel → Value.equalWith (h.equalLists fuel) v w o = some (same, o) := by
    intro o
    obtain ⟨same, hs⟩ := equalWith_answers
      (fun a b => equalLists_answers h h.pairFuel a b o (card_closedPairs_lt_pairFuel h o)) v w
    exact ⟨same, fun fuel hf => equalWith_mono (equalLists_mono h hf) v w o _ hs⟩
  refine ⟨hends, ?_, h.equal_iff_derives v w⟩
  intro fuel o o' same
  exact Restores.equalWith (restores_equalLists h fuel) v w o o' same

-- Two lists that each hold only themselves: no rule tells them apart, but none derives that they are equal either.
example : (⟨#[.list 0, .list 1], #[#[0], #[1]]⟩ : Heap).equal (.list 0) (.list 1) = false := by
  decide

end NodeScript
