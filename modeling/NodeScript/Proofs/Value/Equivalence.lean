import NodeScript.Proofs.Value.Heap
import NodeScript.Proofs.Value.Nearest
import NodeScript.Proofs.Value.Nesting

/-!
# Equality as an equivalence

Whether two lists that are being compared are equal depends on which pairs of lists are open, but equality is what can be derived
(`Heap.equal_iff_derives`), and derivations can be turned around and composed. Only floats stand in the way: what is not a number
differs from itself, and two integers may be equal to the same float. Where there are no floats, two numbers are equal exactly if
they stand for the same integer (`Derives.bound?_eq`, `Derives.of_bound?`), so that derivations compose (`Derives.trans`).
-/

namespace NodeScript

/-- The value is not a number, or is a range with such a bound; what is in lists does not count. -/
def Value.NanOutsideLists : Value → Prop
  | float x => x.isNaN = true
  | range a b => a.NanOutsideLists ∨ b.NanOutsideLists
  | _ => False

namespace Heap

variable {h : Heap}

/-- There is no float inside the value. -/
def FloatFree (h : Heap) (v : Value) : Prop :=
  ∀ x, ¬h.Inside v (.float x)

/-- There is no float inside a part where there is none inside the whole. -/
theorem FloatFree.of_part {v w : Value} (hv : h.FloatFree v) (hw : h.Part v w) : h.FloatFree w :=
  fun x hx => hv x (.head hw hx)

/-- A value without floats inside is no float. -/
theorem FloatFree.type_ne {v : Value} (hv : h.FloatFree v) : v.type ≠ .float := by
  intro hfloat
  cases v with
  | float x => exact hv x .refl
  | _ => cases hfloat

end Heap

namespace Derives

variable {h : Heap} {n : Nat} {u v w : Value}

/-- A derivation can be turned around. -/
theorem symm (hd : Derives h n v w) : Derives h n w v := by
  induction hd with
  | storage l => exact .storage l
  | elements size _ ih => exact .elements size.symm fun i v w hv hw => ih i w v hw hv
  | range _ _ ihs ihe => exact .range ihs ihe
  | func node => exact .func node.symm
  | void => exact .void
  | int i => exact .int i
  | string s => exact .string s
  | number left right mixed same => exact .number right left mixed.symm (BEq.symm same)

/-- There is a derivation for a value and itself exactly if nothing outside of lists is not a number. A list has the same storage
as itself, whatever is in it. -/
theorem self_iff : Derives h n v v ↔ ¬v.NanOutsideLists := by
  induction v with
  | int i => exact ⟨fun _ => id, fun _ => .int i⟩
  | float x =>
    have hself : (x == x) = true ↔ ¬(Value.float x).NanOutsideLists := by
      simp [Value.NanOutsideLists]
    rw [← hself]
    constructor
    · intro hd
      cases hd with
      | number left right _ same =>
        cases left
        cases right
        exact same
    · exact fun hx => .number rfl rfl (.inl (by simp [Value.type])) hx
  | bool b => exact ⟨fun _ => id, fun _ => .number rfl rfl (.inl (by simp [Value.type])) (by cases b <;> rfl)⟩
  | string s => exact ⟨fun _ => id, fun _ => .string s⟩
  | list l => exact ⟨fun _ => id, fun _ => .storage l⟩
  | range a b iha ihb =>
    rw [Value.NanOutsideLists, not_or, ← iha, ← ihb]
    exact ⟨Derives.bounds, fun hab => .range hab.1 hab.2⟩
  | func f => exact ⟨fun _ => id, fun _ => .func rfl⟩
  | void => exact ⟨fun _ => id, fun _ => .void⟩

/-! ## Numbers that are not floats -/

theorem eq_of_boolInt : ∀ {b c : Bool}, boolInt b = boolInt c → b = c := by
  decide

theorem eq_of_boolFloat : ∀ {b c : Bool}, (boolFloat b == boolFloat c) = true → b = c := by
  decide +kernel

/-- Two integers or truth values that stand for the same integer are equal. -/
theorem of_bound? {i : Int64} (hv : v.bound? = some i) (hw : w.bound? = some i) : Derives h n v w := by
  have hmixed : ∀ b, (nearestFloat (boolInt b) == boolFloat b) = true := by
    rintro (_ | _) <;> rfl
  cases v with
  | int j =>
    cases hv
    cases w with
    | int k => cases hw; exact .int _
    | bool b =>
      cases hw
      exact .number rfl rfl (.inr (by simp [Value.type])) (hmixed b)
    | float | string | list | range | func | void => cases hw
  | bool b =>
    cases hv
    cases w with
    | int k =>
      cases hw
      exact .number rfl rfl (.inl (by simp [Value.type])) (BEq.symm (hmixed b))
    | bool c =>
      obtain rfl := eq_of_boolInt (Option.some.inj hw)
      exact .number rfl rfl (.inl (by simp [Value.type])) (by cases c <;> rfl)
    | float | string | list | range | func | void => cases hw
  | float | string | list | range | func | void => cases hv

/-- What is equal to an integer or to a truth value, and is no float, stands for the same integer. -/
theorem bound?_eq {i : Int64} (hd : Derives h n v w) (hv : v.bound? = some i) (hw : w.type ≠ .float) : w.bound? = some i := by
  cases hd with
  | int j => exact hv
  | storage | elements | range | func | void | string => cases hv
  | number left right mixed same =>
    cases v with
    | int j =>
      cases hv
      cases left
      cases w with
      | int k => simp [Value.type] at mixed
      | bool b =>
        cases right
        exact congrArg some (eq_boolInt_of_beq same).symm
      | float => exact absurd rfl hw
      | string | list | range | func | void => cases right
    | bool b =>
      cases hv
      cases left
      cases w with
      | int k =>
        cases right
        exact congrArg some (eq_boolInt_of_beq (BEq.symm same))
      | bool c =>
        cases right
        rw [eq_of_boolFloat same]
        rfl
      | float => exact absurd rfl hw
      | string | list | range | func | void => cases right
    | float | string | list | range | func | void => cases hv

/-- A number that is no float stands for an integer. -/
theorem exists_bound?_of_numeric? {x : Float} (hv : v.numeric? = some x) (hfloat : v.type ≠ .float) : ∃ i, v.bound? = some i := by
  cases v with
  | int i => exact ⟨i, rfl⟩
  | bool b => exact ⟨boolInt b, rfl⟩
  | float => exact absurd rfl hfloat
  | string | list | range | func | void => cases hv

/-- Where there are no floats, derivations compose. -/
theorem trans (huv : Derives h n u v) (hvw : Derives h n v w) (hu : h.FloatFree u) (hv : h.FloatFree v) (hw : h.FloatFree w) :
    Derives h n u w := by
  induction huv generalizing w with
  | storage | int | string | void => exact hvw
  | @elements n a b size same ih =>
    cases hvw with
    | storage => exact .elements size same
    | @elements _ _ c size' same' =>
      refine .elements (size.trans size') fun i x z hx hz => ?_
      have hlength : (h.values b).length = (h.values a).length := by simp [Heap.values, size]
      obtain ⟨y, hy⟩ : ∃ y, (h.values b)[i]? = some y := by
        obtain ⟨hi, -⟩ := List.getElem?_eq_some_iff.mp hx
        exact ⟨_, List.getElem?_eq_getElem (by omega)⟩
      have hpart : ∀ {l : ListId} {v : Value}, (h.values l)[i]? = some v → h.Part (.list l) v :=
        fun hv => Heap.part_of_mem_values (List.mem_of_getElem? hv)
      exact ih i x y hx hy (same' i y z hy hz) (hu.of_part (hpart hx)) (hv.of_part (hpart hy)) (hw.of_part (hpart hz))
    | number left => cases left
  | range _ _ ihs ihe =>
    cases hvw with
    | range start stop =>
      exact .range (ihs start (hu.of_part .start) (hv.of_part .start) (hw.of_part .start))
        (ihe stop (hu.of_part .stop) (hv.of_part .stop) (hw.of_part .stop))
    | number left => cases left
  | func node =>
    cases hvw with
    | func node' => exact .func (node.trans node')
    | number left => cases left
  | number left right mixed same =>
    obtain ⟨i, hi⟩ := exists_bound?_of_numeric? left hu.type_ne
    have hvi := (Derives.number (h := h) (n := 0) left right mixed same).bound?_eq hi hv.type_ne
    exact of_bound? hi (hvw.bound?_eq hvi hw.type_ne)

end Derives

/-- Equality is an equivalence as far as floats allow, on every heap, also one whose lists contain themselves. It does not depend
on the order of the two values. A value is equal to itself exactly if nothing in it is not a number, lists apart. Two values that
are equal to a third one are equal, if there is no float inside any of them. -/
theorem equal_equivalence (h : Heap) :
    (∀ v w, h.equal v w = h.equal w v) ∧
    (∀ v : Value, h.equal v v = true ↔ ¬v.NanOutsideLists) ∧
    ∀ u v w, h.FloatFree u → h.FloatFree v → h.FloatFree w → h.equal u v = true → h.equal v w = true → h.equal u w = true := by
  refine ⟨fun v w => ?_, fun v => ?_, fun u v w hu hv hw huv hvw => ?_⟩
  · have hiff : h.equal v w = true ↔ h.equal w v = true := by
      rw [h.equal_iff_derives, h.equal_iff_derives]
      exact exists_congr fun n => ⟨Derives.symm, Derives.symm⟩
    exact Bool.eq_iff_iff.mpr hiff
  · rw [h.equal_iff_derives]
    exact ⟨fun ⟨n, hd⟩ => Derives.self_iff.mp hd, fun hv => ⟨0, Derives.self_iff.mpr hv⟩⟩
  · rw [h.equal_iff_derives] at huv hvw ⊢
    obtain ⟨n, huv⟩ := huv
    obtain ⟨m, hvw⟩ := hvw
    exact ⟨max n m, (huv.mono (Nat.le_max_left n m)).trans (hvw.mono (Nat.le_max_right n m)) hu hv hw⟩

/-- Three lists that hold the first one of them and the number one, or what counts as one: the first two are equal, and so are the
last two, hence all of them. -/
theorem knotted_equal_trans :
    let h : Heap := ⟨#[.list 0, .int 1, .bool true], #[#[0, 1], #[0, 2], #[0, 1]]⟩
    h.FloatFree (.list 0) ∧ h.equal (.list 0) (.list 1) = true ∧ h.equal (.list 1) (.list 2) = true ∧
      h.equal (.list 0) (.list 2) = true := by
  intro h
  have hslots : ∀ s, (h.get s).type ≠ .float ∧ (h.get s).type ≠ .range := by
    rintro (_ | _ | _ | s)
    · decide
    · decide
    · decide
    · rw [h.get_of_size_le (Nat.le_add_left 3 s)]
      decide
  have hinside : ∀ l w, h.Inside (.list l) w → w.type ≠ .float ∧ w.type ≠ .range := by
    intro l w hw
    induction hw with
    | refl => simp [Value.type]
    | tail _ hpart ih =>
      cases hpart with
      | element => exact hslots _
      | start | stop => exact absurd rfl ih.2
  have hfree : ∀ l, h.FloatFree (.list l) := fun l x hx => (hinside l _ hx).1 rfl
  have hfirst : h.equal (.list 0) (.list 1) = true := by decide +kernel
  have hlast : h.equal (.list 1) (.list 2) = true := by decide +kernel
  exact ⟨hfree 0, hfirst, hlast, (equal_equivalence h).2.2 _ _ _ (hfree 0) (hfree 1) (hfree 2) hfirst hlast⟩

-- Two integers that are too large for a float are equal to the same float, but not to each other.
example : (Heap.empty.equal (.int 9007199254740992) (.float 9007199254740992.0) = true ∧
    Heap.empty.equal (.float 9007199254740992.0) (.int 9007199254740993) = true) ∧
    Heap.empty.equal (.int 9007199254740992) (.int 9007199254740993) = false := by
  decide +kernel

end NodeScript
