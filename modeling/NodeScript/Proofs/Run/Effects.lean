import NodeScript.Proofs.Run.Obedience
import NodeScript.Proofs.Value.Nesting

/-!
# Which instructions change what is there

Slots and lists are shared by names, list elements, arguments and results, so a change through one of them is seen through all.
Only compound assignments write into slots, and what they write is a number or a text; only `append`, `insert` and `remove`
change lists. A run of code without such instructions leaves every slot, or every list, as it was, provided that the functions
that it can get hold of are without them too: those that are reached from the names that are bound at the start (`run_effects`).
-/

namespace NodeScript

/-! ## What changes leave as it was -/

namespace Access

variable {A : Access} {h h' : Heap}

/-- Slots and lists are never taken away. -/
theorem size_le_of_changes (hc : A.Changes h h') : h.slots.size ≤ h'.slots.size ∧ h.lists.size ≤ h'.lists.size := by
  induction hc with
  | refl => exact ⟨Nat.le_refl _, Nat.le_refl _⟩
  | tail _ hc ih => exact ⟨Nat.le_trans ih.1 hc.size_le.1, Nat.le_trans ih.2 hc.size_le.2⟩

/-- A slot that is there already keeps its value, or an instruction that writes gives it a number or a text. -/
theorem Change.get_cases (hc : A.Change h h') {s : SlotId} (hs : s < h.slots.size) :
    h'.get s = h.get s ∨ A.Performs .write ∧ (h'.get s).type ∈ [.int, .float, .string] := by
  cases hc with
  | alloc => exact .inl (by rw [Heap.get_alloc, if_neg (Nat.ne_of_lt hs)])
  | newList | grow | shrink => exact .inl rfl
  | write he _ hv =>
    rw [Heap.get_set]
    split
    · exact .inr ⟨he, hv⟩
    · exact .inl rfl

/-- A slot holds what it held, or some instruction that writes may run and it holds the result of arithmetic. -/
theorem get_cases_of_changes (hc : A.Changes h h') {s : SlotId} (hs : s < h.slots.size) :
    h'.get s = h.get s ∨ A.Performs .write ∧ (h'.get s).type ∈ [.int, .float, .string] := by
  induction hc with
  | refl => exact .inl rfl
  | tail hcs hc ih =>
    rcases hc.get_cases (Nat.lt_of_lt_of_le hs (size_le_of_changes hcs).1) with heq | hwritten
    · rw [heq]
      exact ih
    · exact .inr hwritten

/-- A list that is there already keeps its slots unless an instruction changes lists. -/
theorem Change.items_eq (hc : A.Change h h') (hgrow : ¬A.Performs .grow) (hshrink : ¬A.Performs .shrink) {l : ListId}
    (hl : l < h.lists.size) : h'.items l = h.items l := by
  cases hc with
  | alloc | write => rfl
  | newList => rw [Heap.items_newList, if_neg (Nat.ne_of_lt hl)]
  | grow he => exact absurd he hgrow
  | shrink he => exact absurd he hshrink

/-- A list has the slots it had, where no instruction that changes lists may run. -/
theorem items_eq_of_changes (hc : A.Changes h h') (hgrow : ¬A.Performs .grow) (hshrink : ¬A.Performs .shrink) {l : ListId}
    (hl : l < h.lists.size) : h'.items l = h.items l := by
  induction hc with
  | refl => rfl
  | tail hcs hc ih =>
    rw [hc.items_eq hgrow hshrink (Nat.lt_of_lt_of_le hl (size_le_of_changes hcs).2), ih]

end Access

/-! ## What a state holds -/

namespace Machine

variable {m : Machine}

/-- A value is reached from a name that is bound. -/
def Holds (m : Machine) (v : Value) : Prop :=
  ∃ name s, m.env.get? name = some s ∧ m.heap.Inside (m.heap.get s) v

/-- What a run from a state can get hold of: slots and lists that it makes itself, and what the state holds. -/
def access (m : Machine) (node : Node FuncId → Prop) : Access where
  node := node
  slot _ s := m.heap.slots.size ≤ s ∨ (∃ name, m.env.get? name = some s) ∨ ∃ l, m.Holds (.list l) ∧ s ∈ m.heap.items l
  list _ l := m.heap.lists.size ≤ l ∨ m.Holds (.list l)

/-- What a run from a state can get hold of leads only to more of it, and all that was there is there still. -/
def regime (m : Machine) (node : Node FuncId → Prop) : Regime where
  toAccess := m.access node
  inv h := m.heap.slots.size ≤ h.slots.size ∧ m.heap.lists.size ≤ h.lists.size ∧ (m.access node).Closed h

/-- The regime follows the laws: what a change makes is new, and what it writes may be in use. -/
theorem regime_lawful (m : Machine) {node : Node FuncId → Prop}
    (hchild : ∀ {n c : Node FuncId}, node n → c ∈ n.children → node c) : (m.regime node).Lawful where
  child := hchild
  inv hc hh := by
    refine ⟨Nat.le_trans hh.1 hc.size_le.1, Nat.le_trans hh.2.1 hc.size_le.2, ?_⟩
    -- what a run can get hold of does not depend on the heap
    exact hh.2.2.change hc (fun _ hs => hs) (fun _ hl => hl) (fun _ hs => .inl hs) (fun _ hl => .inl hl)
  slot _ hs := hs
  list _ hl := hl
  newSlot _ hh := .inl hh.1
  newList _ hh := .inl hh.2.1
  closed hh := hh.2.2

/-- A value fits if the state holds all that is inside it. -/
theorem fits_of_holds {node : Node FuncId → Prop} (hfunc : ∀ f, m.Holds (.func f) → (m.access node).Code f.code) {h : Heap}
    {v : Value} (hv : ∀ w, m.heap.Inside v w → m.Holds w) : (m.access node).Fits h v := by
  induction v with
  | list l => exact .inr (hv _ .refl)
  | range a b iha ihb => exact ⟨iha fun w hw => hv w (.head .start hw), ihb fun w hw => hv w (.head .stop hw)⟩
  | func f => exact hfunc f (hv _ .refl)
  | _ => trivial

/-- The regime holds of the state itself, if the functions that it holds may run. -/
theorem ready_regime {node : Node FuncId → Prop} (hfunc : ∀ f, m.Holds (.func f) → (m.access node).Code f.code) :
    (m.regime node).Ready m := by
  refine ⟨⟨Nat.le_refl _, Nat.le_refl _, ⟨fun {s} hs => ?_, fun {l s} hl hs => ?_⟩⟩, fun name s hs => .inr (.inl ⟨name, hs⟩)⟩
  · rcases hs with hs | ⟨name, hs⟩ | ⟨l, ⟨name, t, ht, hl⟩, hs⟩
    · exact .of_size_le hs
    · exact fits_of_holds hfunc fun w hw => ⟨name, s, hs, hw⟩
    · refine fits_of_holds hfunc fun w hw => ⟨name, t, ht, hl.trans ?_⟩
      exact .head (.element hs) hw
  · rcases hl with hl | hl
    · exact absurd (Heap.lt_size_of_mem_items hs) (Nat.not_lt_of_ge hl)
    · exact .inr (.inr ⟨l, hl, hs⟩)

end Machine

/-- Every node may run, and everything may be in use. -/
def Regime.free : Regime where
  node _ := True
  slot _ _ := True
  list _ _ := True
  inv _ := True

/-- The regime without any conditions follows the laws. -/
theorem Regime.free_lawful : Regime.free.Lawful where
  child _ _ := trivial
  inv _ _ := trivial
  slot _ _ := trivial
  list _ _ := trivial
  newSlot _ _ := trivial
  newList _ _ := trivial
  closed _ := ⟨fun _ => .of_all (fun _ => trivial) (fun _ => trivial) _, fun _ _ => trivial⟩

/-- Under it any work may be done. -/
theorem Regime.permits_free (h : Heap) (w : Work) : Regime.free.Permits h w := by
  cases w with
  | pass _ _ cursor => cases cursor <;> exact ⟨fun _ _ => trivial, trivial⟩
  | _ => simp [Access.Permits, Access.Code, Regime.free]

/-! ## Runs -/

section

variable {limit : Nat} {code : Block FuncId} {effects : List Effect} {m m' : Machine}

/-- A run of code without some effects, from a state whose functions are without them, changes the heap without them. -/
theorem changes_of_without (hcode : Block.Without effects code)
    (hfunc : ∀ f, m.Holds (.func f) → Block.Without effects f.code) (hv : Visits limit (.block code) m m') :
    (m.access (Node.Without effects)).Changes m.heap m'.heap := by
  have hlawful : (m.regime (Node.Without effects)).Lawful := m.regime_lawful Node.Without.child
  have hready : (m.regime (Node.Without effects)).Ready m := Machine.ready_regime hfunc
  have hpermits : (m.regime (Node.Without effects)).Permits m.heap (.block code) := hcode
  exact (hlawful.later_of_visits hready hpermits hv).changes

/-- Code without an effect does not perform it. -/
theorem not_performs_of_mem (m : Machine) {effect : Effect} (he : effect ∈ effects) :
    ¬(m.access (Node.Without effects)).Performs effect := by
  rintro ⟨s, hs, heffect⟩
  exact hs s (.self _) effect he heffect

end

/-- What instructions there are in a block, and in the functions that the state holds, bounds what a run of the block changes, at
every point of the run and however it ends. Without compound assignments every slot that was there keeps its value; without
`append`, `insert` and `remove` every list that was there keeps its slots. Whatever work is done from whatever state, a slot that
is there already keeps its value or gets an integer, a float or a string. -/
theorem run_effects (limit : Nat) (code : Block FuncId) (m : Machine) :
    (Block.Without [.write] code → (∀ f, m.Holds (.func f) → Block.Without [.write] f.code) →
      ∀ m', Visits limit (.block code) m m' → ∀ s < m.heap.slots.size, m'.heap.get s = m.heap.get s) ∧
    (Block.Without [.grow, .shrink] code → (∀ f, m.Holds (.func f) → Block.Without [.grow, .shrink] f.code) →
      ∀ m', Visits limit (.block code) m m' → ∀ l < m.heap.lists.size, m'.heap.items l = m.heap.items l) ∧
    ∀ w m₁ m₂, Visits limit w m₁ m₂ → ∀ s < m₁.heap.slots.size,
      m₂.heap.get s = m₁.heap.get s ∨ (m₂.heap.get s).type ∈ [.int, .float, .string] := by
  refine ⟨?_, ?_, ?_⟩
  · intro hcode hfunc m' hv s hs
    rcases Access.get_cases_of_changes (changes_of_without hcode hfunc hv) hs with heq | ⟨hperforms, -⟩
    · exact heq
    · exact absurd hperforms (not_performs_of_mem m (.head _))
  · intro hcode hfunc m' hv l hl
    have hgrow : ¬(m.access (Node.Without [.grow, .shrink])).Performs .grow := not_performs_of_mem m (.head _)
    have hshrink : ¬(m.access (Node.Without [.grow, .shrink])).Performs .shrink := not_performs_of_mem m (.tail _ (.head _))
    exact Access.items_eq_of_changes (changes_of_without hcode hfunc hv) hgrow hshrink hl
  · intro w m₁ m₂ hv s hs
    have hready : Regime.free.Ready m₁ := ⟨trivial, fun _ _ _ => trivial⟩
    have hlater := Regime.free_lawful.later_of_visits hready (Regime.permits_free _ w) hv
    exact (Access.get_cases_of_changes hlater.changes hs).imp_right And.right

/-- A list whose one element has a name of its own, and a function with a body. -/
def sharing (body : Block FuncId) : Machine where
  env := ⟨[("xs", 0), ("x", 1), ("f", 2)]⟩
  heap := ⟨#[.list 0, .int 5, .func ⟨0, [], body⟩], #[#[1]]⟩
  source := ⟨[]⟩
  sink := .unlimited
  depth := 0

/-- Calls the function. -/
def callingF : Block FuncId :=
  [.expr none (.call none (.getVar none "f") [] [])]

/-- Puts the element into its list once more. -/
def appendingX : Block FuncId :=
  [.append none (.getVar none "xs") (.getVar none "x")]

/-- Adds to the element of the list. -/
def addingToX : Block FuncId :=
  [.compound none .add (.subscript none (.getVar none "xs") (.literal none (.int 0))) (.literal none (.int 1))]

/-- The function in the state is the only one that it holds. -/
theorem holds_func_sharing {body : Block FuncId} {f : Func} (hf : (sharing body).Holds (.func f)) : f.code = body := by
  obtain ⟨name, s, hs, hin⟩ := hf
  have hslot : s = 0 ∨ s = 1 ∨ s = 2 := by
    simp only [sharing, Env.get?, List.lookup_cons, List.lookup_nil] at hs
    split at hs
    · exact .inl (Option.some.inj hs).symm
    split at hs
    · exact .inr (.inl (Option.some.inj hs).symm)
    split at hs
    · exact .inr (.inr (Option.some.inj hs).symm)
    · cases hs
  -- an integer and a function have no parts
  have hint {n : Int64} {v : Value} (h : (sharing body).heap.Inside (.int n) v) : v = .int n := by
    rcases h.cases_head with rfl | ⟨w, hw, -⟩
    · rfl
    · cases hw
  rcases hslot with rfl | rfl | rfl
  · rcases hin.cases_head with heq | ⟨w, hw, hin⟩
    · cases heq
    · generalize hv : (sharing body).heap.get 0 = v at hw
      cases hv
      cases hw with
      | element hs =>
        have hs := List.mem_singleton.mp (Array.mem_toList_iff.mpr hs)
        subst hs
        cases hint hin
  · cases hint hin
  · rcases hin.cases_head with heq | ⟨w, hw, -⟩
    · cases heq
      rfl
    · generalize hv : (sharing body).heap.get 2 = v at hw
      cases hv
      cases hw

/-- The first function makes the list longer and leaves the slots, and the second one writes into a slot and leaves the list. -/
theorem sharing_run_effects :
    (∀ s < 3, (Work.after 10 9 (.block callingF) (sharing appendingX)).heap.get s = (sharing appendingX).heap.get s) ∧
    (Work.after 10 9 (.block callingF) (sharing appendingX)).heap.items 0 = #[1, 1] ∧
    (∀ l < 1, (Work.after 10 9 (.block callingF) (sharing addingToX)).heap.items l = (sharing addingToX).heap.items l) ∧
    (∀ s < 3, (Work.after 10 9 (.block callingF) (sharing addingToX)).heap.get s = (sharing addingToX).heap.get s ∨
      ((Work.after 10 9 (.block callingF) (sharing addingToX)).heap.get s).type ∈ [.int, .float, .string]) ∧
    (Work.after 10 9 (.block callingF) (sharing addingToX)).heap.get 1 = .int 6 := by
  have hcalling (effects : List Effect) : Block.Without effects callingF := by
    simp [Block.Without, callingF, Node.without_stmt, Node.without_expr, Node.children, Stmt.effect]
  have happending : Block.Without [.write] appendingX := by
    simp [Block.Without, appendingX, Node.without_stmt, Node.without_expr, Node.children, Stmt.effect]
  have hadding : Block.Without [.grow, .shrink] addingToX := by
    simp [Block.Without, addingToX, Node.without_stmt, Node.without_expr, Node.children, Stmt.effect]
  refine ⟨?_, rfl, ?_, ?_, rfl⟩
  · refine (run_effects 10 callingF (sharing appendingX)).1 (hcalling _) (fun f hf => ?_) _ (.done .start 9)
    rw [holds_func_sharing hf]
    exact happending
  · refine (run_effects 10 callingF (sharing addingToX)).2.1 (hcalling _) (fun f hf => ?_) _ (.done .start 9)
    rw [holds_func_sharing hf]
    exact hadding
  · exact (run_effects 10 callingF (sharing addingToX)).2.2 (.block callingF) (sharing addingToX) _ (.done .start 9)

end NodeScript
