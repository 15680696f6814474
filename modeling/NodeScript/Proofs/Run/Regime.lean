import Mathlib.Logic.Relation
import NodeScript.Proofs.Run.Work
import NodeScript.Proofs.Tree.Node
import NodeScript.Proofs.Value.ResultType

/-!
# What a run does to the heap

A run changes the heap in five ways only: it makes a new slot or a new list, it writes the result of arithmetic into a slot, it
puts an element into a list, and it takes one out. The last three are done by certain instructions alone. A `Regime` says which
nodes may run and which slots and lists they may get hold of, and what is to hold of the heap at all times; its laws are about
the five changes and about nothing else. `Regime.Runs` says that a step keeps to a regime, and has a rule for each way to make
steps.
-/

namespace NodeScript

/-! ## The slots of an environment -/

namespace Env

variable {P : SlotId → Prop} {env : Env}

/-- Every name that is bound stands for a slot with a property. -/
def Within (P : SlotId → Prop) (env : Env) : Prop :=
  ∀ name s, env.get? name = some s → P s

/-- To bind a name to a slot with the property keeps all names at such slots. -/
theorem Within.bind (h : env.Within P) (name : String) {s : SlotId} (hs : P s) : (env.bind name s).Within P := by
  intro other t ht
  rw [get?_bind] at ht
  split at ht
  · cases ht
    exact hs
  · exact h other t ht

/-- To bind some names to slots with the property keeps all names at such slots. -/
theorem Within.bindAll {bindings : List (String × SlotId)} (h : env.Within P) (hs : ∀ b ∈ bindings, P b.2) :
    (env.bindAll bindings).Within P := by
  induction bindings generalizing env with
  | nil => exact h
  | cons b rest ih => exact ih (h.bind b.1 (hs b (.head _))) fun b' hb' => hs b' (.tail _ hb')

/-- Named arguments with the property are bound as parameters. -/
theorem Within.bindNamed {kwargs : List (String × SlotId)} {params params' : List String} {env' : Env} (h : env.Within P)
    (hs : ∀ b ∈ kwargs, P b.2) (heq : Interp.bindNamed kwargs params env = .ok (params', env')) : env'.Within P := by
  induction kwargs generalizing params env with
  | nil =>
    cases heq
    exact h
  | cons b rest ih =>
    rw [Interp.bindNamed] at heq
    split at heq
    · exact ih (h.bind b.1 (hs b (.head _))) (fun b' hb' => hs b' (.tail _ hb')) heq
    · cases heq

/-- The body of a function sees the slots of the caller's names and those of the arguments. -/
theorem Within.callEnv {heap : Heap} {f : Func} {args : List SlotId} {kwargs : List (String × SlotId)} {env' : Env}
    (h : env.Within P) (ha : ∀ s ∈ args, P s) (hk : ∀ b ∈ kwargs, P b.2)
    (heq : Interp.callEnv heap f args kwargs env = .ok env') : env'.Within P := by
  obtain ⟨⟨params, named⟩, hnamed, heq⟩ := Value.of_bind_eq_ok heq
  dsimp only at heq
  split at heq
  · cases heq
    exact (h.bindNamed hk hnamed).bindAll fun b hb => ha b.2 (List.of_mem_zip hb).2
  · cases heq

end Env

/-! ## Regimes -/

/-- Which nodes may run, and which slots and lists they may get hold of. -/
structure Access where
  /-- The nodes that may run. -/
  node : Node FuncId → Prop
  /-- The slots that may be in use with a heap. -/
  slot : Heap → SlotId → Prop
  /-- The lists that may be in use with a heap. -/
  list : Heap → ListId → Prop

namespace Access

/-- Instructions that may run. -/
def Code (A : Access) (code : Block FuncId) : Prop :=
  ∀ s ∈ code, A.node (.stmt s)

/-- A value that may be in use with a heap: its lists may be, and the bodies of its functions may run. -/
def Fits (A : Access) (h : Heap) : Value → Prop
  | .list l => A.list h l
  | .range start stop => A.Fits h start ∧ A.Fits h stop
  | .func f => A.Code f.code
  | _ => True

/-- Some instruction with an effect may run. -/
def Performs (A : Access) (effect : Effect) : Prop :=
  ∃ s, A.node (.stmt s) ∧ s.effect = some effect

/-- One change of the heap with what may be in use. -/
inductive Change (A : Access) : Heap → Heap → Prop where
  | alloc {h : Heap} {v : Value} (hv : A.Fits h v) : Change A h (h.alloc v).2
  | newList {items : Array SlotId} {h : Heap} (hs : ∀ s ∈ items, A.slot h s) : Change A h (h.newList items).2
  | write {h : Heap} {s : SlotId} {v : Value} (he : A.Performs .write) (hs : A.slot h s) (hv : v.type ∈ [.int, .float, .string]) :
      Change A h (h.set s v)
  | grow {h : Heap} {l : ListId} {s : SlotId} {f : Array SlotId → Array SlotId} (he : A.Performs .grow) (hl : A.list h l)
      (hs : A.slot h s) (hf : ∀ items, ∀ t ∈ f items, t = s ∨ t ∈ items) : Change A h (h.modifyList l f)
  | shrink {h : Heap} {l : ListId} {f : Array SlotId → Array SlotId} (he : A.Performs .shrink) (hl : A.list h l)
      (hf : ∀ items, ∀ t ∈ f items, t ∈ items) : Change A h (h.modifyList l f)

/-- Changes of the heap, one after the other. -/
abbrev Changes (A : Access) : Heap → Heap → Prop :=
  Relation.ReflTransGen A.Change

/-- What may be in use leads only to what may be in use. -/
structure Closed (A : Access) (h : Heap) : Prop where
  get : ∀ {s : SlotId}, A.slot h s → A.Fits h (h.get s)
  items : ∀ {l : ListId} {s : SlotId}, A.list h l → s ∈ h.items l → A.slot h s

/-- A pass through a sequence that may be in use with a heap. -/
def FitsCursor (A : Access) (h : Heap) : Cursor → Prop
  | .list l _ => A.list h l
  | .ints _ _ => True

/-- What instructions may end with: if they return, the slot may be in use. -/
def FitsFlow (A : Access) (h : Heap) : Flow → Prop
  | .completed => True
  | .returned s => A.slot h s

/-- Work that may be done: its nodes may run, and its slots and lists may be in use. -/
def Permits (A : Access) (h : Heap) : Work → Prop
  | .value e | .slot e => A.node (.expr e)
  | .stmt s => A.node (.stmt s)
  | .values es | .slots es => ∀ e ∈ es, A.node (.expr e)
  | .named es => ∀ e ∈ es, A.node (.expr e.2)
  | .call target args kwargs =>
    A.node (.expr target) ∧ (∀ e ∈ args, A.node (.expr e)) ∧ ∀ e ∈ kwargs, A.node (.expr e.2)
  | .invoke f args kwargs => A.Code f.code ∧ (∀ s ∈ args, A.slot h s) ∧ ∀ b ∈ kwargs, A.slot h b.2
  | .block code => A.Code code
  | .cases choices default => (∀ c ∈ choices, A.node (.expr c.1) ∧ A.Code c.2) ∧ A.Code (default.getD [])
  | .pass _ code cursor => A.Code code ∧ A.FitsCursor h cursor

variable {A : Access} {h h' : Heap} {v index : Value}

/-- An expression that is evaluated in work that may be done may run. -/
theorem Permits.of_evaluates {w : Work} {e : Expr FuncId} (hw : A.Permits h w) (he : w.Evaluates e) : A.node (.expr e) := by
  cases w with
  | value | slot =>
    cases he
    exact hw
  | _ => cases he

/-- A scalar leads to no list and has no body, so it may be in use with any heap. -/
theorem Fits.of_isScalar (hv : v.IsScalar) : A.Fits h v := by
  cases v with
  | list | range | func => simp [Value.IsScalar, Value.type] at hv
  | _ => trivial

/-- A slot that is not there yet holds void, which may be in use. -/
theorem Fits.of_size_le {s : SlotId} (hs : h.slots.size ≤ s) : A.Fits h (h.get s) := by
  rw [Heap.get_of_size_le h hs]
  trivial

/-- Where all nodes may run and all lists may be in use, so may all values. -/
theorem Fits.of_all (hnode : ∀ n, A.node n) (hlist : ∀ l, A.list h l) (v : Value) : A.Fits h v := by
  induction v with
  | list l => exact hlist l
  | range a b iha ihb => exact ⟨iha, ihb⟩
  | func f => exact fun s _ => hnode (.stmt s)
  | _ => trivial

/-- A value may be in use with a second heap if the lists of the first one may be. -/
theorem Fits.mono (hv : A.Fits h v) (hlist : ∀ l, A.list h l → A.list h' l) : A.Fits h' v := by
  induction v with
  | list l => exact hlist l hv
  | range a b iha ihb => exact ⟨iha hv.1, ihb hv.2⟩
  | func f => exact hv
  | _ => trivial

/-- The list that an instruction works on may be in use if its operand may be. -/
theorem Fits.listFor {op : Operator} {l : ListId} (hv : A.Fits h v) (hl : v.listFor op = .ok l) : A.list h l := by
  cases v with
  | list l' =>
    cases hl
    exact hv
  | _ => cases hl

/-- A pass through a value may be in use if the value may be. -/
theorem Fits.cursor (hv : A.Fits h v) {cursor : Cursor} (hc : v.cursor = .ok cursor) : A.FitsCursor h cursor := by
  cases v with
  | list l =>
    cases hc
    exact hv
  | range a b =>
    obtain ⟨bounds, -, hc⟩ := Value.of_bind_eq_ok hc
    cases hc
    trivial
  | _ => cases hc

/-- What a pass through a sequence does to the heap. -/
theorem changes_next? {cursor : Cursor} {item : Option (SlotId × Cursor)} (hn : cursor.next? h = (item, h')) :
    A.Changes h h' := by
  cases cursor with
  | list l i =>
    cases hn
    exact .refl
  | ints n stop =>
    rw [Cursor.next?] at hn
    split at hn
    · cases hn
      exact .single (.alloc (v := .int n) trivial)
    · cases hn
      exact .refl

/-- To insert a slot that may be in use is one change under the regime. -/
theorem change_insert {s : SlotId} (he : A.Performs .grow) (hv : A.Fits h v) (hs : A.slot h s)
    (hi : Value.insert h v index s = .ok h') : A.Change h h' := by
  obtain ⟨l, hl, hi⟩ := Value.of_bind_eq_ok hi
  obtain ⟨i, -, hi⟩ := Value.of_bind_eq_ok hi
  unfold Heap.insert at hi
  dsimp only at hi
  split at hi
  · cases hi
    refine .grow he (hv.listFor hl) hs fun items t ht => ?_
    unfold Array.insertIdxIfInBounds at ht
    split at ht
    · exact Array.mem_insertIdx.mp ht
    · exact .inr ht
  · cases hi

/-- To remove an element is one change under the regime. -/
theorem change_remove (he : A.Performs .shrink) (hv : A.Fits h v) (hr : Value.remove h v index = .ok h') : A.Change h h' := by
  obtain ⟨l, hl, hr⟩ := Value.of_bind_eq_ok hr
  obtain ⟨i, -, hr⟩ := Value.of_bind_eq_ok hr
  obtain ⟨⟨removed, h'⟩, hremove, hr⟩ := Value.of_bind_eq_ok hr
  cases hr
  unfold Heap.remove at hremove
  dsimp only at hremove
  split at hremove
  · cases hremove
    refine .shrink he (hv.listFor hl) fun items t ht => ?_
    unfold Array.eraseIdxIfInBounds at ht
    split at ht
    · exact Array.mem_of_mem_eraseIdx ht
    · exact ht
  · cases hremove

/-- Slots and lists are never taken away. -/
theorem Change.size_le (hc : A.Change h h') : h.slots.size ≤ h'.slots.size ∧ h.lists.size ≤ h'.lists.size := by
  cases hc with
  | alloc => simp [Heap.alloc]
  | newList => simp [Heap.newList]
  | write => simp [Heap.set]
  | grow | shrink => simp [Heap.modifyList]

theorem Change.slot_lt (hc : A.Change h h') {s : SlotId} (hs : s < h.slots.size) : s < h'.slots.size :=
  Nat.lt_of_lt_of_le hs hc.size_le.1

/-- A change keeps a heap closed if what may be in use stays so, and if what comes into use is new. -/
theorem Closed.change (hclosed : A.Closed h) (hc : A.Change h h') (hslot : ∀ s, A.slot h s → A.slot h' s)
    (hlist : ∀ l, A.list h l → A.list h' l) (hnewSlot : ∀ s, A.slot h' s → A.slot h s ∨ h.slots.size ≤ s)
    (hnewList : ∀ l, A.list h' l → A.list h l ∨ h.lists.size ≤ l) : A.Closed h' := by
  have hget {s : SlotId} (hs : A.slot h' s) : A.Fits h' (h.get s) := by
    rcases hnewSlot s hs with hs | hs
    · exact (hclosed.get hs).mono hlist
    · exact (Fits.of_size_le hs).mono hlist
  have hitems {l : ListId} {s : SlotId} (hl : A.list h' l) (hs : s ∈ h.items l) : A.slot h' s := by
    rcases hnewList l hl with hl | hl
    · exact hslot s (hclosed.items hl hs)
    · exact absurd (Heap.lt_size_of_mem_items hs) (Nat.not_lt_of_ge hl)
  cases hc with
  | alloc hv =>
    refine ⟨fun {s} hs => ?_, hitems⟩
    rw [Heap.get_alloc]
    split
    · exact hv.mono hlist
    · exact hget hs
  | newList hnew =>
    refine ⟨hget, fun {l s} hl hs => ?_⟩
    rw [Heap.items_newList] at hs
    split at hs
    · exact hslot s (hnew s hs)
    · exact hitems hl hs
  | write _ _ hv =>
    refine ⟨fun {s} hs => ?_, hitems⟩
    rw [Heap.get_set]
    split
    · exact .of_isScalar (Value.isScalar_of_type hv)
    · exact hget hs
  | grow _ _ hnew hf =>
    refine ⟨hget, fun {l s} hl hs => ?_⟩
    rw [Heap.items_modifyList] at hs
    split at hs
    · rcases hf _ s hs with rfl | hs
      · exact hslot s hnew
      · exact hitems hl hs
    · exact hitems hl hs
  | shrink _ _ hf =>
    refine ⟨hget, fun {l s} hl hs => ?_⟩
    rw [Heap.items_modifyList] at hs
    split at hs
    · exact hitems hl (hf _ s hs)
    · exact hitems hl hs

/-- Some nodes may run, with the slots that there are and with some lists. -/
def present (node : Node FuncId → Prop) (list : Heap → ListId → Prop) : Access where
  node := node
  slot h s := s < h.slots.size
  list := list

/-- A choice of lists that takes in those that there are: a list that is chosen stays so while lists are made, and one that is
chosen later was chosen before or was made since. -/
structure TakesIn (list : Heap → ListId → Prop) : Prop where
  present : ∀ {h : Heap} {l : ListId}, l < h.lists.size → list h l
  stays : ∀ {h h' : Heap} {l : ListId}, h.lists.size ≤ h'.lists.size → list h l → list h' l
  made : ∀ {h h' : Heap} {l : ListId}, list h' l → list h l ∨ h.lists.size ≤ l

/-- Either all lists are chosen, whether there are any or not. -/
theorem takesIn_all : TakesIn fun _ _ => True :=
  ⟨fun _ => trivial, fun _ _ => trivial, fun _ => .inl trivial⟩

/-- Or those are chosen that there are. -/
theorem takesIn_existing : TakesIn fun h l => l < h.lists.size :=
  ⟨id, fun hle hl => Nat.lt_of_lt_of_le hl hle, fun {h} {_} {l} _ => Nat.lt_or_ge l h.lists.size⟩

end Access

/-- What may be in use while a program runs, and what is to hold of the heap at all times. -/
structure Regime extends Access where
  inv : Heap → Prop

namespace Regime

/-- The laws of a regime: what lies inside a node that may run may run too, what holds of the heap and what may be in use outlasts
each change, what is new may be in use, and what may be in use leads only to what may be. -/
structure Lawful (R : Regime) : Prop where
  child : ∀ {n c : Node FuncId}, R.node n → c ∈ n.children → R.node c
  inv : ∀ {h h' : Heap}, R.Change h h' → R.inv h → R.inv h'
  slot : ∀ {h h' : Heap} {s : SlotId}, R.Change h h' → R.slot h s → R.slot h' s
  list : ∀ {h h' : Heap} {l : ListId}, R.Change h h' → R.list h l → R.list h' l
  newSlot : ∀ {h : Heap} (v : Value), R.inv h → R.slot (h.alloc v).2 h.slots.size
  newList : ∀ {h : Heap} (items : Array SlotId), R.inv h → R.list (h.newList items).2 h.lists.size
  closed : ∀ {h : Heap}, R.inv h → R.Closed h

/-- Some nodes may run, with the slots that there are and with some lists, and what may be in use leads only to what may be. -/
def present (node : Node FuncId → Prop) (list : Heap → ListId → Prop) : Regime where
  toAccess := .present node list
  inv := (Access.present node list).Closed

/-- Where there is only what there is, a change brings nothing else. -/
theorem present_lawful {node : Node FuncId → Prop} {list : Heap → ListId → Prop}
    (hnode : ∀ {n c : Node FuncId}, node n → c ∈ n.children → node c) (hlist : Access.TakesIn list) :
    (present node list).Lawful where
  child := hnode
  inv {h h'} hc hh := by
    have hslot (s : SlotId) : s < h.slots.size ∨ h.slots.size ≤ s := Nat.lt_or_ge s _
    exact hh.change hc (fun _ => hc.slot_lt) (fun _ => hlist.stays hc.size_le.2) (fun s _ => hslot s) (fun _ => hlist.made)
  slot hc := hc.slot_lt
  list hc := hlist.stays hc.size_le.2
  newSlot {h} v _ := show h.slots.size < (h.alloc v).2.slots.size by simp [Heap.alloc]
  newList {h} items _ := hlist.present (by simp [Heap.newList])
  closed hh := hh

/-- At the start there is nothing that could lead anywhere. -/
theorem closed_present_empty {node : Node FuncId → Prop} {list : Heap → ListId → Prop} : (Access.present node list).Closed Heap.empty :=
  ⟨fun hs => absurd hs (Nat.not_lt_zero _), fun _ hs => absurd hs (Array.not_mem_empty _)⟩

variable {R : Regime}

namespace Lawful

variable {h h' : Heap}

/-- What holds of the heap at all times outlasts any number of changes. -/
theorem inv_changes (hR : R.Lawful) (hc : R.Changes h h') (hh : R.inv h) : R.inv h' := by
  induction hc with
  | refl => exact hh
  | tail _ hc ih => exact hR.inv hc ih

/-- A slot that may be in use may be so after any number of changes. -/
theorem slot_changes (hR : R.Lawful) (hc : R.Changes h h') {s : SlotId} (hs : R.slot h s) : R.slot h' s := by
  induction hc with
  | refl => exact hs
  | tail _ hc ih => exact hR.slot hc ih

/-- A list that may be in use may be so after any number of changes. -/
theorem list_changes (hR : R.Lawful) (hc : R.Changes h h') {l : ListId} (hl : R.list h l) : R.list h' l := by
  induction hc with
  | refl => exact hl
  | tail _ hc ih => exact hR.list hc ih

end Lawful

/-! ## States under a regime -/

/-- The regime holds of a state: of its heap, and of the slots that names are bound to. -/
structure Ready (R : Regime) (m : Machine) : Prop where
  heap : R.inv m.heap
  env : m.env.Within (R.slot m.heap)

/-- The regime holds of the second state, and its heap came from that of the first one by changes under the regime. -/
structure Later (R : Regime) (m m' : Machine) : Prop where
  ready : R.Ready m'
  changes : R.Changes m.heap m'.heap

theorem Ready.later {m : Machine} (hm : R.Ready m) : R.Later m m :=
  ⟨hm, .refl⟩

theorem Later.trans {m₁ m₂ m₃ : Machine} (h : R.Later m₁ m₂) (h' : R.Later m₂ m₃) : R.Later m₁ m₃ :=
  ⟨h'.ready, h.changes.trans h'.changes⟩

/-- The same environment after changes of the heap. -/
theorem Ready.change (hR : R.Lawful) {m : Machine} (hm : R.Ready m) {heap : Heap} (hc : R.Changes m.heap heap) :
    R.Later m { m with heap } :=
  ⟨⟨hR.inv_changes hc hm.heap, fun n s hs => hR.slot_changes hc (hm.env n s hs)⟩, hc⟩

/-- A step keeps to the regime from the state `m`, however it ends, and a result has the property `post` with the heap then. -/
structure Runs (R : Regime) {α : Type} (x : Exec α) (m : Machine) (post : α → Heap → Prop) : Prop where
  later : R.Later m (x.after m)
  result : ∀ a m', x m = .ok a m' → post a m'.heap

namespace Runs

open Exec

variable {α β : Type} {m : Machine} {P : α → Heap → Prop}

/-- One step after another keeps to the regime if the second one does from each state that the first one may end in. -/
theorem bind {x : Exec α} {f : α → Exec β} {Q : β → Heap → Prop} (hx : R.Runs x m P)
    (hf : ∀ a m', R.Later m m' → P a m'.heap → R.Runs (f a) m' Q) : R.Runs (x >>= f) m Q := by
  have hlater := hx.later
  cases hxm : x m with
  | error e m' =>
    rw [after, hxm] at hlater
    refine ⟨?_, fun b m'' h => ?_⟩
    · rw [after, bind_apply, hxm]
      exact hlater
    · rw [bind_apply, hxm] at h
      cases h
  | ok a m' =>
    rw [after, hxm] at hlater
    have hnext := hf a m' hlater (hx.result a m' hxm)
    have heq : (x >>= f) m = f a m' := by rw [bind_apply, hxm]
    refine ⟨?_, fun b m'' h => ?_⟩
    · rw [after, heq]
      exact hlater.trans hnext.later
    · rw [heq] at h
      exact hnext.result b m'' h

/-- A result stands in a later state. -/
theorem later_of_ok {x : Exec α} (hx : R.Runs x m P) {a : α} {m' : Machine} (h : x m = .ok a m') : R.Later m m' := by
  have hlater := hx.later
  rw [after, h] at hlater
  exact hlater

/-- A step that does the same as another one from a later state. -/
theorem of_eq {x y : Exec α} {m' : Machine} (hm : R.Later m m') (h : x m = y m') (hy : R.Runs y m' P) : R.Runs x m P := by
  refine ⟨?_, fun a m'' ha => ?_⟩
  · rw [after, h]
    exact hm.trans hy.later
  · rw [h] at ha
    exact hy.result a m'' ha

/-- The position of a failure does not matter to the regime. -/
theorem located {x : Exec α} (hx : R.Runs x m P) (span : Option Span) : R.Runs (located span x) m P := by
  have hlater := hx.later
  refine ⟨?_, fun a m' h => hx.result a m' ?_⟩
  · unfold after Exec.located at *
    cases hxm : x m with
    | ok a m' => simpa [hxm] using hlater
    | error e m' => cases e <;> simpa [hxm] using hlater
  · unfold Exec.located at h
    split at h
    · cases h
    · exact h

/-- A result with the property, and nothing else done. -/
theorem pure (hm : R.Ready m) {a : α} (ha : P a m.heap) : R.Runs (Pure.pure a) m P := by
  refine ⟨hm.later, fun a' m' h => ?_⟩
  cases h
  exact ha

theorem fault (hm : R.Ready m) (f : Fault) : R.Runs (fault f) m P :=
  ⟨hm.later, fun _ _ h => nomatch h⟩

theorem outOfFuel (hm : R.Ready m) : R.Runs (throw .outOfFuel) m P :=
  ⟨hm.later, fun _ _ h => nomatch h⟩

/-- A calculation leaves the state as it is, and its result is to have the property. -/
theorem lift (hm : R.Ready m) {r : Except Fault α} (h : ∀ a, r = .ok a → P a m.heap) : R.Runs (lift r) m P := by
  cases r with
  | ok a => exact pure hm (h a rfl)
  | error f => exact fault hm f

theorem look (hm : R.Ready m) {f : Heap → Except Fault α} (h : ∀ a, f m.heap = .ok a → P a m.heap) :
    R.Runs (look f) m P :=
  of_eq (y := Exec.lift (f m.heap)) hm.later rfl (lift hm h)

/-- A look at the state. -/
theorem get {f : Machine → Exec α} (h : R.Runs (f m) m P) : R.Runs (MonadState.get >>= f) m P :=
  ⟨h.later, h.result⟩

/-- What is read from a slot that may be in use may be in use. -/
theorem read (hR : R.Lawful) (hm : R.Ready m) {s : SlotId} (hs : R.slot m.heap s) :
    R.Runs (read s) m fun v h => R.Fits h v := by
  refine ⟨hm.later, fun v m' h => ?_⟩
  cases h
  exact (hR.closed hm.heap).get hs

/-- A name stands for a slot that may be in use. -/
theorem slotOf (hm : R.Ready m) (name : String) : R.Runs (slotOf name) m fun s h => R.slot h s := by
  cases hs : m.env.get? name with
  | some s => exact of_eq (y := Pure.pure s) hm.later (by simp only [Exec.slotOf, hs]; rfl) (pure hm (hm.env name s hs))
  | none => exact of_eq (y := Exec.fault (.variableNotFound name)) hm.later (by simp only [Exec.slotOf, hs]) (fault hm _)

theorem bindName (hm : R.Ready m) (name : String) {s : SlotId} (hs : R.slot m.heap s) :
    R.Runs (Exec.bind name s) m fun _ _ => True :=
  ⟨⟨⟨hm.heap, hm.env.bind name hs⟩, .refl⟩, fun _ _ _ => trivial⟩

/-- Changes under the regime, with a result that has the property afterwards. -/
theorem change (hR : R.Lawful) (hm : R.Ready m) {f : Heap → α × Heap} (hc : R.Changes m.heap (f m.heap).2)
    (h : P (f m.heap).1 (f m.heap).2) : R.Runs (change f) m P := by
  refine ⟨hm.change hR hc, fun a m' ha => ?_⟩
  cases ha
  exact h

/-- A new slot with a value that may be in use may be in use itself. -/
theorem alloc (hR : R.Lawful) (hm : R.Ready m) {v : Value} (hv : R.Fits m.heap v) :
    R.Runs (alloc v) m fun s h => R.slot h s :=
  change hR hm (.single (.alloc hv)) (hR.newSlot v hm.heap)

/-- An update keeps to the regime if the heap that it ends with came from changes under it. -/
theorem update (hR : R.Lawful) (hm : R.Ready m) {f : Heap → Except Fault Heap}
    (h : ∀ heap, f m.heap = .ok heap → R.Changes m.heap heap) : R.Runs (update f) m fun _ _ => True := by
  refine ⟨?_, fun _ _ _ => trivial⟩
  unfold after Exec.update
  cases hf : f m.heap with
  | ok heap => exact hm.change hR (h heap hf)
  | error e => exact hm.later

/-- A step that reads input or writes output. -/
theorem of_heap_env {x : Exec α} (hm : R.Ready m) (hheap : (x.after m).heap = m.heap) (henv : (x.after m).env = m.env)
    (h : ∀ a m', x m = .ok a m' → P a m'.heap) : R.Runs x m P := by
  refine ⟨⟨⟨?_, fun n s hs => ?_⟩, ?_⟩, h⟩
  · rw [hheap]
    exact hm.heap
  · rw [henv] at hs
    rw [hheap]
    exact hm.env n s hs
  · rw [hheap]

/-- Writing leaves heap and environment as they are, whether the stream takes the text or not. -/
theorem write (hm : R.Ready m) (text : String) : R.Runs (write text) m fun _ _ => True := by
  refine of_heap_env hm ?_ ((write_keeps text) m).env fun _ _ _ => trivial
  obtain ⟨env, heap, source, sink, depth⟩ := m
  unfold after Exec.write
  dsimp only
  rcases sink.write text with ⟨_ | message, sink'⟩ <;> rfl

theorem flush (hm : R.Ready m) : R.Runs flush m fun _ _ => True := by
  refine of_heap_env hm ?_ ((Keeps.flush (R := SameScope)) m).env fun _ _ _ => trivial
  unfold after Exec.flush
  cases m.sink.flushFault <;> rfl

/-- Reading a line leaves heap and environment as they are, whether the stream gives one or not. -/
theorem readLine (hm : R.Ready m) : R.Runs readLine m fun _ _ => True := by
  refine of_heap_env hm ?_ (readLine_keeps m).env fun _ _ _ => trivial
  unfold after Exec.readLine
  cases m.source.line? <;> rfl

/-- A step in an environment of its own, one call deeper. -/
theorem enter (hR : R.Lawful) (hm : R.Ready m) {x : Exec α} {env : Env}
    (hx : R.Runs x { m with env := env, depth := m.depth + 1 } P) : R.Runs (Interp.enter env x) m P := by
  have hlater := hx.later
  have hresult := hx.result
  obtain ⟨callerEnv, heap, source, sink, depth⟩ := m
  unfold after at hlater
  cases hxm : x ⟨env, heap, source, sink, depth + 1⟩ with
  | ok a m' =>
    rw [hxm] at hlater
    have heq : Interp.enter env x ⟨callerEnv, heap, source, sink, depth⟩ =
        .ok a { m' with env := callerEnv, depth := depth } := by
      simp only [Interp.enter, hxm]
    refine ⟨?_, fun b m'' h => ?_⟩
    · rw [after, heq]
      exact ⟨⟨hlater.ready.heap, fun n s hs => hR.slot_changes hlater.changes (hm.env n s hs)⟩, hlater.changes⟩
    · rw [heq] at h
      cases h
      exact hresult a m' hxm
  | error e m' =>
    rw [hxm] at hlater
    have heq : Interp.enter env x ⟨callerEnv, heap, source, sink, depth⟩ =
        .error e { m' with env := callerEnv, depth := depth } := by
      simp only [Interp.enter, hxm]
    refine ⟨?_, fun b m'' h => ?_⟩
    · rw [after, heq]
      exact ⟨⟨hlater.ready.heap, fun n s hs => hR.slot_changes hlater.changes (hm.env n s hs)⟩, hlater.changes⟩
    · rw [heq] at h
      cases h

end Runs

/-- An interpreter keeps to the regime where the node may run. -/
structure Obeys (R : Regime) (r : Interp) : Prop where
  expr : ∀ {e m}, R.Ready m → R.node (.expr e) → R.Runs (r.expr e) m fun v h => R.Fits h v
  slot : ∀ {e m}, R.Ready m → R.node (.expr e) → R.Runs (r.slot e) m fun s h => R.slot h s
  stmt : ∀ {s m}, R.Ready m → R.node (.stmt s) → R.Runs (r.stmt s) m fun flow h => R.FitsFlow h flow

namespace Lawful

variable {h h' : Heap}

/-- A value that may be in use may be so after any number of changes. -/
theorem fits_changes (hR : R.Lawful) (hc : R.Changes h h') {v : Value} (hv : R.Fits h v) : R.Fits h' v :=
  hv.mono fun _ hl => hR.list_changes hc hl

/-- Where a call may run, its parts may be worked on. -/
theorem permits_call (hR : R.Lawful) {span : Option Span} {target : Expr FuncId} {args : List (Expr FuncId)}
    {kwargs : List (String × Expr FuncId)} (he : R.node (.expr (.call span target args kwargs))) :
    R.Permits h (.call target args kwargs) := by
  refine ⟨hR.child he (.head _), fun x hx => hR.child he ?_, fun x hx => hR.child he ?_⟩
  · exact .tail _ (List.mem_append_left _ (List.mem_map_of_mem hx))
  · exact .tail _ (List.mem_append_right _ (List.mem_map_of_mem (f := fun kwarg => Node.expr kwarg.2) hx))

/-- Where a switch may run, its cases may be tried. -/
theorem permits_cases (hR : R.Lawful) {span : Option Span} {choices : List (Expr FuncId × Block FuncId)}
    {default : Option (Block FuncId)} (hs : R.node (.stmt (.switch span choices default))) :
    R.Permits h (.cases choices default) := by
  refine ⟨fun c hc => ⟨hR.child hs ?_, fun s' hs' => hR.child hs ?_⟩, fun s' hs' => hR.child hs ?_⟩
  · exact List.mem_append_left _ (List.mem_flatMap.mpr ⟨c, hc, .head _⟩)
  · exact List.mem_append_left _ (List.mem_flatMap.mpr ⟨c, hc, .tail _ (List.mem_map_of_mem hs')⟩)
  · exact List.mem_append_right _ (List.mem_map_of_mem hs')

/-- A pass that may be in use may be so after any number of changes. -/
theorem fitsCursor_changes (hR : R.Lawful) (hc : R.Changes h h') {cursor : Cursor} (hcursor : R.FitsCursor h cursor) :
    R.FitsCursor h' cursor := by
  cases cursor with
  | list l i => exact hR.list_changes hc hcursor
  | ints => trivial

/-- What a subscript takes out of a value that may be in use may be in use: it is in a slot of the list, or it is a scalar. -/
theorem fits_subscript (hR : R.Lawful) (hh : R.inv h) {v index w : Value} (hv : R.Fits h v)
    (hw : Value.subscript h v index = .ok w) : R.Fits h w := by
  rcases Value.subscript_cases hw with ⟨l, rfl, s, hs, rfl⟩ | hw
  · exact (hR.closed hh).get ((hR.closed hh).items hv hs)
  · exact .of_isScalar hw

/-- The next item of a pass may be in use, and so may what is left of the pass. -/
theorem fits_next? (hR : R.Lawful) (hh : R.inv h) {cursor next : Cursor} (hcursor : R.FitsCursor h cursor) {s : SlotId}
    (hn : cursor.next? h = (some (s, next), h')) : R.slot h' s ∧ R.FitsCursor h' next := by
  cases cursor with
  | list l i =>
    rw [Cursor.next?, Prod.mk.injEq, Option.map_eq_some_iff] at hn
    obtain ⟨⟨t, ht, heq⟩, rfl⟩ := hn
    cases heq
    exact ⟨(hR.closed hh).items hcursor (Array.mem_of_getElem? ht), hcursor⟩
  | ints n stop =>
    rw [Cursor.next?] at hn
    split at hn
    · cases hn
      exact ⟨hR.newSlot _ hh, trivial⟩
    · cases hn

/-- A loop binds its variable to the next item. -/
theorem later_next? (hR : R.Lawful) {m : Machine} (hm : R.Ready m) {cursor next : Cursor} (hcursor : R.FitsCursor m.heap cursor)
    {s : SlotId} {heap : Heap} (hn : cursor.next? m.heap = (some (s, next), heap)) (var : String) :
    R.Later m { m with heap, env := m.env.bind var s } := by
  have hchanges : R.Changes m.heap heap := Access.changes_next? hn
  have hready := (hm.change hR hchanges).ready
  exact ⟨⟨hready.heap, hready.env.bind var (hR.fits_next? hm.heap hcursor hn).1⟩, hchanges⟩

end Lawful

end Regime

/-! ## Operands are children -/

/-- The expressions whose values an expression needs are inside it. -/
theorem Expr.operands_mem_children {φ : Type} {e x : Expr φ} (hx : x ∈ e.operands) : .expr x ∈ (Node.expr e).children := by
  cases e with
  | input _ prompt => exact List.mem_map_of_mem hx
  | literal | getVar | list | func | call => cases hx
  | _ => simpa [Expr.operands, Node.children] using hx

/-- The expressions whose values an instruction needs are inside it. -/
theorem Stmt.operands_mem_children {φ : Type} {s : Stmt φ} {x : Expr φ} (hx : x ∈ s.operands) :
    .expr x ∈ (Node.stmt s).children := by
  cases s with
  | insert =>
    simp only [Stmt.operands, Node.children, List.mem_cons, List.not_mem_nil, or_false] at hx ⊢
    rcases hx with rfl | rfl
    · exact .inl rfl
    · exact .inr (.inl rfl)
  | setVar | compound | switch | ret => cases hx
  | _ =>
    simp only [Stmt.operands, List.mem_cons, List.not_mem_nil, or_false] at hx
    simp [Node.children, hx]

/-- The expression whose slot an instruction stores is inside it. -/
theorem Stmt.stored_mem_children {φ : Type} {s : Stmt φ} {x : Expr φ} (hx : s.stored = some x) :
    .expr x ∈ (Node.stmt s).children := by
  cases s with
  | setVar | append | insert | ret =>
    cases hx
    simp [Node.children]
  | _ => cases hx

end NodeScript
