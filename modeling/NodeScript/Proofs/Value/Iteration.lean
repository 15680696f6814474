import NodeScript.Proofs.Value.Heap
import NodeScript.Proofs.Value.Integer
import NodeScript.Value.Operation

/-!
# Going through a sequence while it changes

A pass through a list looks at the list as it is at each step, and between two steps anything may happen to it. A `Turn` is one
thing that happens while a pass is under way: the pass is asked for its next item, or the heap changes in one of the ways in which
it can. After any turns the pass stands at the place that has as many places before it as items were given, so that the next item
is the slot at that place then (`Pass.cursor_after_list`); as long as the list is only appended to, the items are the elements in
their order (`Pass.FollowsList`). A pass through a range gives the integers from its start up to its end, whatever else happens
(`Pass.CountsThrough`), and these are the values of its subscripts (`Value.Iterates`).
-/

namespace NodeScript

/-! ## Passes that are under way -/

/-- A change of the heap. -/
inductive Edit where
  | append (l : ListId) (s : SlotId)
  | insert (l : ListId) (index : Int64) (s : SlotId)
  | remove (l : ListId) (index : Int64)
  | newList (items : Array SlotId)
  | alloc (v : Value)
  | write (s : SlotId) (v : Value)

/-- The heap after a change. One that fails changes nothing. -/
def Edit.apply (h : Heap) : Edit → Heap
  | append l s => h.append l s
  | insert l index s => (h.insert l index s).toOption.getD h
  | remove l index => ((h.remove l index).map Prod.snd).toOption.getD h
  | newList items => (h.newList items).2
  | alloc v => (h.alloc v).2
  | write s v => h.set s v

/-- What can happen while a pass is under way: the pass is asked for its next item, or the heap changes. -/
inductive Turn where
  | next
  | edit (e : Edit)

/-- A pass that is under way: the heap, where the pass stands, and the items it has given, the first one first, each with the value
that its slot held then. -/
structure Pass where
  heap : Heap
  cursor : Cursor
  given : List (SlotId × Value)

namespace Pass

/-- A pass before its first item. -/
def start (h : Heap) (cursor : Cursor) : Pass := ⟨h, cursor, []⟩

/-- The pass is asked for its next item. -/
def ask (p : Pass) : Pass :=
  match p.cursor.next? p.heap with
  | (some (s, cursor), heap) => ⟨heap, cursor, p.given ++ [(s, heap.get s)]⟩
  | (none, heap) => { p with heap }

def turn (p : Pass) : Turn → Pass
  | .next => p.ask
  | .edit e => { p with heap := e.apply p.heap }

/-- The pass after some turns. -/
def after (p : Pass) (turns : List Turn) : Pass :=
  turns.foldl turn p

theorem after_concat (p : Pass) (turns : List Turn) (t : Turn) : p.after (turns ++ [t]) = (p.after turns).turn t := by
  simp [after]

/-- What each turn keeps, all of them keep. -/
theorem after_induction {P : Pass → Prop} {turns : List Turn} {p : Pass} (hp : P p)
    (hturn : ∀ t ∈ turns, ∀ p, P p → P (p.turn t)) : P (p.after turns) := by
  induction turns generalizing p with
  | nil => exact hp
  | cons t rest ih =>
    have hfirst : P (p.turn t) := hturn t (.head _) p hp
    exact ih hfirst fun t' ht' => hturn t' (.tail _ ht')

/-- A pass that is asked and has an item gives it, and one that has none stays as it is. -/
theorem ask_of_some {p : Pass} {s : SlotId} {cursor : Cursor} {heap : Heap}
    (h : p.cursor.next? p.heap = (some (s, cursor), heap)) : p.ask = ⟨heap, cursor, p.given ++ [(s, heap.get s)]⟩ := by
  rw [ask, h]

theorem ask_of_none {p : Pass} {heap : Heap} (h : p.cursor.next? p.heap = (none, heap)) : p.ask = { p with heap } := by
  rw [ask, h]

/-- What a pass has given stays given. -/
theorem given_prefix_turn (p : Pass) (t : Turn) : p.given <+: (p.turn t).given := by
  cases t with
  | next =>
    rw [turn, ask]
    split
    · exact List.prefix_append _ _
    · exact List.prefix_rfl
  | edit e => exact List.prefix_rfl

theorem given_prefix_after (p : Pass) (turns : List Turn) : p.given <+: (p.after turns).given :=
  after_induction (P := fun q => p.given <+: q.given) List.prefix_rfl fun t _ q hq => hq.trans (given_prefix_turn q t)

/-- Each item was given at a moment of its own, when the pass was asked and as many items had been given as come before it. -/
theorem asked_of_given {turns : List Turn} {p : Pass} {k : Nat} {item : SlotId × Value} (hk : p.given.length ≤ k)
    (hitem : (p.after turns).given[k]? = some item) :
    ∃ before rest, turns = before ++ .next :: rest ∧ (p.after before).given.length = k ∧
      ∃ cursor heap, (p.after before).cursor.next? (p.after before).heap = (some (item.1, cursor), heap) ∧
        item.2 = heap.get item.1 := by
  induction turns generalizing p with
  | nil =>
    have hnone : (p.after []).given[k]? = none := List.getElem?_eq_none hk
    rw [hnone] at hitem
    cases hitem
  | cons t rest ih =>
    by_cases hlater : (p.turn t).given.length ≤ k
    · obtain ⟨before, rest', hsplit, hlength, hasked⟩ := ih hlater hitem
      exact ⟨t :: before, rest', by rw [hsplit, List.cons_append], hlength, hasked⟩
    · -- the turn itself gave the item, which is the last one that was given then
      have hitem' : (p.turn t).given[k]? = some item := by
        obtain ⟨later, hlater'⟩ := given_prefix_after (p.turn t) rest
        rw [← hitem, after, List.foldl_cons, ← after, ← hlater', List.getElem?_append_left (by omega)]
      refine ⟨[], rest, ?_⟩
      cases t with
      | edit e => exact absurd hk hlater
      | next =>
        rw [turn] at hitem' hlater
        cases hnext : p.cursor.next? p.heap with
        | mk found heap =>
          cases found with
          | none =>
            rw [ask_of_none hnext] at hlater
            exact absurd hk hlater
          | some found =>
            obtain ⟨s, cursor⟩ := found
            rw [ask_of_some hnext] at hitem' hlater
            rw [List.length_append, List.length_singleton] at hlater
            obtain rfl : k = p.given.length := by omega
            rw [List.getElem?_concat_length, Option.some.injEq] at hitem'
            subst hitem'
            exact ⟨rfl, rfl, cursor, heap, hnext, rfl⟩

/-! ## Lists -/

section

variable {l : ListId} {p : Pass}

/-- The next item of a pass through a list is the slot at its place, if there is one. -/
theorem next?_list {i : Nat} (h : Heap) :
    (Cursor.list l i).next? h = ((h.items l)[i]?.map fun s => (s, .list l (i + 1)), h) := rfl

/-- A pass through a list that is asked takes the slot at its place along, if there is one. -/
theorem ask_list (hp : p.cursor = .list l p.given.length) :
    (p.heap.items l)[p.given.length]? = none ∧ p.ask = p ∨
      ∃ s, (p.heap.items l)[p.given.length]? = some s ∧
        p.ask = ⟨p.heap, .list l (p.given.length + 1), p.given ++ [(s, p.heap.get s)]⟩ := by
  have hnext := next?_list (l := l) (i := p.given.length) p.heap
  rw [← hp] at hnext
  cases hs : (p.heap.items l)[p.given.length]? with
  | none =>
    rw [hs, Option.map_none] at hnext
    exact .inl ⟨rfl, ask_of_none hnext⟩
  | some s =>
    rw [hs, Option.map_some] at hnext
    exact .inr ⟨s, rfl, ask_of_some hnext⟩

/-- The place of a pass through a list is the number of the items that it has given. -/
theorem cursor_turn_list (hp : p.cursor = .list l p.given.length) (t : Turn) :
    (p.turn t).cursor = .list l (p.turn t).given.length := by
  cases t with
  | next =>
    rw [turn]
    rcases ask_list hp with ⟨-, hask⟩ | ⟨s, -, hask⟩
    · rw [hask, hp]
    · rw [hask, List.length_append, List.length_singleton]
  | edit e => exact hp

/-- After any turns the pass stands at the place that has as many places before it as items were given. -/
theorem cursor_after_list (h : Heap) (l : ListId) (turns : List Turn) :
    ((start h (.list l 0)).after turns).cursor = .list l ((start h (.list l 0)).after turns).given.length :=
  after_induction (P := fun p => p.cursor = .list l p.given.length) rfl fun t _ _ hp => cursor_turn_list hp t

end

end Pass

/-! ## Lists that are only appended to -/

/-- The change may append to the list, but puts nothing into it elsewhere and takes nothing out. -/
def Edit.OnlyAppends (l : ListId) : Edit → Prop
  | insert l' _ _ | remove l' _ => l' ≠ l
  | _ => True

/-- The slots that a change appends to the list. -/
def Edit.appended (l : ListId) : Edit → List SlotId
  | append l' s => if l' = l then [s] else []
  | _ => []

/-- A list that is only appended to keeps its elements, and what is appended comes after them. -/
theorem Edit.OnlyAppends.items_apply {l : ListId} {e : Edit} (he : e.OnlyAppends l) {h : Heap} (hl : l < h.lists.size) :
    ((e.apply h).items l).toList = (h.items l).toList ++ e.appended l ∧ l < (e.apply h).lists.size := by
  cases e with
  | append l' s =>
    refine ⟨?_, by simpa [apply, Heap.append, Heap.modifyList] using hl⟩
    rw [apply, Heap.append, Heap.items_modifyList, appended]
    by_cases h : l' = l
    · simp [h, hl]
    · simp [h]
  | insert l' index s =>
    simp only [apply, appended, List.append_nil]
    cases hi : h.insert l' index s with
    | error f => exact ⟨rfl, hl⟩
    | ok h' =>
      obtain ⟨i, hgap, rfl⟩ := Heap.insert_eq_ok hi
      refine ⟨?_, by simpa [Except.toOption, Heap.modifyList] using hl⟩
      simp [Except.toOption, Heap.items_modifyList, show l' ≠ l from he]
  | remove l' index =>
    simp only [apply, appended, List.append_nil]
    cases hr : h.remove l' index with
    | error f => exact ⟨rfl, hl⟩
    | ok found =>
      obtain ⟨v, h'⟩ := found
      obtain ⟨i, hplace, rfl⟩ := Heap.remove_eq_ok hr
      refine ⟨?_, by simpa [Except.map, Except.toOption, Heap.modifyList] using hl⟩
      simp [Except.map, Except.toOption, Heap.items_modifyList, show l' ≠ l from he]
  | newList items =>
    refine ⟨?_, by simpa [apply, Heap.newList] using Nat.lt_succ_of_lt hl⟩
    simp only [apply, appended, List.append_nil, Heap.items_newList, if_neg (Nat.ne_of_lt hl)]
  | alloc v => exact ⟨(List.append_nil _).symm, hl⟩
  | write s v => exact ⟨(List.append_nil _).symm, hl⟩

/-- The turn may append to the list, but puts nothing into it elsewhere and takes nothing out. -/
def Turn.OnlyAppends (l : ListId) : Turn → Prop
  | next => True
  | edit e => e.OnlyAppends l

/-- The slots that turns append to the list, in order. -/
def Turn.appended (l : ListId) (turns : List Turn) : List SlotId :=
  turns.flatMap fun
    | next => []
    | edit e => e.appended l

namespace Pass

variable {l : ListId} {p : Pass}

/-- The items that a pass through a list has given are the first elements of the list, in their order. -/
structure FollowsList (l : ListId) (p : Pass) : Prop where
  cursor : p.cursor = .list l p.given.length
  given : p.given.map Prod.fst = (p.heap.items l).toList.take p.given.length
  lt_size : l < p.heap.lists.size

/-- There are at least as many elements as were given. -/
theorem FollowsList.length_le (hp : p.FollowsList l) : p.given.length ≤ (p.heap.items l).toList.length := by
  have hlength := congrArg List.length hp.given
  rw [List.length_map, List.length_take] at hlength
  omega

/-- A turn that only appends keeps what was given the first elements; one that asks gives the next of them. -/
theorem FollowsList.turn (hp : p.FollowsList l) {t : Turn} (ht : t.OnlyAppends l) :
    (p.turn t).FollowsList l ∧ ((p.turn t).heap.items l).toList = (p.heap.items l).toList ++ Turn.appended l [t] := by
  cases t with
  | next =>
    rw [Pass.turn]
    rcases ask_list hp.cursor with ⟨-, hask⟩ | ⟨s, hs, hask⟩
    · rw [hask]
      exact ⟨hp, (List.append_nil _).symm⟩
    · rw [hask]
      refine ⟨⟨?_, ?_, hp.lt_size⟩, (List.append_nil _).symm⟩
      · rw [List.length_append, List.length_singleton]
      · rw [← Array.getElem?_toList] at hs
        simp [hp.given, List.take_add_one, hs]
  | edit e =>
    obtain ⟨hitems, hl⟩ := Edit.OnlyAppends.items_apply ht hp.lt_size
    have happended : Turn.appended l [.edit e] = e.appended l := List.append_nil _
    refine ⟨⟨hp.cursor, ?_, hl⟩, ?_⟩
    · rw [Pass.turn, hitems, List.take_append_of_le_length hp.length_le]
      exact hp.given
    · rw [happended]
      exact hitems

/-- Turns that only append keep what was given the first elements, and what they append comes behind. -/
theorem FollowsList.after (hp : p.FollowsList l) {turns : List Turn} (ht : ∀ t ∈ turns, t.OnlyAppends l) :
    (p.after turns).FollowsList l ∧
      ((p.after turns).heap.items l).toList = (p.heap.items l).toList ++ Turn.appended l turns := by
  induction turns generalizing p with
  | nil => exact ⟨hp, (List.append_nil _).symm⟩
  | cons t rest ih =>
    obtain ⟨hturn, hitems⟩ := hp.turn (ht t (.head _))
    obtain ⟨hrest, hitems'⟩ := ih hturn fun t' ht' => ht t' (.tail _ ht')
    have hcons : Turn.appended l (t :: rest) = Turn.appended l [t] ++ Turn.appended l rest := by simp [Turn.appended]
    refine ⟨hrest, ?_⟩
    rw [hcons, ← List.append_assoc, ← hitems]
    exact hitems'

/-- A pass that has nothing left has given all elements that there are. -/
theorem FollowsList.given_of_next?_none (hp : p.FollowsList l) (hnone : (p.cursor.next? p.heap).1 = none) :
    p.given.map Prod.fst = (p.heap.items l).toList := by
  rw [hp.cursor, next?_list, Option.map_eq_none_iff, Array.getElem?_eq_none_iff] at hnone
  rw [hp.given, List.take_of_length_le]
  simpa using hnone

end Pass

/-! ## Ranges -/

namespace Pass

variable {a b : Int64} {p : Pass}

/-- The items that a pass has given are the integers from the one bound on, as far as the pass has come, and never past the other
bound. -/
structure CountsThrough (a b : Int64) (p : Pass) : Prop where
  cursor : ∃ n, p.cursor = .ints n b ∧ n.toInt = a.toInt + p.given.length
  given : ∀ (k : Nat) item, p.given[k]? = some item → ∃ n, item.2 = .int n ∧ n.toInt = a.toInt + k
  length_le : p.given.length ≤ (b.toInt - a.toInt).toNat

/-- The integer after one that is below a bound is the next one: it does not overflow. -/
theorem toInt_succ_of_lt {n : Int64} (h : n < b) : (n + 1).toInt = n.toInt + 1 := by
  have hlt := Int64.lt_iff_toInt_lt.mp h
  have hmin := n.le_toInt
  have hmax := b.toInt_lt
  have hfits : FitsInt64 (n.toInt + (1 : Int64).toInt) := by
    rw [Int64.toInt_one]
    constructor <;> omega
  rw [toInt_add_of_fits hfits, Int64.toInt_one]

/-- As long as it has given fewer integers than there are, the pass has another one, in a new slot. -/
theorem CountsThrough.next?_of_lt (hp : p.CountsThrough a b) (hlt : p.given.length < (b.toInt - a.toInt).toNat) :
    ∃ n n' : Int64, p.cursor.next? p.heap = (some (p.heap.slots.size, .ints n' b), (p.heap.alloc (.int n)).2) ∧
      n.toInt = a.toInt + p.given.length ∧ n'.toInt = n.toInt + 1 := by
  obtain ⟨n, hcursor, hn⟩ := hp.cursor
  have hbelow : n < b := Int64.lt_iff_toInt_lt.mpr (by omega)
  refine ⟨n, n + 1, ?_, hn, toInt_succ_of_lt hbelow⟩
  rw [hcursor, Cursor.next?, if_pos hbelow]
  rfl

/-- A pass that has given all integers has none left. -/
theorem CountsThrough.next?_of_ge (hp : p.CountsThrough a b) (hge : (b.toInt - a.toInt).toNat ≤ p.given.length) :
    p.cursor.next? p.heap = (none, p.heap) := by
  obtain ⟨n, hcursor, hn⟩ := hp.cursor
  have hnot : ¬n < b := fun h => by
    have hlt := Int64.lt_iff_toInt_lt.mp h
    omega
  rw [hcursor, Cursor.next?, if_neg hnot]

/-- A pass that is asked gives one more integer, unless it has given all of them. -/
theorem CountsThrough.ask (hp : p.CountsThrough a b) :
    p.ask.CountsThrough a b ∧ p.ask.given.length = min (p.given.length + 1) (b.toInt - a.toInt).toNat := by
  by_cases hlt : p.given.length < (b.toInt - a.toInt).toNat
  · obtain ⟨n, n', hnext, hn, hn'⟩ := hp.next?_of_lt hlt
    have hlength : (p.given ++ [(p.heap.slots.size, Value.int n)]).length = p.given.length + 1 := List.length_append
    rw [ask_of_some hnext, Heap.get_alloc, if_pos rfl]
    refine ⟨⟨⟨n', rfl, by rw [hlength]; omega⟩, fun k item hk => ?_, by rw [hlength]; exact hlt⟩, by rw [hlength]; omega⟩
    by_cases hold : k < p.given.length
    · rw [List.getElem?_append_left hold] at hk
      exact hp.given k item hk
    · rw [List.getElem?_append_right (by omega), List.getElem?_singleton, Option.ite_none_right_eq_some] at hk
      obtain ⟨hzero, hitem⟩ := hk
      cases hitem
      exact ⟨n, rfl, by omega⟩
  · have hdone := hp.length_le
    rw [ask_of_none (hp.next?_of_ge (by omega))]
    exact ⟨hp, show p.given.length = _ by omega⟩

/-- Neither asking nor a change of the heap takes the pass off its count. -/
theorem CountsThrough.turn (hp : p.CountsThrough a b) (t : Turn) : (p.turn t).CountsThrough a b := by
  cases t with
  | next => exact hp.ask.1
  | edit e => exact ⟨hp.cursor, hp.given, hp.length_le⟩

/-- After any turns a pass through a range has given the integers from its start on. -/
theorem countsThrough_after (h : Heap) (a b : Int64) (turns : List Turn) :
    ((start h (.ints a b)).after turns).CountsThrough a b := by
  refine after_induction ⟨⟨a, rfl, by simp [start]⟩, fun k item hk => ?_, by simp [start]⟩ fun t _ p hp => hp.turn t
  simp [start] at hk

/-- A pass that is asked again and again gives an integer each time, as long as there are any. -/
theorem length_given_replicate_next (h : Heap) (a b : Int64) (n : Nat) :
    ((start h (.ints a b)).after (List.replicate n .next)).given.length = min n (b.toInt - a.toInt).toNat := by
  induction n with
  | zero => rfl
  | succ n ih =>
    have hask := (countsThrough_after h a b (List.replicate n .next)).ask.2
    rw [List.replicate_succ', after_concat, turn, hask, ih]
    omega

/-- The values that the pass has given are the first ones of the integers between the bounds. -/
theorem CountsThrough.map_given (hp : p.CountsThrough a b) :
    p.given.map Prod.snd = ((intsFrom a b).take p.given.length).map .int := by
  apply List.ext_getElem?
  intro k
  have hle := hp.length_le
  by_cases hk : k < p.given.length
  · obtain ⟨n, hvalue, hn⟩ := hp.given k _ (List.getElem?_eq_getElem hk)
    have hn' : Int64.ofInt (a.toInt + k) = n := by rw [← hn, Int64.ofInt_toInt]
    have hint : (intsFrom a b)[k]? = some n := by
      rw [intsFrom, List.getElem?_map, List.getElem?_range (by omega), Option.map_some, hn']
    rw [List.getElem?_map, List.getElem?_eq_getElem hk, Option.map_some, hvalue, List.getElem?_map,
      List.getElem?_take_of_lt hk, hint, Option.map_some]
  · rw [List.getElem?_eq_none (by simp; omega), List.getElem?_eq_none (by simp; omega)]

end Pass

/-- There are as many integers between two bounds as their difference says, and none if they are the wrong way round. -/
theorem length_intsFrom (a b : Int64) : (intsFrom a b).length = (b.toInt - a.toInt).toNat := by
  simp [intsFrom]

/-- A pass gives each item once and in order, whatever happens between its steps. Of a range these are the integers from its start
up to its end, each one in a slot that is new then, and the step from one integer to the next does not overflow. The item of a list
that comes after `k` others is the slot that is at the place `k` when the pass is asked for it. While the list is only appended to,
the items are its elements in their order, and when there is no item left, all elements have been given, those that were appended
too. A slot is put into a list and taken out of it within its bounds. -/
theorem passes_give_items_in_order (h : Heap) (turns : List Turn) :
    (∀ a b : Int64, (Value.range (.int a) (.int b)).cursor = .ok (.ints a b) ∧
      let p := (Pass.start h (.ints a b)).after turns
      p.CountsThrough a b ∧
      (p.given.length < (b.toInt - a.toInt).toNat → ∃ n n' : Int64,
        p.cursor.next? p.heap = (some (p.heap.slots.size, .ints n' b), (p.heap.alloc (.int n)).2) ∧
          n.toInt = a.toInt + p.given.length ∧ n'.toInt = n.toInt + 1) ∧
      ((b.toInt - a.toInt).toNat ≤ p.given.length → p.cursor.next? p.heap = (none, p.heap))) ∧
    (∀ l : ListId, (Value.list l).cursor = .ok (.list l 0) ∧
      let p := (Pass.start h (.list l 0)).after turns
      p.cursor.next? p.heap =
        ((p.heap.items l)[p.given.length]?.map fun s => (s, .list l (p.given.length + 1)), p.heap) ∧
      (∀ k item, p.given[k]? = some item → ∃ before, before ++ [.next] <+: turns ∧
        let q := (Pass.start h (.list l 0)).after before
        q.given.length = k ∧ (q.heap.items l)[k]? = some item.1) ∧
      (l < h.lists.size → (∀ t ∈ turns, t.OnlyAppends l) →
        (p.heap.items l).toList = (h.items l).toList ++ Turn.appended l turns ∧
        p.given.map Prod.fst = (p.heap.items l).toList.take p.given.length ∧
        ((p.cursor.next? p.heap).1 = none → p.given.map Prod.fst = (p.heap.items l).toList))) ∧
    ∀ (cursor : Cursor) (l : ListId) (index : Int64), let p := (Pass.start h cursor).after turns
      (∀ s h', p.heap.insert l index s = .ok h' → ∃ (i : Nat) (hle : i ≤ (p.heap.items l).size),
        h' = p.heap.modifyList l fun _ => (p.heap.items l).insertIdx i s hle) ∧
      ∀ v h', p.heap.remove l index = .ok (v, h') → ∃ (i : Nat) (hlt : i < (p.heap.items l).size),
        h' = p.heap.modifyList l fun _ => (p.heap.items l).eraseIdx i hlt := by
  refine ⟨fun a b => ⟨rfl, ?_⟩, fun l => ⟨rfl, ?_⟩, fun cursor l index => ⟨fun s h' hi => ?_, fun v h' hr => ?_⟩⟩
  · have hcounts := Pass.countsThrough_after h a b turns
    exact ⟨hcounts, hcounts.next?_of_lt, hcounts.next?_of_ge⟩
  · have hcursor := Pass.cursor_after_list h l
    refine ⟨by rw [hcursor, Pass.next?_list], fun k item hk => ?_, fun hl ht => ?_⟩
    · obtain ⟨before, rest, hsplit, hlength, cursor, heap, hnext, -⟩ := Pass.asked_of_given (Nat.zero_le k) hk
      refine ⟨before, ⟨rest, by rw [hsplit]; simp⟩, hlength, ?_⟩
      rw [hcursor, hlength, Pass.next?_list, Prod.mk.injEq] at hnext
      obtain ⟨s, hs, heq⟩ := Option.map_eq_some_iff.mp hnext.1
      cases heq
      exact hs
    · have hstart : (Pass.start h (.list l 0)).FollowsList l := ⟨rfl, rfl, hl⟩
      obtain ⟨hfollows, hitems⟩ := hstart.after ht
      exact ⟨hitems, hfollows.given, hfollows.given_of_next?_none⟩
  · obtain ⟨i, hgap, heq⟩ := Heap.insert_eq_ok hi
    exact ⟨i, le_of_gap? hgap, heq⟩
  · obtain ⟨i, hplace, heq⟩ := Heap.remove_eq_ok hr
    exact ⟨i, lt_of_place? hplace, heq⟩

/-- A list is appended to while a pass is under way, and the pass comes to the new element too. A pass through the two largest
integers but one has given both of them, and stands at the largest. -/
theorem passes_give_appended_element_and_last_integers :
    let h : Heap := ⟨#[.int 7, .int 8], #[#[0]]⟩
    let turns : List Turn := [.next, .edit (.append 0 1), .next]
    let p := (Pass.start h (.list 0 0)).after turns
    let q := (Pass.start h (.ints 9223372036854775805 9223372036854775807)).after turns
    (p.cursor.next? p.heap).1 = none ∧ p.given.map Prod.fst = [0, 1] ∧
    q.given = [(2, .int 9223372036854775805), (3, .int 9223372036854775806)] ∧
      q.cursor.next? q.heap = (none, q.heap) := by
  intro h turns p q
  obtain ⟨hranges, hlists, -⟩ := passes_give_items_in_order h turns
  have hnone : (p.cursor.next? p.heap).1 = none := rfl
  have hturns : ∀ t ∈ turns, t.OnlyAppends 0 := by simp [turns, Turn.OnlyAppends, Edit.OnlyAppends]
  refine ⟨hnone, ?_, rfl, (hranges _ _).2.2.2 (by decide)⟩
  exact ((hlists 0).2.2.2 (by decide) hturns).2.2 hnone

/-! ## Subscripts of ranges -/

namespace Value

/-- The values are those that a pass through the value gives, from the first one to the last one, when nothing else happens. -/
def Iterates (h : Heap) (v : Value) (xs : List Value) : Prop :=
  ∃ cursor, v.cursor = .ok cursor ∧
    let p := (Pass.start h cursor).after (List.replicate xs.length .next)
    p.given.map Prod.snd = xs ∧ (p.cursor.next? p.heap).1 = none

variable {start stop : Value}

/-- A range with integer bounds is gone through from the one to the other. -/
theorem cursor_range {a b : Int64} (ha : start.bound? = some a) (hb : stop.bound? = some b) :
    (range start stop).cursor = .ok (.ints a b) := by
  simp only [cursor, bounds, ha, hb]
  rfl

/-- A range can be gone through only if both of its bounds are integers. -/
theorem bounds_of_cursor_range {c : Cursor} (hc : (range start stop).cursor = .ok c) :
    ∃ a b, start.bound? = some a ∧ stop.bound? = some b := by
  simp only [cursor, bounds] at hc
  cases ha : start.bound? with
  | none =>
    rw [ha] at hc
    cases hc
  | some a =>
    cases hb : stop.bound? with
    | none =>
      rw [ha, hb] at hc
      cases hc
    | some b => exact ⟨a, b, rfl, rfl⟩

/-- The items of a range are the integers between its bounds. -/
theorem iterates_range_iff {a b : Int64} (ha : start.bound? = some a) (hb : stop.bound? = some b) {h : Heap} {xs : List Value} :
    (range start stop).Iterates h xs ↔ xs = (intsFrom a b).map .int := by
  have hcounts := Pass.countsThrough_after h a b (List.replicate xs.length .next)
  have hlength := Pass.length_given_replicate_next h a b xs.length
  have hints := length_intsFrom a b
  constructor
  · rintro ⟨cursor, hcursor, hgiven, hnone⟩
    rw [cursor_range ha hb, Except.ok.injEq] at hcursor
    subst hcursor
    -- a pass that has nothing left has given all of the integers
    have hall : (b.toInt - a.toInt).toNat ≤ xs.length := by
      by_contra hlt
      obtain ⟨n, n', hnext, -⟩ := hcounts.next?_of_lt (by omega)
      rw [hnext] at hnone
      cases hnone
    rw [← hgiven, hcounts.map_given, List.take_of_length_le (by omega)]
  · intro hxs
    have hsize : xs.length = (b.toInt - a.toInt).toNat := by rw [hxs, List.length_map, hints]
    refine ⟨.ints a b, cursor_range ha hb, ?_, ?_⟩
    · rw [hcounts.map_given, List.take_of_length_le (by omega), hxs]
    · rw [hcounts.next?_of_ge (by omega)]

/-- The sum of the start and an offset within the range is the item at the offset. -/
theorem subscript_range_int {h : Heap} {a b k n : Int64} (hk : 0 ≤ k.toInt) (hn : (intsFrom a b)[k.toInt.toNat]? = some n) :
    subscript h (range (.int a) stop) (.int k) = .ok (.int n) := by
  have hlt : k.toInt.toNat < (b.toInt - a.toInt).toNat := by
    obtain ⟨hlt, -⟩ := List.getElem?_eq_some_iff.mp hn
    rwa [length_intsFrom] at hlt
  have hmin := a.le_toInt
  have hmax := b.toInt_lt
  obtain ⟨r, hr, hvalue⟩ := (intArith_add a k).1 ⟨by omega, by omega⟩
  rw [intsFrom, List.getElem?_map, List.getElem?_range hlt, Option.map_some, Int.toNat_of_nonneg hk, ← hvalue,
    Int64.ofInt_toInt, Option.some.injEq] at hn
  simp only [subscript, arith, hr, hn]
  rfl

/-- Only integers and truth values are bounds. -/
theorem int_or_bool_of_bound? {v : Value} {a : Int64} (ha : v.bound? = some a) : v = .int a ∨ ∃ b, v = .bool b := by
  cases v with
  | int n => exact .inl (by rw [Option.some.inj ha])
  | bool b => exact .inr ⟨b, rfl⟩
  | float | string | list | range | func | void => cases ha

end Value

/-- A range that can be gone through has its items, and a subscript by a place among them gives the item there, if the start of the
range is an integer. A start that is a truth value counts as an integer when the range is gone through, but is no summand, so that
each subscript fails. -/
theorem range_subscript_gives_item (h : Heap) (start stop : Value) :
    (∀ cursor, (Value.range start stop).cursor = .ok cursor → ∃! xs, (Value.range start stop).Iterates h xs) ∧
    ∀ xs, (Value.range start stop).Iterates h xs →
      ∀ (h' : Heap) (k : Int64) (x : Value), 0 ≤ k.toInt → xs[k.toInt.toNat]? = some x →
        (∃ a, start = .int a) ∧ Value.subscript h' (.range start stop) (.int k) = .ok x ∨
        (∃ b, start = .bool b) ∧
          Value.subscript h' (.range start stop) (.int k) = .error (.mismatch (.operands .add .bool .int)) := by
  constructor
  · intro cursor hcursor
    obtain ⟨a, b, ha, hb⟩ := Value.bounds_of_cursor_range hcursor
    exact ⟨(intsFrom a b).map .int, (Value.iterates_range_iff ha hb).mpr rfl, fun ys => (Value.iterates_range_iff ha hb).mp⟩
  · intro xs hxs h' k x hk hx
    obtain ⟨cursor, hcursor, -⟩ := id hxs
    obtain ⟨a, b, ha, hb⟩ := Value.bounds_of_cursor_range hcursor
    rw [(Value.iterates_range_iff ha hb).mp hxs, List.getElem?_map] at hx
    obtain ⟨n, hn, rfl⟩ := Option.map_eq_some_iff.mp hx
    rcases Value.int_or_bool_of_bound? ha with rfl | ⟨c, rfl⟩
    · exact .inl ⟨⟨a, rfl⟩, Value.subscript_range_int hk hn⟩
    · exact .inr ⟨⟨c, rfl⟩, rfl⟩

/-- The last one of the integers before the largest one. -/
theorem range_subscript_gives_last_integer :
    let v : Value := .range (.int 9223372036854775805) (.int 9223372036854775807)
    v.Iterates ⟨#[], #[]⟩ [.int 9223372036854775805, .int 9223372036854775806] ∧
      Value.subscript ⟨#[], #[]⟩ v (.int 1) = .ok (.int 9223372036854775806) := by
  intro v
  have hitems : v.Iterates ⟨#[], #[]⟩ [.int 9223372036854775805, .int 9223372036854775806] :=
    (Value.iterates_range_iff rfl rfl).mpr rfl
  refine ⟨hitems, ?_⟩
  rcases (range_subscript_gives_item ⟨#[], #[]⟩ _ _).2 _ hitems ⟨#[], #[]⟩ 1 _ (by decide) rfl with ⟨-, heq⟩ | ⟨⟨b, hb⟩, -⟩
  · exact heq
  · cases hb

/-- The range from false to true has the item zero, and no subscript by zero. -/
theorem bool_range_has_item_without_subscript :
    ¬∀ (h : Heap) (start stop : Value) (xs : List Value), (Value.range start stop).Iterates h xs →
      ∀ (k : Int64) (x : Value), 0 ≤ k.toInt → xs[k.toInt.toNat]? = some x →
        Value.subscript h (.range start stop) (.int k) = .ok x := by
  intro hall
  have hitems : (Value.range (.bool false) (.bool true)).Iterates ⟨#[], #[]⟩ [.int 0] :=
    (Value.iterates_range_iff rfl rfl).mpr rfl
  have heq := hall ⟨#[], #[]⟩ _ _ _ hitems 0 (.int 0) (by decide) rfl
  cases heq

end NodeScript
