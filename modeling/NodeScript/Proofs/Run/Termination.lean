import NodeScript.Proofs.Run.Settle
import NodeScript.Proofs.Run.Work
import NodeScript.Proofs.Tree.Node
import NodeScript.Proofs.Value.Heap
import NodeScript.Proofs.Value.ResultType

/-!
# Programs that make no list longer come to an end

A program without `append` and `insert` ends, whatever it reads, wherever it writes and however deep its calls may go. Three
things are used up: the calls that may still be opened, the nodes inside a node, and the items that a loop still has before it.
That a loop over a list comes to its end needs that no list grows while its body runs, and that functions that are called from
there are growth-free too; both are properties of the heap that every step keeps (`Shrinks`).
-/

namespace NodeScript

/-! ## Growth-free code -/

/-- No instruction in a tree puts an element into a list, those in function bodies included. -/
abbrev Node.GrowthFree {φ : Type} (n : Node φ) : Prop :=
  n.Without [.grow]

/-- No instruction of a block, or inside one, puts an element into a list. -/
abbrev Block.GrowthFree {φ : Type} (code : Block φ) : Prop :=
  Block.Without [.grow] code

/-! ## Growth-free values and heaps -/

/-- A value that, if it is a function, has a growth-free body. -/
def Value.GrowthFree (v : Value) : Prop :=
  ∀ f, v = .func f → Block.GrowthFree f.code

/-- A scalar is no function, so it has no body that could grow a list. -/
theorem Value.IsScalar.growthFree {v : Value} (h : v.IsScalar) : v.GrowthFree := by
  rintro f rfl
  simp [Value.IsScalar, Value.type] at h

/-- Every function in a slot has a growth-free body. -/
def Heap.GrowthFree (h : Heap) : Prop :=
  ∀ s, (h.get s).GrowthFree

/-- A later heap: no list is longer than it was, and functions are growth-free if they were before. -/
structure Heap.Shrinks (h h' : Heap) : Prop where
  lists : h.lists.size ≤ h'.lists.size
  items : ∀ l < h.lists.size, (h'.items l).size ≤ (h.items l).size
  growthFree : h.GrowthFree → h'.GrowthFree

namespace Heap

theorem Shrinks.refl (h : Heap) : h.Shrinks h :=
  ⟨Nat.le_refl _, fun _ _ => Nat.le_refl _, id⟩

/-- One change after another. -/
theorem Shrinks.trans {h₁ h₂ h₃ : Heap} (h : h₁.Shrinks h₂) (h' : h₂.Shrinks h₃) : h₁.Shrinks h₃ :=
  ⟨Nat.le_trans h.lists h'.lists,
    fun l hl => Nat.le_trans (h'.items l (Nat.lt_of_lt_of_le hl h.lists)) (h.items l hl),
    h'.growthFree ∘ h.growthFree⟩

theorem growthFree_empty : Heap.empty.GrowthFree := by
  intro s f hf
  cases hf

/-- A new slot lengthens no list, and what it holds is growth-free. -/
theorem shrinks_alloc {h : Heap} {v : Value} (hv : v.GrowthFree) : h.Shrinks (h.alloc v).2 := by
  refine ⟨Nat.le_refl _, fun _ _ => Nat.le_refl _, fun hh s => ?_⟩
  rw [get_alloc]
  split
  · exact hv
  · exact hh s

/-- Writing into a slot lengthens no list, and what it holds then is growth-free. -/
theorem shrinks_set {h : Heap} (s : SlotId) {v : Value} (hv : v.GrowthFree) : h.Shrinks (h.set s v) := by
  refine ⟨Nat.le_refl _, fun _ _ => Nat.le_refl _, fun hh t => ?_⟩
  rw [get_set]
  split
  · exact hv
  · exact hh t

/-- A new list makes no list longer that was there before. -/
theorem shrinks_newList (h : Heap) (slots : Array SlotId) : h.Shrinks (h.newList slots).2 := by
  refine ⟨by simp [newList], fun l hl => Nat.le_of_eq ?_, id⟩
  rw [items_newList, if_neg (Nat.ne_of_lt hl)]

/-- Taking an element out of a list makes no list longer. -/
theorem shrinks_remove {h h' : Heap} {v index : Value} (hr : Value.remove h v index = .ok h') : h.Shrinks h' := by
  obtain ⟨l, -, hr⟩ := Value.of_bind_eq_ok hr
  obtain ⟨i, -, hr⟩ := Value.of_bind_eq_ok hr
  obtain ⟨⟨removed, h'⟩, hremove, hr⟩ := Value.of_bind_eq_ok hr
  cases hr
  unfold remove at hremove
  dsimp only at hremove
  split at hremove
  · cases hremove
    refine ⟨by simp [modifyList], fun k _ => ?_, id⟩
    rw [items_modifyList]
    split
    · simp only [Array.eraseIdxIfInBounds]
      split <;> simp
    · exact Nat.le_refl _
  · cases hremove

end Heap

/-! ## Steps that come to an end -/

/-- As many calls are open, and the heap has shrunk. -/
structure Shrinks (m m' : Machine) : Prop where
  depth : m'.depth = m.depth
  heap : m.heap.Shrinks m'.heap

theorem Shrinks.refl (m : Machine) : Shrinks m m :=
  ⟨rfl, .refl _⟩

theorem Shrinks.trans {m₁ m₂ m₃ : Machine} (h : Shrinks m₁ m₂) (h' : Shrinks m₂ m₃) : Shrinks m₁ m₃ :=
  ⟨h'.depth.trans h.depth, h.heap.trans h'.heap⟩

/-- Functions are growth-free, and at most `d` more calls may be opened. -/
structure Ready (limit d : Nat) (m : Machine) : Prop where
  heap : m.heap.GrowthFree
  depth : limit ≤ m.depth + d

/-- Calls that are open and functions that are growth-free stay so in a later state. -/
theorem Ready.shrinks {limit d : Nat} {m m' : Machine} (h : Ready limit d m) (hs : Shrinks m m') : Ready limit d m' :=
  ⟨hs.heap.growthFree h.heap, by rw [hs.depth]; exact h.depth⟩

open Exec

/-- A step comes to an end wherever at most `d` more calls may be opened; it makes no list longer, and a result has the
property `P`. -/
def Terminates (limit d : Nat) {α : Type} (P : α → Prop) (x : Nat → Exec α) : Prop :=
  ∀ m, Ready limit d m → Settles x m fun a m' => Shrinks m m' ∧ P a

namespace Terminates

variable {limit d : Nat} {α β : Type} {P : α → Prop} {Q : β → Prop}

/-- One step after another ends if the second one does for each result of the first one. -/
theorem bind {x : Nat → Exec α} {f : Nat → α → Exec β} (hx : Terminates limit d P x)
    (hf : ∀ a, P a → Terminates limit d Q fun fuel => f fuel a) : Terminates limit d Q fun fuel => x fuel >>= f fuel := by
  intro m hm
  refine (hx m hm).bind fun a m' ⟨hs, ha⟩ => ?_
  exact (hf a ha m' (hm.shrinks hs)).mono fun b m'' ⟨hs', hb⟩ => ⟨hs.trans hs', hb⟩

/-- The position of a failure does not matter to whether a step ends. -/
theorem located {x : Nat → Exec α} (hx : Terminates limit d P x) (span : Option Span) :
    Terminates limit d P fun fuel => located span (x fuel) :=
  fun m hm => (hx m hm).located span

/-- What is done at one level more. -/
theorem of_succ {x : Nat → Exec α} (hx : Terminates limit d P fun fuel => x (fuel + 1)) : Terminates limit d P x :=
  fun m hm => (hx m hm).of_succ

/-- A look at the state. -/
theorem get {f : Nat → Machine → Exec α} (hf : ∀ m, Terminates limit d P fun fuel => f fuel m) :
    Terminates limit d P fun fuel => MonadState.get >>= f fuel :=
  fun m hm => hf m m hm

theorem pure {a : α} (ha : P a) : Terminates limit d P fun _ => Pure.pure a :=
  fun m _ => .const ⟨.refl m, ha⟩

theorem fault (f : Fault) : Terminates limit d P fun _ => fault f :=
  fun _ _ => .const trivial

/-- A calculation ends, and its result is to have the property. -/
theorem lift {r : Except Fault α} (h : ∀ a, r = .ok a → P a) : Terminates limit d P fun _ => lift r := by
  cases r with
  | ok a => exact pure (h a rfl)
  | error f => exact fault f

theorem look {f : Heap → Except Fault α} (h : ∀ heap a, heap.GrowthFree → f heap = .ok a → P a) :
    Terminates limit d P fun _ => look f :=
  fun m hm => lift (h m.heap · hm.heap) m hm

/-- A slot of a growth-free heap holds a growth-free value. -/
theorem read (s : SlotId) : Terminates limit d Value.GrowthFree fun _ => read s :=
  fun m hm => .const ⟨.refl m, hm.heap s⟩

/-- A change of the heap ends, and is to make no list longer. -/
theorem change {f : Heap → α × Heap} (h : ∀ heap, heap.Shrinks (f heap).2 ∧ P (f heap).1) :
    Terminates limit d P fun _ => change f :=
  fun m _ => .const ⟨⟨rfl, (h m.heap).1⟩, (h m.heap).2⟩

/-- A growth-free value may be put into a new slot. -/
theorem alloc {v : Value} (hv : v.GrowthFree) : Terminates limit d (fun _ => True) fun _ => alloc v :=
  change fun _ => ⟨Heap.shrinks_alloc hv, trivial⟩

/-- An update ends, with the heap as it was or with one where no list is longer. -/
theorem update {f : Heap → Except Fault Heap} (h : ∀ heap heap', f heap = .ok heap' → heap.Shrinks heap') :
    Terminates limit d (fun _ => True) fun _ => update f := by
  intro m _
  refine .const ?_
  unfold Exec.update
  cases hf : f m.heap with
  | ok heap => exact ⟨⟨rfl, h _ _ hf⟩, trivial⟩
  | error e => trivial

theorem bindName (name : String) (s : SlotId) : Terminates limit d (fun _ => True) fun _ => Exec.bind name s :=
  fun _ _ => .const ⟨⟨rfl, .refl _⟩, trivial⟩

/-- To look up a name ends, whether it is bound or not. -/
theorem slotOf (name : String) : Terminates limit d (fun _ => True) fun _ => slotOf name := by
  intro m _
  refine .const ?_
  unfold Exec.slotOf
  cases m.env.get? name with
  | some s => exact ⟨.refl m, trivial⟩
  | none => trivial

/-- To write ends, whether the stream takes the text or not. -/
theorem write (text : String) : Terminates limit d (fun _ => True) fun _ => write text := by
  rintro ⟨env, heap, source, sink, depth⟩ _
  refine .const ?_
  unfold Exec.write
  dsimp only
  rcases sink.write text with ⟨_ | message, sink'⟩
  · exact ⟨⟨rfl, .refl _⟩, trivial⟩
  · trivial

theorem flush : Terminates limit d (fun _ => True) fun _ => flush := by
  intro m _
  refine .const ?_
  unfold Exec.flush
  cases m.sink.flushFault with
  | none => exact ⟨.refl m, trivial⟩
  | some message => trivial

/-- To read a line ends, whether the stream gives one or not. -/
theorem readLine : Terminates limit d (fun _ => True) fun _ => readLine := by
  intro m _
  refine .const ?_
  unfold Exec.readLine
  cases m.source.line? with
  | some text => exact ⟨⟨rfl, .refl _⟩, trivial⟩
  | none => trivial

end Terminates

/-! ## Sequences of nodes, calls and loops -/

/-- What a pass through a sequence still has before it. -/
def Cursor.remaining (h : Heap) : Cursor → Nat
  | .list l next => (h.items l).size - next
  | .ints next stop => (stop.toInt - next.toInt).toNat

/-- Each item that a pass takes is one less before it, as long as no list grows. -/
theorem Cursor.remaining_lt {cursor cursor' : Cursor} {h h' h'' : Heap} {s : SlotId}
    (hnext : cursor.next? h = (some (s, cursor'), h')) (hs : h'.Shrinks h'') : cursor'.remaining h'' < cursor.remaining h := by
  cases cursor with
  | list l i =>
    simp only [next?, Prod.mk.injEq, Option.map_eq_some_iff] at hnext
    obtain ⟨⟨t, ht, -, rfl⟩, rfl⟩ := hnext
    obtain ⟨hi, -⟩ := Array.getElem?_eq_some_iff.mp ht
    have hl : l < h.lists.size := by
      rcases Nat.lt_or_ge l h.lists.size with hl | hl
      · exact hl
      · simp [h.items_of_size_le hl] at hi
    have := hs.items l hl
    simp only [remaining]
    omega
  | ints n stop =>
    simp only [next?] at hnext
    split at hnext
    · rename_i hlt
      cases hnext
      have hlt := Int64.lt_iff_toInt_lt.mp hlt
      have hsucc : (n + 1).toInt = n.toInt + 1 := by
        have := stop.toInt_lt
        have := n.le_toInt
        rw [Int64.toInt_add, Int.bmod_eq_of_le] <;> simp <;> omega
      simp only [remaining, hsucc]
      omega
    · cases hnext

/-- To take the next item of a pass lengthens no list; that of a range gets a new slot. -/
theorem Cursor.shrinks_next? (cursor : Cursor) (h : Heap) : h.Shrinks (cursor.next? h).2 := by
  cases cursor with
  | list l i => exact .refl h
  | ints n stop =>
    simp only [next?]
    split
    · exact Heap.shrinks_alloc (v := .int n) nofun
    · exact .refl h

namespace Terminates

variable {limit d : Nat} {r : Nat → Interp}

/-- The slots of positional arguments end if each of them does. -/
theorem slots {es : List (Expr FuncId)} (h : ∀ e ∈ es, Terminates limit d (fun _ => True) fun fuel => (r fuel).slot e) :
    Terminates limit d (fun _ => True) fun fuel => (r fuel).slots es := by
  induction es with
  | nil => exact .pure trivial
  | cons e rest ih =>
    refine (h e (.head _)).bind fun s _ => ?_
    exact (ih fun e he => h e (.tail _ he)).bind fun rest _ => .pure trivial

/-- The slots of named arguments end if each of them does. -/
theorem namedSlots {es : List (String × Expr FuncId)}
    (h : ∀ e ∈ es, Terminates limit d (fun _ => True) fun fuel => (r fuel).slot e.2) :
    Terminates limit d (fun _ => True) fun fuel => (r fuel).namedSlots es := by
  induction es with
  | nil => exact .pure trivial
  | cons e rest ih =>
    refine (h e (.head _)).bind fun s _ => ?_
    exact (ih fun e he => h e (.tail _ he)).bind fun rest _ => .pure trivial

/-- A block ends if each of its instructions does. -/
theorem block {code : Block FuncId} (h : ∀ s ∈ code, Terminates limit d (fun _ => True) fun fuel => (r fuel).stmt s) :
    Terminates limit d (fun _ => True) fun fuel => (r fuel).block code := by
  induction code with
  | nil => exact .pure trivial
  | cons s rest ih =>
    refine (h s (.head _)).bind fun flow _ => ?_
    cases flow with
    | returned s => exact .pure trivial
    | completed => exact ih fun s hs => h s (.tail _ hs)

/-- A block that may be missing ends if each of its instructions does. -/
theorem optionalBlock {code : Option (Block FuncId)}
    (h : ∀ s ∈ code.getD [], Terminates limit d (fun _ => True) fun fuel => (r fuel).stmt s) :
    Terminates limit d (fun _ => True) fun fuel => match code with
      | some code => (r fuel).block code
      | none => Pure.pure .completed := by
  cases code with
  | none => exact .pure trivial
  | some code => exact block h

/-- A call comes to an end when the bodies of growth-free functions do with one call less to open. -/
theorem invoke {f : Func} (hf : Block.GrowthFree f.code) (args : List SlotId) (kwargs : List (String × SlotId))
    (h : ∀ d', d = d' + 1 → ∀ s, (Node.stmt s).GrowthFree → Terminates limit d' (fun _ => True) fun fuel => (r fuel).stmt s) :
    Terminates limit d (fun _ => True) fun fuel => Interp.invoke limit (r fuel) f args kwargs := by
  cases d with
  | zero =>
    intro m hm
    have hfull : limit ≤ m.depth := hm.depth
    have hfault (fuel : Nat) : Interp.invoke limit (r fuel) f args kwargs m = Exec.fault (.callDepth limit) m := by
      show (if limit ≤ m.depth then _ else _ : Exec SlotId) m = _
      rw [if_pos hfull]
    exact (fault (.callDepth limit) m hm).congr 0 fun fuel _ => hfault fuel
  | succ d =>
    refine .get fun m => ?_
    split
    · exact .fault _
    · refine (lift (P := fun _ => True) fun _ _ => trivial).bind fun env _ => ?_
      refine bind (P := fun _ => True) ?_ fun flow _ => ?_
      · intro m hm
        have hbody := block (r := r) fun s hs => h d rfl s (hf s hs)
        have hdepth := hm.depth
        refine (hbody { m with env := env, depth := m.depth + 1 } ⟨hm.heap, ?_⟩).enter fun _ m' hs => ?_
        · show limit ≤ m.depth + 1 + d
          omega
        · exact ⟨⟨rfl, hs.1.heap⟩, trivial⟩
      · cases flow with
        | returned s => exact .pure trivial
        | completed => exact .alloc nofun

/-- A loop comes to an end when its body does: each round leaves less before it. The fuel of the loop falls from round to round
while that of its body stays, so the difference between the two is part of the statement. -/
theorem loop {var : String} {code : Block FuncId} (h : Terminates limit d (fun _ => True) fun fuel => (r fuel).block code)
    (bound spent : Nat) (cursor : Cursor) (m : Machine) (hm : Ready limit d m) (hbound : cursor.remaining m.heap < bound) :
    Settles (fun fuel => (r fuel).loop var code (fuel - spent) cursor) m fun _ m' => Shrinks m m' ∧ True := by
  induction bound generalizing spent cursor m with
  | zero => omega
  | succ bound ih =>
    rcases hnext : cursor.next? m.heap with ⟨item, heap⟩
    have hheap : m.heap.Shrinks heap := by
      have := cursor.shrinks_next? m.heap
      rwa [hnext] at this
    have hm' : Shrinks m { m with heap } := ⟨rfl, hheap⟩
    cases item with
    | none =>
      refine Settles.congr (y := fun _ => Pure.pure Flow.completed) (.const ⟨hm', trivial⟩) (spent + 1) fun fuel hfuel => ?_
      rw [show fuel - spent = fuel - (spent + 1) + 1 by omega, Interp.loop_of_next?_none hnext]
      rfl
    | some item =>
      obtain ⟨s, cursor'⟩ := item
      have hstart : Shrinks m { m with heap, env := m.env.bind var s } := ⟨rfl, hheap⟩
      have hround : Settles (fun fuel => (r fuel).block code >>= (r fuel).afterRound var code (fuel - (spent + 1)) cursor')
          { m with heap, env := m.env.bind var s } fun _ m' => Shrinks m m' ∧ True := by
        refine (h _ (hm.shrinks hstart)).bind fun flow m' hflow => ?_
        have hs : Shrinks m m' := hstart.trans hflow.1
        cases flow with
        | returned s => exact .const ⟨hs, trivial⟩
        | completed =>
          have hlt := Cursor.remaining_lt hnext hflow.1.heap
          refine (ih (spent + 1) cursor' m' (hm.shrinks hs) (by omega)).mono fun _ m'' hs' => ?_
          exact ⟨hs.trans hs'.1, trivial⟩
      refine hround.congr (spent + 1) fun fuel hfuel => ?_
      rw [show fuel - spent = fuel - (spent + 1) + 1 by omega, Interp.loop_of_next? hnext]

end Terminates

/-! ## Nodes -/

/-- Evaluating an expression comes to an end: to a value, to a slot, or to the slot that an assignment works on. -/
structure Evaluable (limit d : Nat) (e : Expr FuncId) : Prop where
  expr : Terminates limit d Value.GrowthFree fun fuel => (interp limit fuel).expr e
  slot : Terminates limit d (fun _ => True) fun fuel => (interp limit fuel).slot e
  target : Terminates limit d (fun _ => True) fun fuel => (interp limit fuel).targetSlot e

/-- Executing an instruction comes to an end. -/
def Executable (limit d : Nat) (s : Stmt FuncId) : Prop :=
  Terminates limit d (fun _ => True) fun fuel => (interp limit fuel).stmt s

/-- Working on a node comes to an end. -/
def Node.Ends (limit d : Nat) : Node FuncId → Prop
  | .expr e => Evaluable limit d e
  | .stmt s => Executable limit d s

/-- Growth-free instructions come to an end with one call less to open. -/
def BodiesEnd (limit d : Nat) : Prop :=
  ∀ d', d = d' + 1 → ∀ s, (Node.stmt s).GrowthFree → Executable limit d' s

namespace Terminates

variable {limit d : Nat}

/-- A call ends if its target and its arguments do, and the bodies of functions with one call less to open. -/
theorem call {target : Expr FuncId} {args : List (Expr FuncId)} {kwargs : List (String × Expr FuncId)}
    (hbodies : BodiesEnd limit d) (htarget : Evaluable limit d target) (hargs : ∀ e ∈ args, Evaluable limit d e)
    (hkwargs : ∀ e ∈ kwargs, Evaluable limit d e.2) :
    Terminates limit d (fun _ => True) fun fuel => Interp.call limit (interp limit fuel) target args kwargs := by
  refine htarget.expr.bind fun v hv => ?_
  cases v with
  | func f =>
    refine (slots fun e he => (hargs e he).slot).bind fun args _ => ?_
    refine (namedSlots fun e he => (hkwargs e he).slot).bind fun kwargs _ => ?_
    exact invoke (hv f rfl) args kwargs hbodies
  | _ => exact .fault _

/-- To read a line of input ends if the prompt does. -/
theorem input {prompt : Option (Expr FuncId)} (h : ∀ e ∈ prompt, Evaluable limit d e) :
    Terminates limit d Value.GrowthFree fun fuel => (interp limit fuel).input prompt := by
  have hread : Terminates limit d Value.GrowthFree fun _ => do
      Exec.flush
      let line ← Exec.readLine
      return Value.string line :=
    flush.bind fun _ _ => readLine.bind fun _ _ => .pure nofun
  cases prompt with
  | none => exact hread
  | some e =>
    refine (h e rfl).expr.bind fun v _ => ?_
    refine (lift (P := fun _ => True) fun _ _ => trivial).bind fun text _ => ?_
    exact (write text).bind fun _ _ => hread

/-- The value of an expression, when the expressions inside come to an end. -/
theorem exprForm {e : Expr FuncId} (hbodies : BodiesEnd limit d) (he : (Node.expr e).GrowthFree)
    (h : ∀ c ∈ (Node.expr e).children, c.Ends limit d) :
    Terminates limit d Value.GrowthFree fun fuel => Interp.exprForm limit (interp limit fuel) e := by
  have hexpr {e' : Expr FuncId} (hmem : .expr e' ∈ (Node.expr e).children) : Evaluable limit d e' :=
    h (.expr e') hmem
  cases e with
  | literal _ value => exact .pure (Value.literal_isScalar value).growthFree
  | convert _ goal value =>
    exact (hexpr (.head _)).expr.bind fun v _ => .look fun _ _ _ hw => (Value.convert_isScalar hw).growthFree
  | binary _ op left right =>
    refine (hexpr (.head _)).expr.bind fun a _ => (hexpr (.tail _ (.head _))).expr.bind fun b _ => ?_
    exact .look fun _ _ _ hw => (Value.binary_isScalar hw).growthFree
  | not _ value => exact (hexpr (.head _)).expr.bind fun v _ => .lift fun _ hw => (Value.negation_isScalar hw).growthFree
  | len _ target => exact (hexpr (.head _)).expr.bind fun v _ => .look fun _ _ _ hw => (Value.length_isScalar hw).growthFree
  | typeOf _ value => exact (hexpr (.head _)).expr.bind fun v _ => .pure nofun
  | getVar _ name => exact (slotOf name).bind fun s _ => .read s
  | list _ items =>
    refine (slots fun e he => (hexpr (List.mem_map_of_mem he)).slot).bind fun slots _ => ?_
    refine (change (P := fun _ => True) fun heap => ⟨heap.shrinks_newList _, trivial⟩).bind fun l _ => .pure nofun
  | range _ start stop =>
    exact (hexpr (.head _)).expr.bind fun a _ => (hexpr (.tail _ (.head _))).expr.bind fun b _ => .pure nofun
  | subscript _ target index =>
    refine (hexpr (.head _)).expr.bind fun v _ => (hexpr (.tail _ (.head _))).expr.bind fun i _ => ?_
    refine .look fun heap w hheap hw => ?_
    rcases Value.subscript_cases hw with ⟨-, -, s, -, rfl⟩ | hw
    · exact hheap s
    · exact hw.growthFree
  | join _ target separator =>
    refine (hexpr (.head _)).expr.bind fun v _ => (hexpr (.tail _ (.head _))).expr.bind fun s _ => ?_
    exact .look fun _ _ _ hw => (Value.join_isScalar hw).growthFree
  | input _ prompt =>
    refine input fun e he => hexpr ?_
    exact List.mem_map_of_mem (Option.mem_toList.mpr he)
  | func _ label params code =>
    refine .pure fun f hf => ?_
    cases hf
    exact fun s hs => he.child (List.mem_map_of_mem hs)
  | call _ target args kwargs =>
    refine bind (call hbodies (hexpr (.head _)) (fun e he => hexpr ?_) fun e he => hexpr ?_) fun s _ => .read s
    · exact .tail _ (List.mem_append_left _ (List.mem_map_of_mem he))
    · exact .tail _ (List.mem_append_right _ (List.mem_map_of_mem he))

/-- The slot of an expression, when its value and the expressions inside come to an end. -/
theorem nextSlot {e : Expr FuncId} (hbodies : BodiesEnd limit d) (h : ∀ c ∈ (Node.expr e).children, c.Ends limit d)
    (hform : Terminates limit d Value.GrowthFree fun fuel => Interp.exprForm limit (interp limit fuel) e) :
    Terminates limit d (fun _ => True) fun fuel => Interp.nextSlot limit (interp limit fuel) e := by
  have hexpr {e' : Expr FuncId} (hmem : .expr e' ∈ (Node.expr e).children) : Evaluable limit d e' :=
    h (.expr e') hmem
  cases e with
  | getVar span name => exact (slotOf name).located span
  | subscript span target index =>
    refine (hexpr (.head _)).expr.bind fun v _ => (hexpr (.tail _ (.head _))).expr.bind fun i _ => located ?_ span
    unfold Interp.elementSlot
    cases v with
    | list l => exact .look fun _ _ _ _ => trivial
    | _ =>
      refine bind (P := Value.GrowthFree) (.look fun heap w hheap hw => ?_) fun part hpart => .alloc hpart
      rcases Value.subscript_cases hw with ⟨-, -, s, -, rfl⟩ | hw
      · exact hheap s
      · exact hw.growthFree
  | call span target args kwargs =>
    refine located (call hbodies (hexpr (.head _)) (fun e he => hexpr ?_) fun e he => hexpr ?_) span
    · exact .tail _ (List.mem_append_left _ (List.mem_map_of_mem he))
    · exact .tail _ (List.mem_append_right _ (List.mem_map_of_mem he))
  | _ => exact (hform.located _).bind fun v hv => .alloc hv

theorem test {e : Expr FuncId} (he : Evaluable limit d e) :
    Terminates limit d (fun _ => True) fun fuel => (interp limit fuel).test e :=
  he.expr.bind fun _ _ => located (.look fun _ _ _ _ => trivial) e.span

/-- A switch ends if its tests do and its blocks, the default among them. -/
theorem switch {default : Option (Block FuncId)} {cases : List (Expr FuncId × Block FuncId)}
    (hdefault : ∀ s ∈ default.getD [], Executable limit d s)
    (hcases : ∀ c ∈ cases, Evaluable limit d c.1 ∧ ∀ s ∈ c.2, Executable limit d s) :
    Terminates limit d (fun _ => True) fun fuel => (interp limit fuel).switch default cases := by
  induction cases with
  | nil => exact optionalBlock hdefault
  | cons c rest ih =>
    obtain ⟨htest, hcode⟩ := hcases c (.head _)
    refine (test htest).bind fun holds _ => ?_
    cases holds with
    | true => exact block hcode
    | false => exact ih fun c hc => hcases c (.tail _ hc)

/-- The slot that an assignment works on is found if the expressions inside its target end. -/
theorem targetSlot {e : Expr FuncId} (h : ∀ c ∈ (Node.expr e).children, c.Ends limit d) :
    Terminates limit d (fun _ => True) fun fuel => (interp limit fuel).targetSlot e := by
  have hexpr {e' : Expr FuncId} (hmem : .expr e' ∈ (Node.expr e).children) : Evaluable limit d e' :=
    h (.expr e') hmem
  cases e with
  | getVar span name => exact (slotOf name).located span
  | subscript span container index =>
    refine (hexpr (.head _)).expr.bind fun v _ => ?_
    cases v with
    | list l =>
      refine (hexpr (.tail _ (.head _))).expr.bind fun i _ => ?_
      refine (lift (P := fun _ => True) fun _ _ => trivial).bind fun i _ => ?_
      exact located (.look fun _ _ _ _ => trivial) span
    | _ => exact located (.fault _) span
  | _ => exact located (.fault _) _

/-- A compound assignment writes the result of arithmetic, which is no function. -/
theorem compound {op : ArithOp} {target value : Expr FuncId} (htarget : Evaluable limit d target)
    (hvalue : Evaluable limit d value) :
    Terminates limit d (fun _ => True) fun fuel => (interp limit fuel).compound op target value := by
  refine htarget.target.bind fun s _ => hvalue.expr.bind fun b _ => (read s).bind fun a _ => ?_
  refine bind (P := Value.GrowthFree) (.look fun _ _ _ hv => (Value.arith_isScalar hv).growthFree) fun v hv => ?_
  exact .change fun heap => ⟨heap.shrinks_set s hv, trivial⟩

/-- An instruction, when the nodes inside come to an end. -/
theorem stmtForm {s : Stmt FuncId} (hs : (Node.stmt s).GrowthFree) (h : ∀ c ∈ (Node.stmt s).children, c.Ends limit d) :
    Terminates limit d (fun _ => True) fun fuel => Interp.stmtForm fuel (interp limit fuel) s := by
  have hexpr {e : Expr FuncId} (hmem : .expr e ∈ (Node.stmt s).children) : Evaluable limit d e := h (.expr e) hmem
  have hstmt {s' : Stmt FuncId} (hmem : .stmt s' ∈ (Node.stmt s).children) : Executable limit d s' := h (.stmt s') hmem
  cases s with
  | setVar _ name value => exact (hexpr (.head _)).slot.bind fun s _ => (bindName name s).bind fun _ _ => .pure trivial
  | compound _ op target value =>
    exact (compound (hexpr (.head _)) (hexpr (.tail _ (.head _)))).bind fun _ _ => .pure trivial
  | append | insert => exact absurd rfl (hs _ (.self _) .grow (.head _))
  | remove _ target index =>
    refine (hexpr (.head _)).expr.bind fun v _ => (hexpr (.tail _ (.head _))).expr.bind fun i _ => ?_
    exact (update fun _ _ hremove => Heap.shrinks_remove hremove).bind fun _ _ => .pure trivial
  | print _ value =>
    refine (hexpr (.head _)).expr.bind fun v _ => ?_
    refine (look (P := fun _ => True) fun _ _ _ _ => trivial).bind fun text _ => ?_
    exact (write _).bind fun _ _ => .pure trivial
  | cond _ cond code otherwise =>
    refine (test (hexpr (.head _))).bind fun holds _ => ?_
    cases holds with
    | true => exact block fun s hs => hstmt (.tail _ (List.mem_append_left _ (List.mem_map_of_mem hs)))
    | false => exact optionalBlock fun s hs => hstmt (.tail _ (List.mem_append_right _ (List.mem_map_of_mem hs)))
  | switch _ cases default =>
    refine switch (fun s hs => hstmt ?_) fun c hc => ⟨hexpr ?_, fun s hs => hstmt ?_⟩
    · exact List.mem_append_right _ (List.mem_map_of_mem hs)
    · exact List.mem_append_left _ (List.mem_flatMap.mpr ⟨c, hc, .head _⟩)
    · exact List.mem_append_left _ (List.mem_flatMap.mpr ⟨c, hc, .tail _ (List.mem_map_of_mem hs)⟩)
  | loop _ var list code =>
    refine (hexpr (.head _)).expr.bind fun v _ => ?_
    refine (lift (P := fun _ => True) fun _ _ => trivial).bind fun cursor _ => ?_
    have hbody := block fun s hs => hstmt (.tail _ (List.mem_map_of_mem hs))
    exact fun m hm => loop hbody _ 0 cursor m hm (Nat.lt_succ_self _)
  | ret _ value =>
    refine .get fun m => ?_
    split
    · exact .fault _
    · cases value with
      | none => exact (alloc (v := .void) nofun).bind fun s _ => .pure trivial
      | some e => exact (hexpr (.head _)).slot.bind fun s _ => .pure trivial
  | expr _ value => exact (hexpr (.head _)).expr.bind fun _ _ => .pure trivial

end Terminates

/-- Growth-free nodes come to an end, when the bodies of growth-free functions do with one call less to open. -/
theorem Node.GrowthFree.ends_of_bodies {limit d : Nat} (hbodies : BodiesEnd limit d) {n : Node FuncId} (h : n.GrowthFree) :
    n.Ends limit d := by
  induction n using Node.induction with
  | step n ih =>
    have hc : ∀ c ∈ n.children, c.Ends limit d := fun c hc => ih c hc (h.child hc)
    rcases n with e | s
    · have hform := Terminates.exprForm hbodies h hc
      exact ⟨.of_succ (hform.located e.span), .of_succ (.nextSlot hbodies hc hform), .targetSlot hc⟩
    · exact .of_succ ((Terminates.stmtForm h hc).located s.span)

/-- Growth-free nodes come to an end, however many calls may be opened. -/
theorem Node.GrowthFree.ends {limit : Nat} (d : Nat) {n : Node FuncId} (h : n.GrowthFree) : n.Ends limit d := by
  induction d generalizing n with
  | zero => exact h.ends_of_bodies fun d' hd => by omega
  | succ d ih =>
    refine h.ends_of_bodies fun d' hd s hs => ?_
    cases hd
    exact ih hs

/-! ## Programs -/

/-- A growth-free program ends, whatever it reads, wherever it writes and whatever the limit of calls: from some fuel on, each
run has the same outcome and reaches the same state, and the outcome is a success or a failure and not a lack of fuel. -/
theorem run_ends_of_growthFree (program : Program) (hfree : Block.GrowthFree program) (config : Config) (source : Source)
    (sink : Sink) :
    ∃ least result m, result ≠ .error .outOfFuel ∧
      ∀ fuel ≥ least, program.runWith fuel config source sink = (result, m) := by
  have hcode := hfree.number 0
  have hprogram : Terminates config.callLimit config.callLimit (fun _ => True) fun fuel =>
      (interp config.callLimit fuel).program (Program.number program 0).1 := by
    refine Terminates.bind (.block fun s hs => Node.GrowthFree.ends config.callLimit (hcode s hs)) fun flow _ => ?_
    cases flow with
    | completed => exact .flush
    | returned s => exact .fault _
  obtain ⟨least, outcome, hend, heq⟩ := hprogram (.start source sink) ⟨Heap.growthFree_empty, Nat.le_add_left _ _⟩
  dsimp only at heq
  rcases outcome with ⟨a, m⟩ | ⟨e | _, m⟩
  · exact ⟨least, .ok a, m, nofun, fun fuel hfuel => by rw [Program.runWith_eq, heq fuel hfuel]⟩
  · exact ⟨least, .error (.failed e), m, nofun, fun fuel hfuel => by rw [Program.runWith_eq, heq fuel hfuel]⟩
  · exact hend.elim

/-- A loop that takes elements out of the list it goes through, and a function that calls itself without end. -/
def removingAndRecursing : Program :=
  [.setVar none "xs" (.list none [.literal none (.int 1), .literal none (.int 2), .literal none (.int 3)]),
    .loop none "x" (.getVar none "xs") [.remove none (.getVar none "xs") (.literal none (.int 0))],
    .setVar none "f" (.func none () [] [.expr none (.call none (.getVar none "f") [] [])]),
    .expr none (.call none (.getVar none "f") [] [])]

/-- A program with a loop that shortens its own list and with a function that calls itself without end has an outcome. -/
theorem removingAndRecursing_run_ends :
    Block.GrowthFree removingAndRecursing ∧ ∃ least result m, result ≠ .error .outOfFuel ∧
      ∀ fuel ≥ least, removingAndRecursing.runWith fuel .standard ⟨[]⟩ .unlimited = (result, m) := by
  have hfree : Block.GrowthFree removingAndRecursing := by
    simp [Block.Without, removingAndRecursing, Node.without_stmt, Node.without_expr, Node.children, Stmt.effect]
  exact ⟨hfree, run_ends_of_growthFree removingAndRecursing hfree .standard ⟨[]⟩ .unlimited⟩

end NodeScript
