import NodeScript.Proofs.Run.Obedience
import NodeScript.Proofs.Run.Termination
import NodeScript.Proofs.Value.Nesting

/-!
# Programs that make no list longer make no cycles

A list is made of slots that are there already, and what is written into a slot later is a number or a text. So without `append`
and `insert` every list has only older lists inside it, although slots are shared and written into, lists are shared and made
shorter, and functions are called: the order in which lists were made is a rank that every change keeps. No list is then inside
itself at any point of a run, and no value is ever shown or compared with a list met again (`acyclic_of_growthFree`).
-/

namespace NodeScript

/-- Growth-free code with what there is. -/
abbrev existing : Access :=
  .present Node.GrowthFree fun h l => l < h.lists.size

/-- Everything that is named is there, and every list was made after those inside it. -/
def ranked : Regime where
  toAccess := existing
  inv h := existing.Closed h ∧ h.Ranked

theorem not_performs_grow_existing : ¬existing.Performs .grow := by
  rintro ⟨s, hs, heffect⟩
  exact hs s (.self _) .grow (.head _) heffect

/-- What may be in use was made before the next list. -/
theorem Access.Fits.below {h : Heap} {v : Value} (hv : existing.Fits h v) : v.Below h.lists.size := by
  induction v with
  | list l => exact hv
  | range a b iha ihb => exact ⟨iha hv.1, ihb hv.2⟩
  | _ => trivial

/-- Every change keeps the rank: a new list has older ones inside, a slot gets a scalar, and a list may only get shorter. -/
theorem Heap.Ranked.change {h h' : Heap} (hranked : h.Ranked) (hclosed : existing.Closed h) (hc : existing.Change h h') :
    h'.Ranked := by
  intro l s hs
  cases hc with
  | alloc hv =>
    have hlt : s < h.slots.size := hclosed.items (lt_size_of_mem_items hs) hs
    rw [get_alloc, if_neg (Nat.ne_of_lt hlt)]
    exact hranked l s hs
  | newList hnew =>
    rw [items_newList] at hs
    split at hs
    case isTrue hl =>
      -- the elements of the new list are there, so the lists inside them are older
      rw [hl]
      exact (hclosed.get (hnew s hs)).below
    case isFalse => exact hranked l s hs
  | write _ _ hv =>
    rw [get_set]
    split
    · exact .of_isScalar (Value.isScalar_of_type hv)
    · exact hranked l s hs
  | grow he => exact absurd he not_performs_grow_existing
  | shrink _ _ hf =>
    rw [items_modifyList] at hs
    split at hs
    · exact hranked l s (hf _ s hs)
    · exact hranked l s hs

/-- The regime follows the laws. -/
theorem ranked_lawful : ranked.Lawful := by
  have hexisting : (Regime.present Node.GrowthFree fun h l => l < h.lists.size).Lawful :=
    Regime.present_lawful Node.Without.child Access.takesIn_existing
  exact {
    child := hexisting.child
    inv := fun hc hh => ⟨hexisting.inv hc hh.1, hh.2.change hh.1 hc⟩
    slot := hexisting.slot
    list := hexisting.list
    newSlot := fun v hh => hexisting.newSlot v hh.1
    newList := fun items hh => hexisting.newList items hh.1
    closed := fun hh => hh.1 }

theorem ready_ranked_start (source : Source) (sink : Sink) : ranked.Ready (.start source sink) := by
  have hranked : Heap.empty.Ranked := fun l s hs => absurd hs (Array.not_mem_empty s)
  exact ⟨⟨Regime.closed_present_empty, hranked⟩, fun _ _ hs => nomatch hs⟩

/-! ## Programs -/

/-- In every state that a growth-free program passes through, no list is inside itself. So whatever value is shown there and
whatever values are compared, what happens to a list that is met again makes no difference. -/
theorem acyclic_of_growthFree (program : Program) (hfree : Block.GrowthFree program) (config : Config) (source : Source)
    (sink : Sink) (m : Machine)
    (hm : Visits config.callLimit (.block (Program.number program 0).1) (.start source sink) m) :
    m.heap.Acyclic ∧ (∀ cut v, m.heap.renderCut cut v = m.heap.render v) ∧
      ∀ cut v w, m.heap.equalCut cut v w = m.heap.equal v w := by
  have hpermits : ranked.Permits Heap.empty (.block (Program.number program 0).1) := hfree.number 0
  have hlater := ranked_lawful.later_of_visits (ready_ranked_start source sink) hpermits hm
  have hacyclic := hlater.ready.heap.2.acyclic
  exact ⟨hacyclic, hacyclic.renderCut_eq, hacyclic.equalCut_eq⟩

/-- A list is twice an element of another one, and the text of the other is added to an element of the first. -/
def sharedElements : Program :=
  [.setVar none "xs" (.list none [.literal none (.int 1), .literal none (.string "a")]),
    .setVar none "ys" (.list none [.getVar none "xs", .getVar none "xs"]),
    .compound none .add (.subscript none (.getVar none "xs") (.literal none (.int 1))) (.getVar none "ys"),
    .print none (.getVar none "ys"),
    .remove none (.getVar none "xs") (.literal none (.int 0))]

/-- The program shares a list and writes into it, and nothing is inside itself at its end. -/
theorem sharedElements_acyclic :
    Block.GrowthFree sharedElements ∧ (sharedElements.runWith 9 .standard ⟨[]⟩ .unlimited).1 = .ok () ∧
      (sharedElements.runWith 9 .standard ⟨[]⟩ .unlimited).2.heap.Acyclic ∧
      (∀ cut v, (sharedElements.runWith 9 .standard ⟨[]⟩ .unlimited).2.heap.renderCut cut v =
        (sharedElements.runWith 9 .standard ⟨[]⟩ .unlimited).2.heap.render v) ∧
      ∀ cut v w, (sharedElements.runWith 9 .standard ⟨[]⟩ .unlimited).2.heap.equalCut cut v w =
        (sharedElements.runWith 9 .standard ⟨[]⟩ .unlimited).2.heap.equal v w := by
  have hfree : Block.GrowthFree sharedElements := by
    simp [Block.Without, sharedElements, Node.without_stmt, Node.without_expr, Node.children, Stmt.effect]
  exact ⟨hfree, rfl, acyclic_of_growthFree sharedElements hfree .standard ⟨[]⟩ .unlimited _ (Program.visits_runWith _ 9 _ _ _)⟩

end NodeScript
