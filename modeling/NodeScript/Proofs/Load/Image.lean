import NodeScript.Proofs.Json.Proper
import NodeScript.Proofs.Load.Exact
import NodeScript.Proofs.Tree.Node

/-!
# The trees that documents stand for

Not every tree is the tree of a document. A literal stands in a document as itself, so it has no position; an expression that stands
for an instruction is a node, with the position of that node; the arguments of a call that are given by name are the members of an
object, and numbers are finite. Such trees are well-formed (`Node.WellFormed`), and the trees of proper documents are exactly
these (`load_image`). One direction goes along the reading of the document (`Json.wellFormed_of_read`). For the other one every
tree has a document (`Program.document`), from which it is read again (`Node.documented_of_wellFormed`).
-/

namespace NodeScript

/-! ## Well-formed trees -/

/-- A number that is a literal is finite. -/
def Literal.Finite : Literal → Prop
  | .float x => x.isFinite
  | _ => True

instance : DecidablePred Literal.Finite
  | .float x => inferInstanceAs (Decidable (x.isFinite = true))
  | .int _ | .bool _ | .string _ => inferInstanceAs (Decidable True)

/-- The expression is a literal. -/
def Expr.isLiteral {φ : Type} : Expr φ → Bool
  | .literal _ _ => true
  | _ => false

namespace Node

variable {φ : Type}

/-- What the loader makes sure of in a node itself. That the operator of a compound assignment is one of arithmetic needs no clause:
the tree has no place for another one. -/
def Sound : Node φ → Prop
  | expr (.literal span value) => span = none ∧ value.Finite
  | expr (.call _ _ _ kwargs) => (kwargs.map Prod.fst).Nodup
  | stmt (.expr span value) => value.isLiteral = false ∧ span = value.span
  | _ => True

/-- Every node of a tree is sound. -/
def WellFormed (n : Node φ) : Prop :=
  ∀ x, n.Contains x → x.Sound

/-- A tree is well-formed when its root is sound and the trees of the children are well-formed. -/
theorem wellFormed_iff {n : Node φ} : n.WellFormed ↔ n.Sound ∧ ∀ c ∈ n.children, c.WellFormed := by
  refine ⟨fun h => ⟨h n (.self n), fun c hc x hx => h x (.inside hc hx)⟩, fun h x hx => ?_⟩
  cases hx with
  | self => exact h.1
  | inside hc hx => exact h.2 _ hc x hx

/-- A literal has no children, so it is enough that it is finite. -/
theorem wellFormed_literal {value : Literal} (h : value.Finite) : (expr (.literal none value) : Node φ).WellFormed :=
  wellFormed_iff.mpr ⟨⟨rfl, h⟩, nofun⟩

end Node

/-- Every node of a program is sound. -/
def Program.WellFormed (program : Program) : Prop :=
  ∀ s ∈ program, (Node.stmt s).WellFormed

/-! ## Documents stand for well-formed trees -/

/-- What a document in a role stands for is well-formed. -/
def Role.WellFormed : (role : Role) → role.Tree → Prop
  | .expr, e => (Node.expr e).WellFormed
  | .stmt, s => (Node.stmt s).WellFormed
  | .block, code => ∀ s ∈ code, (Node.stmt s).WellFormed
  | .exprs, es => ∀ e ∈ es, (Node.expr e).WellFormed
  | .named, es => (es.map Prod.fst).Nodup ∧ ∀ e ∈ es, (Node.expr e.2).WellFormed
  | .case, c => (Node.expr c.1).WellFormed ∧ ∀ s ∈ c.2, (Node.stmt s).WellFormed
  | .cases, cs => ∀ c ∈ cs, (Node.expr c.1).WellFormed ∧ ∀ s ∈ c.2, (Node.stmt s).WellFormed
  | .text, _ | .params, _ | .coordinate, _ => True

/-- All that a part of a document stands for is well-formed. -/
def Reading.WellFormed (reading : Reading) : Prop :=
  ∀ role tree, reading role = some tree → role.WellFormed tree

namespace Reading

section

variable {α β γ δ : Type} {x : Option α} {y : Option β} {z : Option γ}

theorem map₂_eq_some_iff {f : α → β → γ} {c : γ} : f <$> x <*> y = some c ↔ ∃ a b, x = some a ∧ y = some b ∧ f a b = c := by
  cases x <;> cases y <;> simp [Seq.seq]

theorem map₃_eq_some_iff {f : α → β → γ → δ} {d : δ} :
    f <$> x <*> y <*> z = some d ↔ ∃ a b c, x = some a ∧ y = some b ∧ z = some c ∧ f a b c = d := by
  cases x <;> cases y <;> cases z <;> simp [Seq.seq]

end

/-- What holds of the results that items have holds of all results. -/
theorem forall_of_mapM {α β : Type} {f : α → Option β} {P : β → Prop} {xs : List α} {ys : List β} (h : xs.mapM f = some ys)
    (hP : ∀ x ∈ xs, ∀ y, f x = some y → P y) : ∀ y ∈ ys, P y := by
  induction xs generalizing ys with
  | nil =>
    cases h
    exact nofun
  | cons x rest ih =>
    rw [List.mapM_cons] at h
    obtain ⟨y, hy, h⟩ := Option.bind_eq_some_iff.mp h
    obtain ⟨ys, hys, h⟩ := Option.bind_eq_some_iff.mp h
    cases h
    exact List.forall_mem_cons.mpr ⟨hP x (.head _) y hy, ih hys fun x' hx' => hP x' (.tail _ hx')⟩

/-- Arguments that are given by name have the names of the members. -/
theorem keys_of_mapM {α β : Type} {f : String × α → Option β} {members : List (String × α)} {es : List (String × β)}
    (h : members.mapM (fun m => (fun e => (m.1, e)) <$> f m) = some es) : es.map Prod.fst = members.map Prod.fst := by
  induction members generalizing es with
  | nil =>
    cases h
    rfl
  | cons m rest ih =>
    rw [List.mapM_cons] at h
    obtain ⟨e, he, h⟩ := Option.bind_eq_some_iff.mp h
    obtain ⟨es, hes, h⟩ := Option.bind_eq_some_iff.mp h
    obtain ⟨e, -, rfl⟩ := Option.map_eq_some_iff.mp he
    cases h
    rw [List.map_cons, List.map_cons, ih hes]

section

variable {members : List (String × Reading)} {span : Option Span}

/-- All that the members of an object stand for is well-formed. -/
def MembersWellFormed (members : List (String × Reading)) : Prop :=
  ∀ name value, members.lookup name = some value → value.WellFormed

/-- A field that was read is well-formed where all members are. -/
theorem MembersWellFormed.field (h : MembersWellFormed members) {name : String} {role : Role} {tree : role.Tree}
    (hfield : field members name role = some tree) : role.WellFormed tree := by
  obtain ⟨value, hvalue, htree⟩ := Option.bind_eq_some_iff.mp hfield
  exact h name value hvalue role tree htree

/-- A field that may be missing is well-formed if it is there. -/
theorem MembersWellFormed.field? (h : MembersWellFormed members) {name : String} {role : Role} {tree : Option role.Tree}
    (hfield : field? members name role = some tree) : ∀ t ∈ tree, role.WellFormed t := by
  unfold Reading.field? at hfield
  split at hfield
  · cases hfield
    exact nofun
  · rename_i value hvalue
    obtain ⟨t, ht, rfl⟩ := Option.map_eq_some_iff.mp hfield
    rintro _ ⟨⟩
    exact h name value hvalue role t ht

/-- A field that may be missing, with what it stands for then. -/
theorem MembersWellFormed.getD (h : MembersWellFormed members) {name : String} {role : Role} {tree : Option role.Tree}
    (hfield : Reading.field? members name role = some tree) {default : role.Tree} (hdefault : role.WellFormed default) :
    role.WellFormed (tree.getD default) := by
  cases tree with
  | none => exact hdefault
  | some t => exact h.field? hfield t rfl

/-- The expression of a node is well-formed; it is no literal, and has the position of the node. -/
theorem MembersWellFormed.exprForm (h : MembersWellFormed members) {tag : ExprTag} {e : Expr Unit}
    (hform : exprForm members tag span = some e) : (Node.expr e).WellFormed ∧ e.isLiteral = false ∧ e.span = span := by
  rw [Node.wellFormed_iff]
  cases tag with
  | convert | not | len | typeOf =>
    obtain ⟨value, hvalue, rfl⟩ := Option.map_eq_some_iff.mp hform
    have hvalue : (Node.expr value).WellFormed := h.field hvalue
    exact ⟨⟨trivial, by simpa [Node.children] using hvalue⟩, rfl, rfl⟩
  | binary | range | subscript | join =>
    obtain ⟨left, right, hleft, hright, rfl⟩ := map₂_eq_some_iff.mp hform
    have hleft : (Node.expr left).WellFormed := h.field hleft
    have hright : (Node.expr right).WellFormed := h.field hright
    exact ⟨⟨trivial, by simpa [Node.children] using ⟨hleft, hright⟩⟩, rfl, rfl⟩
  | getVar =>
    obtain ⟨name, -, rfl⟩ := Option.map_eq_some_iff.mp hform
    exact ⟨⟨trivial, List.forall_mem_nil _⟩, rfl, rfl⟩
  | list =>
    obtain ⟨items, hitems, rfl⟩ := Option.map_eq_some_iff.mp hform
    obtain ⟨given, hgiven, rfl⟩ := Option.map_eq_some_iff.mp hitems
    have hitems : ∀ e ∈ given.getD [], (Node.expr e).WellFormed := h.getD hgiven (List.forall_mem_nil _)
    exact ⟨⟨trivial, by simpa [Node.children] using hitems⟩, rfl, rfl⟩
  | input =>
    obtain ⟨prompt, hprompt, rfl⟩ := Option.map_eq_some_iff.mp hform
    have hprompt : ∀ e ∈ prompt, (Node.expr e).WellFormed := h.field? hprompt
    exact ⟨⟨trivial, by simpa [Node.children] using hprompt⟩, rfl, rfl⟩
  | func =>
    obtain ⟨params, code, -, hcode, rfl⟩ := map₂_eq_some_iff.mp hform
    have hcode : ∀ s ∈ code, (Node.stmt s).WellFormed := h.field hcode
    exact ⟨⟨trivial, by simpa [Node.children] using hcode⟩, rfl, rfl⟩
  | call =>
    obtain ⟨target, args, kwargs, htarget, hargs, hkwargs, rfl⟩ := map₃_eq_some_iff.mp hform
    have htarget : (Node.expr target).WellFormed := h.field htarget
    obtain ⟨given, hgiven, rfl⟩ := Option.map_eq_some_iff.mp hargs
    have hargs : ∀ e ∈ given.getD [], (Node.expr e).WellFormed := h.getD hgiven (List.forall_mem_nil _)
    obtain ⟨hnames, hnamed⟩ : Role.named.WellFormed (kwargs.getD []) := h.getD hkwargs ⟨.nil, List.forall_mem_nil _⟩
    refine ⟨⟨hnames, ?_⟩, rfl, rfl⟩
    simp only [Node.children, List.mem_cons, List.mem_append, List.mem_map]
    rintro c (rfl | ⟨e, he, rfl⟩ | ⟨e, he, rfl⟩)
    · exact htarget
    · exact hargs e he
    · exact hnamed e he

/-- The instruction of a node is well-formed. -/
theorem MembersWellFormed.stmtForm (h : MembersWellFormed members) {tag : StmtTag} {s : Stmt Unit}
    (hform : stmtForm members tag span = some s) : (Node.stmt s).WellFormed := by
  rw [Node.wellFormed_iff]
  cases tag with
  | setVar =>
    obtain ⟨name, value, -, hvalue, rfl⟩ := map₂_eq_some_iff.mp hform
    have hvalue : (Node.expr value).WellFormed := h.field hvalue
    exact ⟨trivial, by simpa [Node.children] using hvalue⟩
  | compound | append | remove =>
    obtain ⟨target, value, htarget, hvalue, rfl⟩ := map₂_eq_some_iff.mp hform
    have htarget : (Node.expr target).WellFormed := h.field htarget
    have hvalue : (Node.expr value).WellFormed := h.field hvalue
    exact ⟨trivial, by simpa [Node.children] using ⟨htarget, hvalue⟩⟩
  | insert =>
    obtain ⟨target, index, value, htarget, hindex, hvalue, rfl⟩ := map₃_eq_some_iff.mp hform
    have htarget : (Node.expr target).WellFormed := h.field htarget
    have hindex : (Node.expr index).WellFormed := h.field hindex
    have hvalue : (Node.expr value).WellFormed := h.field hvalue
    exact ⟨trivial, by simpa [Node.children] using ⟨htarget, hindex, hvalue⟩⟩
  | print =>
    obtain ⟨value, hvalue, rfl⟩ := Option.map_eq_some_iff.mp hform
    have hvalue : (Node.expr value).WellFormed := h.field hvalue
    exact ⟨trivial, by simpa [Node.children] using hvalue⟩
  | cond =>
    obtain ⟨test, code, otherwise, htest, hcode, hotherwise, rfl⟩ := map₃_eq_some_iff.mp hform
    have htest : (Node.expr test).WellFormed := h.field htest
    have hcode : ∀ s ∈ code, (Node.stmt s).WellFormed := h.field hcode
    have hotherwise : ∀ s ∈ otherwise.getD [], (Node.stmt s).WellFormed := h.getD hotherwise (List.forall_mem_nil _)
    refine ⟨trivial, ?_⟩
    simp only [Node.children, List.mem_cons, List.mem_append, List.mem_map]
    rintro c (rfl | ⟨s, hs, rfl⟩ | ⟨s, hs, rfl⟩)
    · exact htest
    · exact hcode s hs
    · exact hotherwise s hs
  | switch =>
    obtain ⟨cases, default, hcases, hdefault, rfl⟩ := map₂_eq_some_iff.mp hform
    have hcases : ∀ c ∈ cases, (Node.expr c.1).WellFormed ∧ ∀ s ∈ c.2, (Node.stmt s).WellFormed := h.field hcases
    have hdefault : ∀ s ∈ default.getD [], (Node.stmt s).WellFormed := h.getD hdefault (List.forall_mem_nil _)
    refine ⟨trivial, ?_⟩
    simp only [Node.children, List.mem_append, List.mem_flatMap, List.mem_cons, List.mem_map]
    rintro c (⟨choice, hchoice, rfl | ⟨s, hs, rfl⟩⟩ | ⟨s, hs, rfl⟩)
    · exact (hcases choice hchoice).1
    · exact (hcases choice hchoice).2 s hs
    · exact hdefault s hs
  | loop =>
    obtain ⟨var, list, code, -, hlist, hcode, rfl⟩ := map₃_eq_some_iff.mp hform
    have hlist : (Node.expr list).WellFormed := h.field hlist
    have hcode : ∀ s ∈ code, (Node.stmt s).WellFormed := h.field hcode
    exact ⟨trivial, by simpa [Node.children] using ⟨hlist, hcode⟩⟩
  | ret =>
    obtain ⟨value, hvalue, rfl⟩ := Option.map_eq_some_iff.mp hform
    have hvalue : ∀ e ∈ value, (Node.expr e).WellFormed := h.field? hvalue
    exact ⟨trivial, by simpa [Node.children] using hvalue⟩

/-- A node that stands for an expression gives a well-formed one that is no literal. -/
theorem MembersWellFormed.exprNode (h : MembersWellFormed members) {e : Expr Unit} (hnode : exprNode members = some e) :
    (Node.expr e).WellFormed ∧ e.isLiteral = false := by
  obtain ⟨text, -, hnode⟩ := Option.bind_eq_some_iff.mp hnode
  obtain ⟨tag, -, hnode⟩ := Option.bind_eq_some_iff.mp hnode
  obtain ⟨span, -, hform⟩ := Option.bind_eq_some_iff.mp hnode
  obtain ⟨hwell, hliteral, -⟩ := h.exprForm hform
  exact ⟨hwell, hliteral⟩

/-- A node that stands for an instruction gives a well-formed one: it has the form of an instruction, or it is an expression. -/
theorem MembersWellFormed.stmtNode (h : MembersWellFormed members) {s : Stmt Unit} (hnode : stmtNode members = some s) :
    (Node.stmt s).WellFormed := by
  obtain ⟨text, -, hnode⟩ := Option.bind_eq_some_iff.mp hnode
  split at hnode
  · obtain ⟨span, -, hform⟩ := Option.bind_eq_some_iff.mp hnode
    exact h.stmtForm hform
  · obtain ⟨e, he, rfl⟩ := Option.map_eq_some_iff.mp hnode
    obtain ⟨hwell, hliteral⟩ := h.exprNode he
    exact Node.wellFormed_iff.mpr ⟨⟨hliteral, rfl⟩, by simpa [Node.children] using hwell⟩

/-- A node that stands for a case of a switch gives a well-formed one. -/
theorem MembersWellFormed.caseNode (h : MembersWellFormed members) {c : Expr Unit × Block Unit}
    (hnode : caseNode members = some c) : Role.case.WellFormed c := by
  obtain ⟨span, -, hnode⟩ := Option.bind_eq_some_iff.mp hnode
  obtain ⟨test, code, htest, hcode, rfl⟩ := map₂_eq_some_iff.mp hnode
  have htest : Role.expr.WellFormed test := h.field htest
  have hcode : Role.block.WellFormed code := h.field hcode
  exact ⟨htest, hcode⟩

end

end Reading

/-- What a proper document stands for is well-formed, in every role. -/
theorem Json.wellFormed_of_read (doc : Json) (hdoc : doc.Proper) : doc.read.WellFormed := by
  induction doc using Json.induction with
  | null => exact fun _ _ h => nomatch h
  | bool b =>
    intro role tree h
    cases role with
    | expr =>
      cases h
      exact Node.wellFormed_literal trivial
    | _ => cases h
  | int n =>
    intro role tree h
    cases role with
    | expr =>
      obtain ⟨-, h⟩ := Option.ite_none_right_eq_some.mp h
      cases h
      exact Node.wellFormed_literal trivial
    | coordinate => trivial
    | _ => cases h
  | float x =>
    intro role tree h
    cases role with
    | expr =>
      cases h
      cases hdoc with
      | float hfinite => exact Node.wellFormed_literal hfinite
    | _ => cases h
  | string s =>
    intro role tree h
    cases role with
    | expr =>
      cases h
      exact Node.wellFormed_literal trivial
    | text => trivial
    | _ => cases h
  | array items ih =>
    have hparts (item : Json) (hitem : item ∈ items) : item.read.WellFormed := by
      cases hdoc with
      | array all => exact ih item hitem (all item hitem)
    intro role tree h
    cases role with
    | block =>
      rw [Json.read_block] at h
      exact Reading.forall_of_mapM h fun item hitem => hparts item hitem .stmt
    | exprs =>
      rw [Json.read_exprs] at h
      exact Reading.forall_of_mapM h fun item hitem => hparts item hitem .expr
    | cases =>
      rw [Json.read_cases] at h
      exact Reading.forall_of_mapM h fun item hitem => hparts item hitem .case
    | params => trivial
    | _ => cases h
  | object members ih =>
    have hparts (m : String × Json) (hm : m ∈ members) : m.2.read.WellFormed := by
      cases hdoc with
      | object keys all => exact ih m hm (all m hm)
    have hmembers : Reading.MembersWellFormed (Json.readMembers members) := by
      intro name value hvalue
      rw [Json.lookup_readMembers] at hvalue
      obtain ⟨value, hmember, rfl⟩ := Option.map_eq_some_iff.mp hvalue
      obtain ⟨m, hm, rfl⟩ := Json.exists_mem_of_member? hmember
      exact hparts m hm
    intro role tree h
    cases role with
    | expr => exact (hmembers.exprNode h).1
    | stmt => exact hmembers.stmtNode h
    | case => exact hmembers.caseNode h
    | named =>
      -- The only role in which all members are read, and the only one for which the keys have to differ.
      rw [Json.read_named] at h
      refine ⟨?_, Reading.forall_of_mapM h fun m hm named hnamed => ?_⟩
      · rw [Reading.keys_of_mapM h]
        cases hdoc with
        | object keys all => exact keys
      · obtain ⟨e, he, rfl⟩ := Option.map_eq_some_iff.mp hnamed
        exact hparts m hm .expr e he
    | _ => cases h

/-! ## Trees as documents -/

/-- The members that give a position. -/
def Span.members : Option Span → List (String × Json)
  | none => []
  | some s => [("line", .int s.line.toNat), ("column", .int s.column.toNat)]

/-- The members of a node: its tag, its fields and its position. -/
def Json.nodeMembers (tag : String) (span : Option Span) (fields : List (String × Json)) : List (String × Json) :=
  ("type", .string tag) :: (fields ++ Span.members span)

/-- A node with a tag. -/
def Json.node (tag : String) (span : Option Span) (fields : List (String × Json)) : Json :=
  .object (nodeMembers tag span fields)

/-- A field that may be missing. -/
def Json.optional (name : String) (value : Option Json) : List (String × Json) :=
  (value.map fun v => (name, v)).toList

/-- A literal stands for itself. -/
def Literal.document : Literal → Json
  | .int n => .int n.toInt
  | .float x => .float x
  | .bool b => .bool b
  | .string s => .string s

mutual

/-- The document of an expression. -/
def Expr.document : Expr Unit → Json
  | .literal _ value => value.document
  | .convert span goal value => .node (ExprTag.convert goal).text span [("value", value.document)]
  | .binary span op left right => .node (ExprTag.binary op).text span [("value1", left.document), ("value2", right.document)]
  | .not span value => .node ExprTag.not.text span [("value", value.document)]
  | .len span target => .node ExprTag.len.text span [("target", target.document)]
  | .typeOf span value => .node ExprTag.typeOf.text span [("value", value.document)]
  | .getVar span name => .node ExprTag.getVar.text span [("name", .string name)]
  | .list span items => .node ExprTag.list.text span [("values", .array (Expr.documents items))]
  | .range span start stop => .node ExprTag.range.text span [("start", start.document), ("end", stop.document)]
  | .subscript span target index => .node ExprTag.subscript.text span [("target", target.document), ("index", index.document)]
  | .join span target separator => .node ExprTag.join.text span [("target", target.document), ("value", separator.document)]
  | .input span prompt => .node ExprTag.input.text span (Json.optional "prompt" (Expr.document? prompt))
  | .func span _ params code =>
    .node ExprTag.func.text span [("args", .array (params.map .string)), ("code", .array (Stmt.documents code))]
  | .call span target args kwargs =>
    .node ExprTag.call.text span
      [("target", target.document), ("args", .array (Expr.documents args)), ("kwargs", .object (Expr.namedDocuments kwargs))]

/-- The documents of expressions. -/
def Expr.documents : List (Expr Unit) → List Json
  | [] => []
  | e :: rest => e.document :: Expr.documents rest

/-- The document of an expression that may be missing. -/
def Expr.document? : Option (Expr Unit) → Option Json
  | none => none
  | some e => some e.document

/-- The members for arguments that are given by name. -/
def Expr.namedDocuments : List (String × Expr Unit) → List (String × Json)
  | [] => []
  | (name, e) :: rest => (name, e.document) :: Expr.namedDocuments rest

/-- The document of an instruction. An expression stands for itself. -/
def Stmt.document : Stmt Unit → Json
  | .setVar span name value => .node StmtTag.setVar.text span [("name", .string name), ("value", value.document)]
  | .compound span op target value =>
    .node (StmtTag.compound op).text span [("target", target.document), ("value", value.document)]
  | .append span target value => .node StmtTag.append.text span [("target", target.document), ("value", value.document)]
  | .insert span target index value =>
    .node StmtTag.insert.text span [("target", target.document), ("index", index.document), ("value", value.document)]
  | .remove span target index => .node StmtTag.remove.text span [("target", target.document), ("index", index.document)]
  | .print span value => .node StmtTag.print.text span [("value", value.document)]
  | .cond span test code otherwise =>
    .node StmtTag.cond.text span
      ([("cond", test.document), ("code", .array (Stmt.documents code))] ++ Json.optional "else" (Stmt.blockDocument? otherwise))
  | .switch span cases default =>
    .node StmtTag.switch.text span
      (("cases", .array (Stmt.caseDocuments cases)) :: Json.optional "default" (Stmt.blockDocument? default))
  | .loop span var list code =>
    .node StmtTag.loop.text span [("var", .string var), ("list", list.document), ("code", .array (Stmt.documents code))]
  | .ret span value => .node StmtTag.ret.text span (Json.optional "value" (Expr.document? value))
  | .expr _ value => value.document

/-- The documents of instructions. -/
def Stmt.documents : List (Stmt Unit) → List Json
  | [] => []
  | s :: rest => s.document :: Stmt.documents rest

/-- The document of a block that may be missing. -/
def Stmt.blockDocument? : Option (List (Stmt Unit)) → Option Json
  | none => none
  | some code => some (.array (Stmt.documents code))

/-- The documents of the cases of a switch. -/
def Stmt.caseDocuments : List (Expr Unit × List (Stmt Unit)) → List Json
  | [] => []
  | (test, code) :: rest => .object [("cond", test.document), ("code", .array (Stmt.documents code))] :: Stmt.caseDocuments rest

end

/-- The document of a program. -/
def Program.document (program : Program) : Json :=
  .array (Stmt.documents program)

/-- The documents of expressions are made one by one. -/
theorem Expr.documents_eq_map (es : List (Expr Unit)) : Expr.documents es = es.map Expr.document := by
  induction es with
  | nil => rfl
  | cons e rest ih => rw [Expr.documents, ih, List.map_cons]

/-- The members of named arguments are made one by one. -/
theorem Expr.namedDocuments_eq_map (es : List (String × Expr Unit)) :
    Expr.namedDocuments es = es.map fun e => (e.1, e.2.document) := by
  induction es with
  | nil => rfl
  | cons e rest ih => rw [Expr.namedDocuments, ih, List.map_cons]

/-- The documents of instructions are made one by one. -/
theorem Stmt.documents_eq_map (code : List (Stmt Unit)) : Stmt.documents code = code.map Stmt.document := by
  induction code with
  | nil => rfl
  | cons s rest ih => rw [Stmt.documents, ih, List.map_cons]

/-- The document of a case of a switch. -/
def Stmt.caseDocument (c : Expr Unit × Block Unit) : Json :=
  .object [("cond", c.1.document), ("code", .array (Stmt.documents c.2))]

/-- The documents of cases are made one by one. -/
theorem Stmt.caseDocuments_eq_map (cases : List (Expr Unit × Block Unit)) :
    Stmt.caseDocuments cases = cases.map Stmt.caseDocument := by
  induction cases with
  | nil => rfl
  | cons c rest ih => rw [Stmt.caseDocuments, ih, List.map_cons, Stmt.caseDocument]

/-! ## Reading a node again -/

namespace Json

/-- A coordinate is read again as it was: 32 bits hold it. -/
theorem read_coordinate_toNat (n : UInt32) : (int n.toNat).read .coordinate = some n := by
  have hlt : (n.toNat : Int) < UInt32.size := by exact_mod_cast n.toNat_lt
  simp only [read, Reading.ofInt]
  rw [if_pos ⟨Int.natCast_nonneg _, hlt⟩]
  simp

section

variable {tag : String} {span : Option Span} {fields : List (String × Json)} {name : String}

/-- The fields of a node have names of their own, apart from those of its tag and its position. -/
def FieldNames (fields : List (String × Json)) : Prop :=
  ("type" :: "line" :: "column" :: fields.map Prod.fst).Nodup

/-- A field of a node is found behind its tag and before its position. -/
theorem member?_nodeMembers (hname : name ∉ ["type", "line", "column"]) :
    member? name (nodeMembers tag span fields) = member? name fields := by
  simp only [List.mem_cons, List.not_mem_nil, or_false, not_or] at hname
  have hspan : (Span.members span).lookup name = none := by
    cases span <;> simp [Span.members, List.lookup_cons, beq_false_of_ne hname.2.1, beq_false_of_ne hname.2.2]
  simp [member?, nodeMembers, List.lookup_cons, beq_false_of_ne hname.1, List.lookup_append, hspan]

/-- A field that has to be there stands for what its document stands for. -/
theorem field_nodeMembers (hname : name ∉ ["type", "line", "column"]) (role : Role) :
    Reading.field (readMembers (nodeMembers tag span fields)) name role = (member? name fields).bind fun v => v.read role := by
  rw [Reading.field, lookup_readMembers, member?_nodeMembers hname]
  cases member? name fields <;> rfl

/-- A field that may be missing stands for what its document stands for, or is missing. -/
theorem field?_nodeMembers (hname : name ∉ ["type", "line", "column"]) (role : Role) :
    Reading.field? (readMembers (nodeMembers tag span fields)) name role =
      match member? name fields with
      | none => some none
      | some v => (v.read role).map some := by
  rw [Reading.field?, lookup_readMembers, member?_nodeMembers hname]
  cases member? name fields <;> rfl

/-- The position of a node is read again from its members, also when there is none. -/
theorem span_nodeMembers (h : FieldNames fields) : Reading.span (readMembers (nodeMembers tag span fields)) = some span := by
  simp only [FieldNames, List.nodup_cons, List.mem_cons, not_or] at h
  have hline := member?_eq_none h.2.1.2
  have hcolumn := member?_eq_none h.2.2.1
  simp only [member?] at hline hcolumn
  cases span with
  | none =>
    simp [Reading.span, Reading.field?, lookup_readMembers, member?, nodeMembers, Span.members, List.lookup_cons, hline]
  | some s =>
    simp [Reading.span, Reading.column, Reading.field?, lookup_readMembers, member?, nodeMembers, Span.members, List.lookup_cons,
      List.lookup_append, hline, hcolumn, read_coordinate_toNat]

theorem field_type_nodeMembers : Reading.field (readMembers (nodeMembers tag span fields)) "type" .text = some tag :=
  field_type.mpr rfl

/-- Where an expression is expected, a node stands for the form that its tag names. -/
theorem read_expr_node (h : FieldNames fields) (tag : ExprTag) :
    (node tag.text span fields).read .expr = Reading.exprForm (readMembers (nodeMembers tag.text span fields)) tag span := by
  show Reading.exprNode _ = _
  simp [Reading.exprNode, field_type_nodeMembers, ExprTag.ofText?_text, span_nodeMembers h]

/-- Where an instruction is expected, a node stands for the form that its tag names. -/
theorem read_stmt_node (h : FieldNames fields) (tag : StmtTag) :
    (node tag.text span fields).read .stmt = Reading.stmtForm (readMembers (nodeMembers tag.text span fields)) tag span := by
  show Reading.stmtNode _ = _
  simp [Reading.stmtNode, field_type_nodeMembers, StmtTag.ofText?_text, span_nodeMembers h]

/-- Where an instruction is expected, the node of an expression stands for that expression. -/
theorem read_stmt_of_expr (tag : ExprTag) : (node tag.text span fields).read .stmt =
    (fun e => Stmt.expr e.span e) <$> (node tag.text span fields).read .expr := by
  show Reading.stmtNode _ = (fun e => Stmt.expr e.span e) <$> Reading.exprNode _
  simp [Reading.stmtNode, field_type_nodeMembers, StmtTag.ofText?_exprTag]

/-- A coordinate is an integer that a text can hold. -/
theorem proper_int_of_uint32 (n : UInt32) : (int n.toNat).Proper := by
  have hlt : (n.toNat : Int) < UInt32.size := by exact_mod_cast n.toNat_lt
  refine .int ?_ ?_
  · have : Int64.minValue.toInt ≤ 0 := by decide
    omega
  · have : (UInt32.size : Int) < UInt64.size := by decide
    omega

/-- A node is proper if its fields are and none of them has the name of its tag or of its position. -/
theorem proper_node (h : FieldNames fields) (hfields : ∀ m ∈ fields, m.2.Proper) : (node tag span fields).Proper := by
  simp only [FieldNames, List.nodup_cons, List.mem_cons, not_or] at h
  obtain ⟨⟨-, -, htype⟩, ⟨-, hline⟩, hcolumn, hnodup⟩ := h
  refine .object ?_ ?_
  · cases span with
    | none => simp [nodeMembers, Span.members, htype, hnodup]
    | some s =>
      have hend : ((fields.map Prod.fst) ++ ["line", "column"]).Nodup := by
        refine List.nodup_append.mpr ⟨hnodup, by decide, ?_⟩
        rintro key hkey _ hposition rfl
        simp only [List.mem_cons, List.not_mem_nil, or_false] at hposition
        rcases hposition with rfl | rfl
        · exact hline hkey
        · exact hcolumn hkey
      simpa [nodeMembers, Span.members, htype] using hend
  · simp only [nodeMembers, List.mem_cons, List.mem_append]
    rintro m (rfl | hm | hm)
    · exact .string tag
    · exact hfields m hm
    · cases span with
      | none => cases hm
      | some s =>
        simp only [Span.members, List.mem_cons, List.not_mem_nil, or_false] at hm
        rcases hm with rfl | rfl
        · exact proper_int_of_uint32 s.line
        · exact proper_int_of_uint32 s.column

end

/-! ## Documents of well-formed trees -/

/-- A proper document that stands for a tree in a role. -/
structure Encodes (doc : Json) (role : Role) (tree : role.Tree) : Prop where
  proper : doc.Proper
  read : doc.read role = some tree

/-- What is read from the documents of some items is the items, if each is read from its own. -/
theorem mapM_map_eq_some {α β : Type} {f : α → β} {g : β → Option α} {xs : List α} (h : ∀ x ∈ xs, g (f x) = some x) :
    (xs.map f).mapM g = some xs := by
  induction xs with
  | nil => rfl
  | cons x rest ih =>
    rw [List.map_cons, List.mapM_cons, h x (.head _), ih fun y hy => h y (.tail _ hy)]
    rfl

theorem encodes_text (s : String) : (string s).Encodes .text s :=
  ⟨.string s, rfl⟩

/-- The items of an array stand for the parts of a list, one by one. -/
theorem encodes_items (item : Role) (f : item.Tree → Json) {xs : List item.Tree} (h : ∀ x ∈ xs, (f x).Encodes item x) :
    (array (xs.map f)).Proper ∧ ((xs.map f).mapM fun doc => doc.read item) = some xs := by
  refine ⟨.array fun doc hdoc => ?_, mapM_map_eq_some fun x hx => (h x hx).read⟩
  obtain ⟨x, hx, rfl⟩ := List.mem_map.mp hdoc
  exact (h x hx).proper

theorem encodes_params (params : List String) : (array (params.map .string)).Encodes .params params := by
  obtain ⟨hproper, hread⟩ := encodes_items .text string fun s (_ : s ∈ params) => encodes_text s
  exact ⟨hproper, (read_params _).trans hread⟩

/-- The arguments of a call and the items of a list are an array of expressions. -/
theorem encodes_exprs {es : List (Expr Unit)} (h : ∀ e ∈ es, e.document.Encodes .expr e) :
    (array (Expr.documents es)).Encodes .exprs es := by
  obtain ⟨hproper, hread⟩ := encodes_items .expr Expr.document h
  rw [Expr.documents_eq_map]
  exact ⟨hproper, (read_exprs _).trans hread⟩

/-- A block is an array of instructions. -/
theorem encodes_block {code : Block Unit} (h : ∀ s ∈ code, s.document.Encodes .stmt s) :
    (array (Stmt.documents code)).Encodes .block code := by
  obtain ⟨hproper, hread⟩ := encodes_items .stmt Stmt.document h
  rw [Stmt.documents_eq_map]
  exact ⟨hproper, (read_block _).trans hread⟩

/-- The document of a part that may be missing: it is missing exactly when the part is. -/
def Encodes? (doc : Option Json) (role : Role) (tree : Option role.Tree) : Prop :=
  Option.Rel (fun d t => d.Encodes role t) doc tree

section

variable {doc : Option Json} {role : Role} {tree : Option role.Tree} {name : String}

/-- A field that may be missing is proper if its document is. -/
theorem Encodes?.proper (h : Encodes? doc role tree) : ∀ m ∈ optional name doc, m.2.Proper := by
  cases h with
  | none => exact nofun
  | some h => simpa [optional] using h.proper

/-- A field that may be missing is read again: what it stands for, or that it is missing. -/
theorem Encodes?.read (h : Encodes? doc role tree) :
    (match (optional name doc).lookup name with
      | none => some none
      | some v => (v.read role).map some) = some tree := by
  cases h with
  | none => rfl
  | some h => simp [optional, h.read]

end

/-- An expression that may be missing. -/
theorem encodes_expr? {e : Option (Expr Unit)} (h : ∀ x ∈ e, x.document.Encodes .expr x) :
    Encodes? (Expr.document? e) .expr e := by
  cases e with
  | none => exact .none
  | some x => exact .some (h x rfl)

/-- A block that may be missing. -/
theorem encodes_block? {code : Option (Block Unit)} (h : ∀ s ∈ code.getD [], s.document.Encodes .stmt s) :
    Encodes? (Stmt.blockDocument? code) .block code := by
  cases code with
  | none => exact .none
  | some code => exact .some (encodes_block h)

/-- Named arguments are the members of an object, as long as their names differ. -/
theorem encodes_named {es : List (String × Expr Unit)} (hnames : (es.map Prod.fst).Nodup)
    (h : ∀ e ∈ es, e.2.document.Encodes .expr e.2) : (object (Expr.namedDocuments es)).Encodes .named es := by
  rw [Expr.namedDocuments_eq_map]
  refine ⟨.object ?_ fun m hm => ?_, ?_⟩
  · rw [List.map_map]
    exact hnames
  · obtain ⟨e, he, rfl⟩ := List.mem_map.mp hm
    exact (h e he).proper
  · rw [read_named]
    refine mapM_map_eq_some fun e he => ?_
    rw [(h e he).read]
    rfl

/-- The cases of a switch are an array of objects without a tag. -/
theorem encodes_cases {cs : List (Expr Unit × Block Unit)}
    (h : ∀ c ∈ cs, c.1.document.Encodes .expr c.1 ∧ ∀ s ∈ c.2, s.document.Encodes .stmt s) :
    (array (Stmt.caseDocuments cs)).Encodes .cases cs := by
  have hcase (c : Expr Unit × Block Unit) (hc : c ∈ cs) : (Stmt.caseDocument c).Encodes .case c := by
    obtain ⟨htest, hcode⟩ := h c hc
    have hblock := encodes_block hcode
    refine ⟨.object (by simp) ?_, ?_⟩
    · simpa using ⟨htest.proper, hblock.proper⟩
    · show Reading.caseNode _ = some c
      simp [Reading.caseNode, Reading.span, Reading.field, Reading.field?, readMembers, List.lookup_cons, htest.read, hblock.read,
        Seq.seq]
  obtain ⟨hproper, hread⟩ := encodes_items .case Stmt.caseDocument hcase
  rw [Stmt.caseDocuments_eq_map]
  exact ⟨hproper, (read_cases _).trans hread⟩

end Json

/-- The document of a node stands for the node. -/
def Node.Documented : Node Unit → Prop
  | .expr e => e.document.Encodes .expr e
  | .stmt s => s.document.Encodes .stmt s

/-- A finite literal is the document of itself. -/
theorem Literal.encodes {value : Literal} (h : value.Finite) : value.document.Encodes .expr (.literal none value) := by
  cases value with
  | int n =>
    have hlow : Int64.minValue.toInt ≤ n.toInt := Int64.le_iff_toInt_le.mp (Int64.minValue_le n)
    have hhigh : n.toInt ≤ Int64.maxValue.toInt := Int64.le_iff_toInt_le.mp (Int64.le_maxValue n)
    refine ⟨.int hlow ?_, ?_⟩
    · have : Int64.maxValue.toInt < UInt64.size := by decide
      exact Int.lt_of_le_of_lt hhigh this
    · rw [Literal.document, Json.read, Reading.ofInt, if_pos ⟨hlow, hhigh⟩, Int64.ofInt_toInt]
  | float x => exact ⟨.float h, rfl⟩
  | bool b => exact ⟨.bool b, rfl⟩
  | string s => exact ⟨.string s, rfl⟩

section

variable {span : Option Span} {fields : List (String × Json)}

/-- The document of an expression stands for it if its form is read again from the fields. -/
theorem Expr.encodes_node {tag : ExprTag} {e : Expr Unit} (hnames : Json.FieldNames fields) (hfields : ∀ m ∈ fields, m.2.Proper)
    (hform : Reading.exprForm (Json.readMembers (Json.nodeMembers tag.text span fields)) tag span = some e) :
    (Json.node tag.text span fields).Encodes .expr e := by
  refine ⟨Json.proper_node hnames hfields, ?_⟩
  rw [Json.read_expr_node hnames, hform]

/-- The document of an instruction stands for it if its form is read again from the fields. -/
theorem Stmt.encodes_node {tag : StmtTag} {s : Stmt Unit} (hnames : Json.FieldNames fields) (hfields : ∀ m ∈ fields, m.2.Proper)
    (hform : Reading.stmtForm (Json.readMembers (Json.nodeMembers tag.text span fields)) tag span = some s) :
    (Json.node tag.text span fields).Encodes .stmt s := by
  refine ⟨Json.proper_node hnames hfields, ?_⟩
  rw [Json.read_stmt_node hnames, hform]

end

/-- The document of a sound expression stands for it if those of its children do. For each form there is one array of fields, and
each field is found under its name and read as its role asks for. -/
theorem Expr.documented {e : Expr Unit} (hsound : (Node.expr e).Sound) (hc : ∀ c ∈ (Node.expr e).children, c.Documented) :
    e.document.Encodes .expr e := by
  cases e with
  | literal span value =>
    obtain ⟨rfl, hfinite⟩ := hsound
    exact value.encodes hfinite
  | convert span goal value | not span value | len span value | typeOf span value =>
    have hvalue : value.document.Encodes .expr value := hc _ (.head _)
    refine Expr.encodes_node ?_ ?_ ?_
    · simp [Json.FieldNames]
    · simp [hvalue.proper]
    · simp [Reading.exprForm, Json.field_nodeMembers, Json.member?, hvalue.read]
  | binary span op left right | range span left right | subscript span left right | join span left right =>
    have hleft : left.document.Encodes .expr left := hc _ (.head _)
    have hright : right.document.Encodes .expr right := hc _ (.tail _ (.head _))
    refine Expr.encodes_node ?_ ?_ ?_
    · simp [Json.FieldNames]
    · simp [hleft.proper, hright.proper]
    · simp [Reading.exprForm, Json.field_nodeMembers, Json.member?, List.lookup_cons, hleft.read, hright.read, Seq.seq]
  | getVar span name =>
    have hname := Json.encodes_text name
    refine Expr.encodes_node ?_ ?_ ?_
    · simp [Json.FieldNames]
    · simp [hname.proper]
    · simp [Reading.exprForm, Json.field_nodeMembers, Json.member?, hname.read]
  | list span items =>
    have hitems : (Json.array (Expr.documents items)).Encodes .exprs items :=
      Json.encodes_exprs fun e he => hc (.expr e) (List.mem_map_of_mem he)
    refine Expr.encodes_node ?_ ?_ ?_
    · simp [Json.FieldNames]
    · simp [hitems.proper]
    · simp [Reading.exprForm, Json.field?_nodeMembers, Json.member?, hitems.read]
  | input span prompt =>
    have hprompt : Json.Encodes? (Expr.document? prompt) .expr prompt :=
      Json.encodes_expr? fun e he => hc (.expr e) (by simpa [Node.children] using he)
    refine Expr.encodes_node ?_ hprompt.proper ?_
    · cases Expr.document? prompt <;> simp [Json.FieldNames, Json.optional]
    · simp [Reading.exprForm, Json.field?_nodeMembers, Json.member?, hprompt.read]
  | func span body params code =>
    have hparams := Json.encodes_params params
    have hcode : (Json.array (Stmt.documents code)).Encodes .block code :=
      Json.encodes_block fun s hs => hc (.stmt s) (List.mem_map_of_mem hs)
    refine Expr.encodes_node ?_ ?_ ?_
    · simp [Json.FieldNames]
    · simp [hparams.proper, hcode.proper]
    · simp [Reading.exprForm, Json.field_nodeMembers, Json.member?, List.lookup_cons, hparams.read, hcode.read, Seq.seq]
  | call span target args kwargs =>
    have htarget : target.document.Encodes .expr target := hc _ (.head _)
    have hargs : (Json.array (Expr.documents args)).Encodes .exprs args :=
      Json.encodes_exprs fun e he => hc (.expr e) (by simp [Node.children, he])
    have hkwargs : (Json.object (Expr.namedDocuments kwargs)).Encodes .named kwargs := by
      refine Json.encodes_named hsound fun e he => hc (.expr e.2) ?_
      simp only [Node.children, List.mem_cons, List.mem_append, List.mem_map]
      exact .inr (.inr ⟨e, he, rfl⟩)
    refine Expr.encodes_node ?_ ?_ ?_
    · simp [Json.FieldNames]
    · simp [htarget.proper, hargs.proper, hkwargs.proper]
    · simp [Reading.exprForm, Json.field_nodeMembers, Json.field?_nodeMembers, Json.member?, List.lookup_cons, htarget.read,
        hargs.read, hkwargs.read, Seq.seq]

/-- An expression that is no literal is a node. -/
theorem Expr.exists_node {e : Expr Unit} (h : e.isLiteral = false) :
    ∃ (tag : ExprTag) (span : Option Span) (fields : List (String × Json)), e.document = .node tag.text span fields := by
  cases e with
  | literal span value => cases h
  | _ => exact ⟨_, _, _, rfl⟩

/-- The document of a sound instruction stands for it if those of its children do. -/
theorem Stmt.documented {s : Stmt Unit} (hsound : (Node.stmt s).Sound) (hc : ∀ c ∈ (Node.stmt s).children, c.Documented) :
    s.document.Encodes .stmt s := by
  cases s with
  | setVar span name value =>
    have hname := Json.encodes_text name
    have hvalue : value.document.Encodes .expr value := hc _ (.head _)
    refine Stmt.encodes_node ?_ ?_ ?_
    · simp [Json.FieldNames]
    · simp [hname.proper, hvalue.proper]
    · simp [Reading.stmtForm, Json.field_nodeMembers, Json.member?, List.lookup_cons, hname.read, hvalue.read, Seq.seq]
  | compound span op target value | append span target value | remove span target value =>
    have htarget : target.document.Encodes .expr target := hc _ (.head _)
    have hvalue : value.document.Encodes .expr value := hc _ (.tail _ (.head _))
    refine Stmt.encodes_node ?_ ?_ ?_
    · simp [Json.FieldNames]
    · simp [htarget.proper, hvalue.proper]
    · simp [Reading.stmtForm, Json.field_nodeMembers, Json.member?, List.lookup_cons, htarget.read, hvalue.read, Seq.seq]
  | insert span target index value =>
    have htarget : target.document.Encodes .expr target := hc _ (.head _)
    have hindex : index.document.Encodes .expr index := hc _ (.tail _ (.head _))
    have hvalue : value.document.Encodes .expr value := hc _ (.tail _ (.tail _ (.head _)))
    refine Stmt.encodes_node ?_ ?_ ?_
    · simp [Json.FieldNames]
    · simp [htarget.proper, hindex.proper, hvalue.proper]
    · simp [Reading.stmtForm, Json.field_nodeMembers, Json.member?, List.lookup_cons, htarget.read, hindex.read, hvalue.read,
        Seq.seq]
  | print span value =>
    have hvalue : value.document.Encodes .expr value := hc _ (.head _)
    refine Stmt.encodes_node ?_ ?_ ?_
    · simp [Json.FieldNames]
    · simp [hvalue.proper]
    · simp [Reading.stmtForm, Json.field_nodeMembers, Json.member?, hvalue.read]
  | cond span test code otherwise =>
    have htest : test.document.Encodes .expr test := hc _ (.head _)
    have hcode : (Json.array (Stmt.documents code)).Encodes .block code :=
      Json.encodes_block fun s hs => hc (.stmt s) (by simp [Node.children, hs])
    have hotherwise : Json.Encodes? (Stmt.blockDocument? otherwise) .block otherwise :=
      Json.encodes_block? fun s hs => hc (.stmt s) (by simp [Node.children, hs])
    refine Stmt.encodes_node ?_ ?_ ?_
    · cases Stmt.blockDocument? otherwise <;> simp [Json.FieldNames, Json.optional]
    · exact List.forall_mem_append.mpr ⟨by simp [htest.proper, hcode.proper], hotherwise.proper⟩
    · simp [Reading.stmtForm, Json.field_nodeMembers, Json.field?_nodeMembers, Json.member?, List.lookup_cons, htest.read,
        hcode.read, hotherwise.read, Seq.seq]
  | switch span choices default =>
    have hchoices : (Json.array (Stmt.caseDocuments choices)).Encodes .cases choices := by
      refine Json.encodes_cases fun c hmem => ⟨hc (.expr c.1) ?_, fun s hs => hc (.stmt s) ?_⟩
      · exact List.mem_append_left _ (List.mem_flatMap.mpr ⟨c, hmem, .head _⟩)
      · exact List.mem_append_left _ (List.mem_flatMap.mpr ⟨c, hmem, .tail _ (List.mem_map_of_mem hs)⟩)
    have hdefault : Json.Encodes? (Stmt.blockDocument? default) .block default :=
      Json.encodes_block? fun s hs => hc (.stmt s) (List.mem_append_right _ (List.mem_map_of_mem hs))
    refine Stmt.encodes_node ?_ ?_ ?_
    · cases Stmt.blockDocument? default <;> simp [Json.FieldNames, Json.optional]
    · exact List.forall_mem_cons.mpr ⟨hchoices.proper, hdefault.proper⟩
    · simp [Reading.stmtForm, Json.field_nodeMembers, Json.field?_nodeMembers, Json.member?, List.lookup_cons, hchoices.read,
        hdefault.read, Seq.seq]
  | loop span var list code =>
    have hvar := Json.encodes_text var
    have hlist : list.document.Encodes .expr list := hc _ (.head _)
    have hcode : (Json.array (Stmt.documents code)).Encodes .block code :=
      Json.encodes_block fun s hs => hc (.stmt s) (by simp [Node.children, hs])
    refine Stmt.encodes_node ?_ ?_ ?_
    · simp [Json.FieldNames]
    · simp [hvar.proper, hlist.proper, hcode.proper]
    · simp [Reading.stmtForm, Json.field_nodeMembers, Json.member?, List.lookup_cons, hvar.read, hlist.read, hcode.read, Seq.seq]
  | ret span value =>
    have hvalue : Json.Encodes? (Expr.document? value) .expr value :=
      Json.encodes_expr? fun e he => hc (.expr e) (by simpa [Node.children] using he)
    refine Stmt.encodes_node ?_ hvalue.proper ?_
    · cases Expr.document? value <;> simp [Json.FieldNames, Json.optional]
    · simp [Reading.stmtForm, Json.field?_nodeMembers, Json.member?, hvalue.read]
  | expr span value =>
    obtain ⟨hliteral, rfl⟩ := hsound
    have hvalue : value.document.Encodes .expr value := hc _ (.head _)
    -- The document of a literal is no instruction; any other expression is a node, which stands for one too.
    obtain ⟨tag, span, fields, hnode⟩ := Expr.exists_node hliteral
    refine ⟨hvalue.proper, ?_⟩
    have hread := hvalue.read
    rw [hnode] at hread
    rw [Stmt.document, hnode, Json.read_stmt_of_expr, hread]
    rfl

/-- Every well-formed tree has a document that stands for it. -/
theorem Node.documented_of_wellFormed (n : Node Unit) (h : n.WellFormed) : n.Documented := by
  induction n using Node.induction with
  | step n ih =>
    obtain ⟨hsound, hchildren⟩ := Node.wellFormed_iff.mp h
    have hc (c : Node Unit) (hmem : c ∈ n.children) : c.Documented := ih c hmem (hchildren c hmem)
    cases n with
    | expr e => exact Expr.documented hsound hc
    | stmt s => exact Stmt.documented hsound hc

theorem Program.encodes_document {program : Program} (h : program.WellFormed) : program.document.Encodes .block program :=
  Json.encodes_block fun s hs => (Node.stmt s).documented_of_wellFormed (h s hs)

/-! ## The image of loading -/

/-- The programs that loading gives are exactly the well-formed ones: what is loaded from a text or from any other proper document
is well-formed, and every well-formed program is loaded from some proper document. -/
theorem load_image (program : Program) :
    (program.WellFormed ↔ ∃ doc : Json, doc.Proper ∧ Program.ofJson doc = .ok program) ∧
      ∀ source, Program.ofText source = .ok program → program.WellFormed := by
  have himage (doc : Json) (hproper : doc.Proper) (hload : Program.ofJson doc = .ok program) : program.WellFormed :=
    doc.wellFormed_of_read hproper .block program ((Program.ofJson_eq_ok_iff doc program).mp hload)
  refine ⟨⟨fun h => ?_, fun ⟨doc, hproper, hload⟩ => himage doc hproper hload⟩, fun source hload => ?_⟩
  · have hdocument := Program.encodes_document h
    exact ⟨program.document, hdocument.proper, (Program.ofJson_eq_ok_iff _ program).mpr hdocument.read⟩
  · rw [Program.ofText] at hload
    split at hload
    · rename_i doc hparse
      exact himage doc (Json.proper_of_parse? hparse) hload
    · cases hload

/-- A call with arguments that are given by name. -/
def namedCall (names : String × String) : Program :=
  let call := Expr.call (some ⟨2, 1⟩) (.getVar none "f") [] [(names.1, .literal none (.int 1)), (names.2, .literal none (.bool true))]
  [.expr call.span call]

/-- The text of a call with two names. -/
def namedCallText : String :=
  "[\x7b\"type\":\"call\",\"target\":\x7b\"type\":\"getvar\",\"name\":\"f\"\x7d,\"kwargs\":\x7b\"x\":1,\"y\":true\x7d,\"line\":2\x7d]"

/-- Printing a number. -/
def printNumber (x : Float) : Program :=
  [.print none (.literal none (.float x))]

/-- A call is loaded from its text when the names differ, and from no document when they are the same; a number can be printed when
it is finite. -/
theorem namedCall_load_image :
    Program.ofText namedCallText = .ok (namedCall ("x", "y")) ∧ (namedCall ("x", "y")).WellFormed ∧
      (¬ ∃ doc : Json, doc.Proper ∧ Program.ofJson doc = .ok (namedCall ("x", "x"))) ∧
      ∃ doc : Json, doc.Proper ∧ Program.ofJson doc = .ok (printNumber (.ofBits 0x3FE0000000000000)) := by
  have hload : Program.ofText namedCallText = .ok (namedCall ("x", "y")) := by
    simp only [Program.ofText, Json.parse?, Written.read?, namedCallText, String.reduceToList]
    rfl
  refine ⟨hload, (load_image _).2 _ hload, fun hdoc => ?_, (load_image _).1.mp ?_⟩
  · have hwell := (load_image _).1.mpr hdoc
    have hnames := hwell _ (.head _) _ (.inside (.head _) (.self _))
    exact absurd hnames (by simp [Node.Sound])
  · refine List.forall_mem_singleton.mpr (Node.wellFormed_iff.mpr ⟨trivial, ?_⟩)
    exact List.forall_mem_singleton.mpr (Node.wellFormed_literal (by decide))

end NodeScript
