import Mathlib.Tactic.NthRewrite
import NodeScript.Proofs.Json.Path
import NodeScript.Proofs.Load.Image

/-!
# Where the nodes of a tree come from

The tree of a document has the shape of the document. The way from a node to a child of it is the way from the document that the
node stands for to the document of the child (`Node.parts`), so that a node of the tree and the document it comes from have one
path (`Json.StandsFor.leads_of_at`). The document of a node says in its `type` which node it is: what is read from it has the same
tag (`Json.StandsFor.hasTag`).
-/

namespace NodeScript

/-! ## Paths in a tree -/

namespace Node

/-- Nodes in a row, each with its index behind the way to the row. -/
def inOrder (way : Path) (nodes : List (Node Unit)) : List (Path × Node Unit) :=
  nodes.zipIdx.map fun n => (way ++ [.index n.2], n.1)

/-- The children of a node, each with the way from the document of the node to its own. An expression that stands for an
instruction has the document of the instruction. -/
def parts : Node Unit → List (Path × Node Unit)
  | expr (.literal _ _) | expr (.getVar _ _) => []
  | expr (.convert _ _ value) | expr (.not _ value) | expr (.typeOf _ value) => [([.key "value"], expr value)]
  | expr (.len _ target) => [([.key "target"], expr target)]
  | expr (.binary _ _ left right) => [([.key "value1"], expr left), ([.key "value2"], expr right)]
  | expr (.list _ items) => inOrder [.key "values"] (items.map expr)
  | expr (.range _ start stop) => [([.key "start"], expr start), ([.key "end"], expr stop)]
  | expr (.subscript _ target index) => [([.key "target"], expr target), ([.key "index"], expr index)]
  | expr (.join _ target separator) => [([.key "target"], expr target), ([.key "value"], expr separator)]
  | expr (.input _ prompt) => prompt.toList.map fun e => ([.key "prompt"], expr e)
  | expr (.func _ _ _ code) => inOrder [.key "code"] (code.map stmt)
  | expr (.call _ target args kwargs) =>
    ([.key "target"], expr target) ::
      (inOrder [.key "args"] (args.map expr) ++ kwargs.map fun kwarg => ([.key "kwargs", .key kwarg.1], expr kwarg.2))
  | stmt (.setVar _ _ value) | stmt (.print _ value) => [([.key "value"], expr value)]
  | stmt (.compound _ _ target value) | stmt (.append _ target value) =>
    [([.key "target"], expr target), ([.key "value"], expr value)]
  | stmt (.insert _ target index value) =>
    [([.key "target"], expr target), ([.key "index"], expr index), ([.key "value"], expr value)]
  | stmt (.remove _ target index) => [([.key "target"], expr target), ([.key "index"], expr index)]
  | stmt (.cond _ test code otherwise) =>
    ([.key "cond"], expr test) ::
      (inOrder [.key "code"] (code.map stmt) ++ inOrder [.key "else"] ((otherwise.getD []).map stmt))
  | stmt (.switch _ cases default) =>
    cases.zipIdx.flatMap (fun c =>
      ([.key "cases", .index c.2, .key "cond"], expr c.1.1) :: inOrder [.key "cases", .index c.2, .key "code"] (c.1.2.map stmt)) ++
      inOrder [.key "default"] ((default.getD []).map stmt)
  | stmt (.loop _ _ list code) => ([.key "list"], expr list) :: inOrder [.key "code"] (code.map stmt)
  | stmt (.ret _ value) => value.toList.map fun e => ([.key "value"], expr e)
  | stmt (.expr _ value) => [([], expr value)]

/-- A node in a row stands at its index. -/
theorem mem_inOrder {way step : Path} {nodes : List (Node Unit)} {c : Node Unit} :
    (step, c) ∈ inOrder way nodes ↔ ∃ i, nodes[i]? = some c ∧ step = way ++ [.index i] := by
  simp only [inOrder, List.mem_map, Prod.mk.injEq, Prod.exists, List.mk_mem_zipIdx_iff_getElem?]
  grind

/-- A way that goes further leads to the same nodes. -/
theorem mem_inOrder_append {step : Path} {nodes : List (Node Unit)} {c : Node Unit} (way way' : Path)
    (h : (step, c) ∈ inOrder (way ++ way') nodes) : ∃ rest, step = way ++ rest ∧ (rest, c) ∈ inOrder way' nodes := by
  obtain ⟨i, hi, rfl⟩ := mem_inOrder.mp h
  exact ⟨way' ++ [.index i], List.append_assoc _ _ _, mem_inOrder.mpr ⟨i, hi, rfl⟩⟩

theorem inOrder_snd (way : Path) (nodes : List (Node Unit)) : (inOrder way nodes).map Prod.snd = nodes := by
  rw [inOrder, List.map_map]
  exact List.zipIdx_map_fst 0 nodes

/-- No child is left out. -/
theorem parts_snd (n : Node Unit) : n.parts.map Prod.snd = n.children := by
  rcases n with e | s
  · cases e <;> simp [parts, children, inOrder_snd, Function.comp_def]
  · cases s with
    | switch span cases default =>
      have hcases : cases.flatMap (fun c => expr c.1 :: c.2.map stmt) =
          cases.zipIdx.flatMap fun c => expr c.1.1 :: c.1.2.map stmt := by
        nth_rewrite 1 [← List.zipIdx_map_fst 0 cases]
        rw [List.flatMap_map]
      simp [parts, children, inOrder_snd, List.map_flatMap, hcases]
    | _ => simp [parts, children, inOrder_snd, Function.comp_def]

/-- A node stands in the tree below a node, at the end of a path. -/
inductive At : Node Unit → Path → Node Unit → Prop where
  | self (n : Node Unit) : At n [] n
  | inside {n c x : Node Unit} {step path : Path} (hc : (step, c) ∈ n.parts) (hx : At c path x) : At n (step ++ path) x

/-- Every node in a tree stands at the end of some path. -/
theorem Contains.exists_at {n x : Node Unit} (h : n.Contains x) : ∃ path, n.At path x := by
  induction h with
  | self n => exact ⟨[], .self n⟩
  | inside hc _ ih =>
    obtain ⟨path, hpath⟩ := ih
    rw [← parts_snd] at hc
    obtain ⟨⟨step, c⟩, hmem, rfl⟩ := List.mem_map.mp hc
    exact ⟨step ++ path, .inside hmem hpath⟩

end Node

/-! ## From a document to the documents in it -/

namespace Json

/-- A document is read as a node of a tree. -/
def StandsFor (doc : Json) : Node Unit → Prop
  | .expr e => doc.read .expr = some e
  | .stmt s => doc.read .stmt = some s

/-- One path after another. -/
theorem Resolves.trans {doc part part' : Json} {path path' : Path} (h : doc.Resolves path part)
    (h' : part.Resolves path' part') : doc.Resolves (path ++ path') part' := by
  induction h' with
  | root => simpa using h
  | item _ hitem ih =>
    rw [← List.append_assoc]
    exact .item ih hitem
  | member _ hmem ih =>
    rw [← List.append_assoc]
    exact .member ih hmem

section

variable {members : List (String × Json)} {name : String}

/-- An item stands at its index. -/
theorem resolves_item {items : List Json} {i : Nat} {item : Json} (h : items[i]? = some item) :
    (array items).Resolves [.index i] item := by
  show (array items).Resolves ([] ++ [.index i]) item
  exact .item .root h

theorem resolves_member {value : Json} (h : (name, value) ∈ members) : (object members).Resolves [.key name] value := by
  show (object members).Resolves ([] ++ [.key name]) value
  exact .member .root h

/-- A member that is found stands at its name. -/
theorem resolves_member? {value : Json} (h : member? name members = some value) :
    (object members).Resolves [.key name] value := by
  obtain ⟨before, after, rfl, -⟩ := List.lookup_eq_some_iff.mp h
  exact resolves_member (by simp)

/-- What is read of a field is read of a member. -/
theorem exists_of_field {role : Role} {tree : role.Tree} (h : Reading.field (readMembers members) name role = some tree) :
    ∃ part, (object members).Resolves [.key name] part ∧ part.read role = some tree := by
  rw [Reading.field, lookup_readMembers] at h
  obtain ⟨reading, hreading, htree⟩ := Option.bind_eq_some_iff.mp h
  obtain ⟨part, hpart, rfl⟩ := Option.map_eq_some_iff.mp hreading
  exact ⟨part, resolves_member? hpart, htree⟩

/-- What is read of a field that may be missing is read of a member. -/
theorem exists_of_field? {role : Role} {tree : role.Tree}
    (h : Reading.field? (readMembers members) name role = some (some tree)) :
    ∃ part, (object members).Resolves [.key name] part ∧ part.read role = some tree := by
  rw [Reading.field?, lookup_readMembers] at h
  cases hpart : member? name members with
  | none =>
    rw [hpart] at h
    cases h
  | some part =>
    rw [hpart] at h
    refine ⟨part, resolves_member? hpart, ?_⟩
    simpa using h

/-- What is read of items in a row is read of each of them. -/
theorem exists_of_mapM {α β : Type} {f : α → Option β} {xs : List α} {ys : List β} (h : xs.mapM f = some ys) {i : Nat} {y : β}
    (hy : ys[i]? = some y) : ∃ x, xs[i]? = some x ∧ f x = some y := by
  induction xs generalizing ys i with
  | nil =>
    cases h
    cases hy
  | cons x rest ih =>
    rw [List.mapM_cons] at h
    obtain ⟨first, hfirst, h⟩ := Option.bind_eq_some_iff.mp h
    obtain ⟨more, hmore, h⟩ := Option.bind_eq_some_iff.mp h
    cases h
    cases i with
    | zero => exact ⟨x, rfl, hfirst.trans hy⟩
    | succ i => exact ih hmore hy

/-- Each expression in a row is read of an item, at the same index. -/
theorem exists_of_exprs {doc : Json} {es : List (Expr Unit)} (h : doc.read .exprs = some es) {i : Nat} {e : Expr Unit}
    (he : es[i]? = some e) : ∃ part, doc.Resolves [.index i] part ∧ part.read .expr = some e := by
  cases doc with
  | array items =>
    rw [read_exprs] at h
    obtain ⟨item, hitem, hread⟩ := exists_of_mapM h he
    exact ⟨item, resolves_item hitem, hread⟩
  | _ => cases h

/-- Each instruction of a block is read of an item, at the same index. -/
theorem exists_of_block {doc : Json} {code : Block Unit} (h : doc.read .block = some code) {i : Nat} {s : Stmt Unit}
    (hs : code[i]? = some s) : ∃ part, doc.Resolves [.index i] part ∧ part.read .stmt = some s := by
  cases doc with
  | array items =>
    rw [read_block] at h
    obtain ⟨item, hitem, hread⟩ := exists_of_mapM h hs
    exact ⟨item, resolves_item hitem, hread⟩
  | _ => cases h

/-- Each named argument is read of a member, under the same name. -/
theorem exists_of_named {doc : Json} {kwargs : List (String × Expr Unit)} (h : doc.read .named = some kwargs)
    {kwarg : String × Expr Unit} (hkwarg : kwarg ∈ kwargs) :
    ∃ part, doc.Resolves [.key kwarg.1] part ∧ part.read .expr = some kwarg.2 := by
  cases doc with
  | object members =>
    rw [read_named] at h
    obtain ⟨i, hi⟩ := List.mem_iff_getElem?.mp hkwarg
    obtain ⟨m, hm, hread⟩ := exists_of_mapM h hi
    obtain ⟨e, he, rfl⟩ := Option.map_eq_some_iff.mp hread
    exact ⟨m.2, resolves_member (List.mem_of_getElem? hm), he⟩
  | _ => cases h

/-- Each case of a switch is read of an item, at the same index. -/
theorem exists_of_cases {doc : Json} {cases : List (Expr Unit × Block Unit)} (h : doc.read .cases = some cases) {i : Nat}
    {c : Expr Unit × Block Unit} (hc : cases[i]? = some c) : ∃ part, doc.Resolves [.index i] part ∧ part.read .case = some c := by
  cases doc with
  | array items =>
    rw [read_cases] at h
    obtain ⟨item, hitem, hread⟩ := exists_of_mapM h hc
    exact ⟨item, resolves_item hitem, hread⟩
  | _ => cases h

/-! ## From a node to its children -/

/-- The way from a document leads to one that stands for a node. -/
def Leads (doc : Json) (step : Path) (n : Node Unit) : Prop :=
  ∃ part, doc.Resolves step part ∧ part.StandsFor n

/-- A path that is followed by a way. -/
theorem Resolves.leads {doc part : Json} {path step : Path} {n : Node Unit} (h : doc.Resolves path part)
    (hn : part.Leads step n) : doc.Leads (path ++ step) n := by
  obtain ⟨part', hpart', hstands⟩ := hn
  exact ⟨part', h.trans hpart', hstands⟩

variable {step : Path} {c : Node Unit}

theorem leads_expr {e : Expr Unit} (h : Reading.field (readMembers members) name .expr = some e) :
    (object members).Leads [.key name] (.expr e) :=
  exists_of_field h

/-- A field that may be missing leads to its expression, if it is there. -/
theorem leads_expr? {e : Expr Unit} (h : Reading.field? (readMembers members) name .expr = some (some e)) :
    (object members).Leads [.key name] (.expr e) :=
  exists_of_field? h

/-- A field with an array leads to each of its expressions. -/
theorem leads_exprs {es : List (Expr Unit)} (h : (·.getD []) <$> Reading.field? (readMembers members) name .exprs = some es)
    (hc : (step, c) ∈ Node.inOrder [.key name] (es.map .expr)) : (object members).Leads step c := by
  obtain ⟨i, hi, rfl⟩ := Node.mem_inOrder.mp hc
  obtain ⟨es', hes', rfl⟩ := Option.map_eq_some_iff.mp h
  cases es' with
  | none => simp at hi
  | some es =>
    rw [List.getElem?_map] at hi
    obtain ⟨e, he, rfl⟩ := Option.map_eq_some_iff.mp hi
    obtain ⟨part, hpart, hread⟩ := exists_of_field? hes'
    exact hpart.leads (exists_of_exprs hread he)

/-- A block leads to each of its instructions. -/
theorem leads_block {doc : Json} {code : Block Unit} (h : doc.read .block = some code)
    (hc : (step, c) ∈ Node.inOrder [] (code.map .stmt)) : doc.Leads step c := by
  obtain ⟨i, hi, rfl⟩ := Node.mem_inOrder.mp hc
  rw [List.getElem?_map] at hi
  obtain ⟨s, hs, rfl⟩ := Option.map_eq_some_iff.mp hi
  exact exists_of_block h hs

/-- A field with a block leads to each of its instructions. -/
theorem leads_code {code : Block Unit} (h : Reading.field (readMembers members) name .block = some code)
    (hc : (step, c) ∈ Node.inOrder [.key name] (code.map .stmt)) : (object members).Leads step c := by
  obtain ⟨part, hpart, hread⟩ := exists_of_field h
  obtain ⟨rest, rfl, hrest⟩ := Node.mem_inOrder_append [.key name] [] hc
  exact hpart.leads (leads_block hread hrest)

/-- A field with a block that may be missing leads to its instructions, if it is there. -/
theorem leads_code? {code : Option (Block Unit)} (h : Reading.field? (readMembers members) name .block = some code)
    (hc : (step, c) ∈ Node.inOrder [.key name] ((code.getD []).map .stmt)) : (object members).Leads step c := by
  cases code with
  | none => simp [Node.inOrder] at hc
  | some code =>
    obtain ⟨part, hpart, hread⟩ := exists_of_field? h
    obtain ⟨rest, rfl, hrest⟩ := Node.mem_inOrder_append [.key name] [] hc
    exact hpart.leads (leads_block hread hrest)

/-- The field with named arguments leads to each of them, under its name. -/
theorem leads_named {kwargs : Option (List (String × Expr Unit))}
    (h : Reading.field? (readMembers members) name .named = some kwargs) {kwarg : String × Expr Unit}
    (hkwarg : kwarg ∈ kwargs.getD []) : (object members).Leads [.key name, .key kwarg.1] (.expr kwarg.2) := by
  cases kwargs with
  | none => cases hkwarg
  | some kwargs =>
    obtain ⟨part, hpart, hread⟩ := exists_of_field? h
    exact hpart.leads (exists_of_named hread hkwarg)

/-- The case of a switch is no node, but its parts are. -/
theorem leads_case {doc : Json} {test : Expr Unit} {code : Block Unit} (h : doc.read .case = some (test, code)) :
    doc.Leads [.key "cond"] (.expr test) ∧
      ∀ step c, (step, c) ∈ Node.inOrder [.key "code"] (code.map .stmt) → doc.Leads step c := by
  cases doc with
  | object members =>
    obtain ⟨span, -, hcase⟩ := Option.bind_eq_some_iff.mp h
    obtain ⟨test', code', htest, hcode, hpair⟩ := Reading.map₂_eq_some_iff.mp hcase
    cases hpair
    exact ⟨leads_expr htest, fun step c => leads_code hcode⟩
  | _ => cases h

/-- The fields of an expression lead to its children, form by form. -/
theorem leads_exprForm {tag : ExprTag} {span : Option Span} {e : Expr Unit}
    (h : Reading.exprForm (readMembers members) tag span = some e) (hc : (step, c) ∈ (Node.expr e).parts) :
    (object members).Leads step c := by
  cases tag with
  | convert | not | len | typeOf =>
    obtain ⟨value, hvalue, rfl⟩ := Option.map_eq_some_iff.mp h
    simp only [Node.parts, List.mem_cons, List.not_mem_nil, or_false, Prod.mk.injEq] at hc
    obtain ⟨rfl, rfl⟩ := hc
    exact leads_expr hvalue
  | binary | range | subscript | join =>
    obtain ⟨first, second, hfirst, hsecond, rfl⟩ := Reading.map₂_eq_some_iff.mp h
    simp only [Node.parts, List.mem_cons, List.not_mem_nil, or_false, Prod.mk.injEq] at hc
    rcases hc with ⟨rfl, rfl⟩ | ⟨rfl, rfl⟩
    · exact leads_expr hfirst
    · exact leads_expr hsecond
  | getVar =>
    obtain ⟨name, -, rfl⟩ := Option.map_eq_some_iff.mp h
    cases hc
  | list =>
    obtain ⟨items, hitems, rfl⟩ := Option.map_eq_some_iff.mp h
    exact leads_exprs hitems hc
  | input =>
    obtain ⟨prompt, hprompt, rfl⟩ := Option.map_eq_some_iff.mp h
    cases prompt with
    | none => cases hc
    | some e =>
      obtain ⟨rfl, rfl⟩ : step = [.key "prompt"] ∧ c = .expr e := by simpa [Node.parts] using hc
      exact leads_expr? hprompt
  | func =>
    obtain ⟨params, code, -, hcode, rfl⟩ := Reading.map₂_eq_some_iff.mp h
    exact leads_code hcode hc
  | call =>
    obtain ⟨target, args, kwargs, htarget, hargs, hkwargs, rfl⟩ := Reading.map₃_eq_some_iff.mp h
    simp only [Node.parts, List.mem_cons, List.mem_append, List.mem_map, Prod.mk.injEq] at hc
    rcases hc with ⟨rfl, rfl⟩ | hc | ⟨kwarg, hkwarg, rfl, rfl⟩
    · exact leads_expr htarget
    · exact leads_exprs hargs hc
    · exact leads_named hkwargs hkwarg

/-- The fields of an instruction lead to its children, form by form. -/
theorem leads_stmtForm {tag : StmtTag} {span : Option Span} {s : Stmt Unit}
    (h : Reading.stmtForm (readMembers members) tag span = some s) (hc : (step, c) ∈ (Node.stmt s).parts) :
    (object members).Leads step c := by
  cases tag with
  | setVar =>
    obtain ⟨name, value, -, hvalue, rfl⟩ := Reading.map₂_eq_some_iff.mp h
    simp only [Node.parts, List.mem_cons, List.not_mem_nil, or_false, Prod.mk.injEq] at hc
    obtain ⟨rfl, rfl⟩ := hc
    exact leads_expr hvalue
  | compound | append | remove =>
    obtain ⟨first, second, hfirst, hsecond, rfl⟩ := Reading.map₂_eq_some_iff.mp h
    simp only [Node.parts, List.mem_cons, List.not_mem_nil, or_false, Prod.mk.injEq] at hc
    rcases hc with ⟨rfl, rfl⟩ | ⟨rfl, rfl⟩
    · exact leads_expr hfirst
    · exact leads_expr hsecond
  | print =>
    obtain ⟨value, hvalue, rfl⟩ := Option.map_eq_some_iff.mp h
    simp only [Node.parts, List.mem_cons, List.not_mem_nil, or_false, Prod.mk.injEq] at hc
    obtain ⟨rfl, rfl⟩ := hc
    exact leads_expr hvalue
  | insert =>
    obtain ⟨target, index, value, htarget, hindex, hvalue, rfl⟩ := Reading.map₃_eq_some_iff.mp h
    simp only [Node.parts, List.mem_cons, List.not_mem_nil, or_false, Prod.mk.injEq] at hc
    rcases hc with ⟨rfl, rfl⟩ | ⟨rfl, rfl⟩ | ⟨rfl, rfl⟩
    · exact leads_expr htarget
    · exact leads_expr hindex
    · exact leads_expr hvalue
  | cond =>
    obtain ⟨test, code, otherwise, htest, hcode, hotherwise, rfl⟩ := Reading.map₃_eq_some_iff.mp h
    simp only [Node.parts, List.mem_cons, List.mem_append, Prod.mk.injEq] at hc
    rcases hc with ⟨rfl, rfl⟩ | hc | hc
    · exact leads_expr htest
    · exact leads_code hcode hc
    · exact leads_code? hotherwise hc
  | switch =>
    obtain ⟨cases, default, hcases, hdefault, rfl⟩ := Reading.map₂_eq_some_iff.mp h
    simp only [Node.parts, List.mem_append, List.mem_flatMap, List.mem_cons] at hc
    rcases hc with ⟨⟨⟨test, code⟩, i⟩, hi, hc⟩ | hc
    · rw [List.mk_mem_zipIdx_iff_getElem?] at hi
      obtain ⟨list, hlist, hread⟩ := exists_of_field hcases
      obtain ⟨part, hpart, hcase⟩ := exists_of_cases hread hi
      obtain ⟨htest, hcode⟩ := leads_case hcase
      rcases hc with hc | hc
      · cases hc
        exact hlist.leads (hpart.leads htest)
      · obtain ⟨rest, rfl, hrest⟩ := Node.mem_inOrder_append [.key "cases", .index i] [.key "code"] hc
        exact (hlist.trans hpart).leads (hcode rest c hrest)
    · exact leads_code? hdefault hc
  | loop =>
    obtain ⟨var, list, code, -, hlist, hcode, rfl⟩ := Reading.map₃_eq_some_iff.mp h
    simp only [Node.parts, List.mem_cons, Prod.mk.injEq] at hc
    rcases hc with ⟨rfl, rfl⟩ | hc
    · exact leads_expr hlist
    · exact leads_code hcode hc
  | ret =>
    obtain ⟨value, hvalue, rfl⟩ := Option.map_eq_some_iff.mp h
    cases value with
    | none => cases hc
    | some e =>
      obtain ⟨rfl, rfl⟩ : step = [.key "value"] ∧ c = .expr e := by simpa [Node.parts] using hc
      exact leads_expr? hvalue

/-- What is read as an expression is a scalar, or an object with a tag. -/
theorem read_expr_cases {doc : Json} {e : Expr Unit} (h : doc.read .expr = some e) :
    ((∀ members, doc ≠ .object members) ∧ ∃ value, e = .literal none value) ∨
      ∃ members tag span, doc = .object members ∧ HasTag members (ExprTag.text tag) ∧
        Reading.exprForm (readMembers members) tag span = some e := by
  cases doc with
  | null | array => cases h
  | bool | float | string =>
    cases h
    exact .inl ⟨by simp, _, rfl⟩
  | int n =>
    simp only [read, Reading.ofInt, Option.ite_none_right_eq_some, Option.some.injEq] at h
    obtain ⟨-, rfl⟩ := h
    exact .inl ⟨by simp, _, rfl⟩
  | object members =>
    obtain ⟨text, htext, h⟩ := Option.bind_eq_some_iff.mp h
    obtain ⟨tag, htag, h⟩ := Option.bind_eq_some_iff.mp h
    obtain ⟨span, -, h⟩ := Option.bind_eq_some_iff.mp h
    rw [← ExprTag.text_of_ofText? htag] at htext
    exact .inr ⟨members, tag, span, rfl, field_type.mp htext, h⟩

/-- What is read as an instruction is an object with the tag of an instruction, or one that is read as an expression. -/
theorem read_stmt_cases {doc : Json} {s : Stmt Unit} (h : doc.read .stmt = some s) :
    ∃ members, doc = .object members ∧
      ((∃ tag span, HasTag members (StmtTag.text tag) ∧ Reading.stmtForm (readMembers members) tag span = some s) ∨
        ∃ e, doc.read .expr = some e ∧ s = .expr e.span e) := by
  cases doc with
  | int n => simp [read, Reading.ofInt] at h
  | object members =>
    refine ⟨members, rfl, ?_⟩
    obtain ⟨text, htext, h⟩ := Option.bind_eq_some_iff.mp h
    cases htag : StmtTag.ofText? text with
    | some tag =>
      rw [htag] at h
      obtain ⟨span, -, h⟩ := Option.bind_eq_some_iff.mp h
      rw [← StmtTag.text_of_ofText? htag] at htext
      exact .inl ⟨tag, span, field_type.mp htext, h⟩
    | none =>
      rw [htag] at h
      obtain ⟨e, he, rfl⟩ := Option.map_eq_some_iff.mp h
      exact .inr ⟨e, he, rfl⟩
  | _ => cases h

/-- The way from a node to a child is the way between their documents. -/
theorem StandsFor.leads {doc : Json} {n : Node Unit} (h : doc.StandsFor n) (hc : (step, c) ∈ n.parts) : doc.Leads step c := by
  cases n with
  | expr e =>
    rcases read_expr_cases h with ⟨-, value, rfl⟩ | ⟨members, tag, span, rfl, -, hform⟩
    · cases hc
    · exact leads_exprForm hform hc
  | stmt s =>
    obtain ⟨members, rfl, ⟨tag, span, -, hform⟩ | ⟨e, he, rfl⟩⟩ := read_stmt_cases h
    · exact leads_stmtForm hform hc
    · obtain ⟨rfl, rfl⟩ : step = [] ∧ c = .expr e := by simpa [Node.parts] using hc
      exact ⟨_, .root, he⟩

/-- A node and the document that it stands for have one path. -/
theorem StandsFor.leads_of_at {doc : Json} {n x : Node Unit} {path : Path} (hx : n.At path x) (h : doc.StandsFor n) :
    doc.Leads path x := by
  induction hx generalizing doc with
  | self n => exact ⟨doc, .root, h⟩
  | inside hc _ ih =>
    obtain ⟨part, hpart, hstands⟩ := h.leads hc
    exact hpart.leads (ih hstands)

end

end Json

/-! ## Tags -/

/-- The tag of a node. -/
def Node.tag : Node Unit → String
  | expr e => e.tag
  | stmt s => s.tag

namespace Json

/-- An expression that is read by a tag has that tag. -/
theorem tag_exprForm {members : List (String × Reading)} {tag : ExprTag} {span : Option Span} {e : Expr Unit}
    (h : Reading.exprForm members tag span = some e) : e.tag = tag.text := by
  cases tag with
  | convert | not | len | typeOf | getVar | list | input =>
    obtain ⟨_, -, rfl⟩ := Option.map_eq_some_iff.mp h
    rfl
  | binary | range | subscript | join | func =>
    obtain ⟨_, _, -, -, rfl⟩ := Reading.map₂_eq_some_iff.mp h
    rfl
  | call =>
    obtain ⟨_, _, _, -, -, -, rfl⟩ := Reading.map₃_eq_some_iff.mp h
    rfl

/-- An instruction that is read by a tag has that tag. -/
theorem tag_stmtForm {members : List (String × Reading)} {tag : StmtTag} {span : Option Span} {s : Stmt Unit}
    (h : Reading.stmtForm members tag span = some s) : s.tag = tag.text := by
  cases tag with
  | print | ret =>
    obtain ⟨_, -, rfl⟩ := Option.map_eq_some_iff.mp h
    rfl
  | setVar | compound | append | remove | switch =>
    obtain ⟨_, _, -, -, rfl⟩ := Reading.map₂_eq_some_iff.mp h
    rfl
  | insert | cond | loop =>
    obtain ⟨_, _, _, -, -, -, rfl⟩ := Reading.map₃_eq_some_iff.mp h
    rfl

/-- A node has the tag of the object that it stands for. -/
theorem StandsFor.hasTag {members : List (String × Json)} {n : Node Unit} (h : (object members).StandsFor n) :
    HasTag members n.tag := by
  have hexpr : ∀ e, (object members).read .expr = some e → HasTag members e.tag := by
    intro e he
    rcases read_expr_cases he with ⟨hne, -⟩ | ⟨members', tag, span, hdoc, htag, hform⟩
    · exact absurd rfl (hne members)
    · cases hdoc
      rwa [tag_exprForm hform]
  cases n with
  | expr e => exact hexpr e h
  | stmt s =>
    obtain ⟨members', hdoc, ⟨tag, span, htag, hform⟩ | ⟨e, he, rfl⟩⟩ := read_stmt_cases h
    · cases hdoc
      rw [← tag_stmtForm hform] at htag
      exact htag
    · exact hexpr e he

/-- An instruction comes from an object. -/
theorem StandsFor.exists_object {doc : Json} {s : Stmt Unit} (h : doc.StandsFor (.stmt s)) : ∃ members, doc = .object members := by
  obtain ⟨members, hdoc, -⟩ := read_stmt_cases h
  exact ⟨members, hdoc⟩

end Json

/-! ## Programs -/

/-- A node stands in a program, at the end of a path. -/
def Program.HasAt (program : Program) (path : Path) (x : Node Unit) : Prop :=
  ∃ i s rest, program[i]? = some s ∧ path = .index i :: rest ∧ (Node.stmt s).At rest x

/-- Every node of a program stands somewhere. -/
theorem Program.exists_hasAt (program : Program) {s : Stmt Unit} (hs : s ∈ program) {x : Node Unit}
    (hx : (Node.stmt s).Contains x) : ∃ path, program.HasAt path x := by
  obtain ⟨i, hi⟩ := List.mem_iff_getElem?.mp hs
  obtain ⟨path, hpath⟩ := hx.exists_at
  exact ⟨.index i :: path, i, s, path, hi, rfl, hpath⟩

/-- The part of a document that a node comes from: it stands at the path of the node and is read as the node. An instruction comes
from an object, and an object has the tag of its node. -/
structure Json.Origin (doc : Json) (path : Path) (x : Node Unit) (part : Json) : Prop where
  resolves : doc.Resolves path part
  standsFor : part.StandsFor x
  object : ∀ s, x = .stmt s → ∃ members, part = .object members
  hasTag : ∀ members, part = .object members → HasTag members x.tag

/-- Every node of a loaded program has an origin. -/
theorem Program.exists_origin {doc : Json} {program : Program} (h : ofJson doc = .ok program) {path : Path} {x : Node Unit}
    (hx : program.HasAt path x) : ∃ part, doc.Origin path x part := by
  obtain ⟨i, s, rest, hs, rfl, hrest⟩ := hx
  obtain ⟨first, hfirst, hread⟩ := Json.exists_of_block ((ofJson_eq_ok_iff doc program).mp h) hs
  have hstands : first.StandsFor (.stmt s) := hread
  obtain ⟨part, hpart, hx⟩ := hstands.leads_of_at hrest
  refine ⟨part, hfirst.trans hpart, hx, ?_, ?_⟩
  · rintro s rfl
    exact hx.exists_object
  · rintro members rfl
    exact hx.hasTag

end NodeScript
