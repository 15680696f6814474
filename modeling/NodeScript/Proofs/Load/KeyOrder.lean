import Mathlib.Data.List.Forall2
import NodeScript.Proofs.Json.Path
import NodeScript.Proofs.Load.Exact

/-!
# The order of keys

A node is read field by field, and each field is looked up by its name, so it does not matter in which order the fields stand. The
one exception is the object with the named arguments of a call, which keeps the order of the document. `Json.Rearranged` says of
two documents that they differ in nothing else, and then they load alike (`Program.loadWith_blind`), errors included: a loader
that went through the keys of a node one by one would give the same errors in another order.
-/

namespace NodeScript

/-- Whether the keys of an object may change places. -/
inductive KeyOrder where
  | free
  | fixed

/-- What holds for an object under a key of another: the named arguments of a call keep their order. -/
def KeyOrder.under (members : List (String × Json)) (name : String) : KeyOrder :=
  if name = "kwargs" ∧ (Json.member? "type" members).bind Json.string? = some "call" then .fixed else .free

namespace Json

/-- Two documents differ only in the order of keys, at any depth. An object that has a key twice stays as it is; no text holds one
(`distinct_of_parse?`). -/
inductive Rearranged : KeyOrder → Json → Json → Prop where
  | same (order : KeyOrder) (doc : Json) : Rearranged order doc doc
  | array {order : KeyOrder} {items items' : List Json} (length : items.length = items'.length)
      (item : ∀ (i : Nat) a b, items[i]? = some a → items'[i]? = some b → Rearranged .free a b) :
      Rearranged order (.array items) (.array items')
  | object {members members' : List (String × Json)} (distinct : (members.map Prod.fst).Nodup)
      (keys : (members.map Prod.fst).Perm (members'.map Prod.fst))
      (value : ∀ name a b, (name, a) ∈ members → (name, b) ∈ members' → Rearranged (.under members name) a b) :
      Rearranged .free (.object members) (.object members')
  | arguments {members members' : List (String × Json)} (keys : members.map Prod.fst = members'.map Prod.fst)
      (value : ∀ (i : Nat) m m', members[i]? = some m → members'[i]? = some m' → Rearranged .free m.2 m'.2) :
      Rearranged .fixed (.object members) (.object members')

/-- What a function makes of a document is the same in any order of keys. -/
def Blind (order : KeyOrder) {β : Type} (f : Json → β) : Prop :=
  ∀ ⦃a b : Json⦄, Rearranged order a b → f a = f b

/-- What is blind where keys are free to move is so under every key but that of named arguments. -/
theorem Blind.under {β : Type} {f : Json → β} (hf : Blind .free f) {members : List (String × Json)} {name : String}
    (hname : name ≠ "kwargs") : Blind (.under members name) f := by
  rw [KeyOrder.under, if_neg fun hcall => hname hcall.1]
  exact hf

/-! ## Scalars and depths -/

theorem blind_string? (order : KeyOrder) : Blind order string? := by
  intro a b h
  cases h <;> rfl

/-- Whether a document is a coordinate has nothing to do with keys. -/
theorem blind_coordinate? (order : KeyOrder) : Blind order coordinate? := by
  intro a b h
  cases h <;> rfl

/-- Lists of one length go together item by item if they do place by place. -/
theorem forall₂_of_getElem? {α : Type} {R : α → α → Prop} {xs ys : List α} (length : xs.length = ys.length)
    (h : ∀ (i : Nat) x y, xs[i]? = some x → ys[i]? = some y → R x y) : List.Forall₂ R xs ys := by
  refine List.forall₂_iff_get.mpr ⟨length, fun i hx hy => ?_⟩
  exact h i _ _ (List.getElem?_eq_getElem hx) (List.getElem?_eq_getElem hy)

/-- Items that are as deep one by one are as deep together. -/
theorem depthItems_congr {items items' : List Json} (h : List.Forall₂ (fun a b => a.depth = b.depth) items items') :
    depthItems items = depthItems items' := by
  induction h with
  | nil => rfl
  | cons hitem _ ih => rw [depthItems, depthItems, hitem, ih]

section

variable {members members' : List (String × Json)}

/-- Members that are as deep one by one are as deep together. -/
theorem depthMembers_congr (h : List.Forall₂ (fun m m' => m.2.depth = m'.2.depth) members members') :
    depthMembers members = depthMembers members' := by
  induction h with
  | nil => rfl
  | cons hm _ ih => rw [depthMembers, depthMembers, hm, ih]

/-- Members are together as deep as the deepest of them. -/
theorem depthMembers_le {n : Nat} (h : ∀ m ∈ members, m.2.depth ≤ n) : depthMembers members ≤ n := by
  induction members with
  | nil => exact Nat.zero_le n
  | cons m rest ih =>
    rw [List.forall_mem_cons] at h
    exact Nat.max_le.mpr ⟨h.1, ih h.2⟩

/-- An object is no deeper than another that has under each of its keys a value as deep. -/
theorem depth_object_le (keys : members.map Prod.fst ⊆ members'.map Prod.fst)
    (h : ∀ name a b, (name, a) ∈ members → (name, b) ∈ members' → a.depth = b.depth) :
    (object members).depth ≤ (object members').depth := by
  refine Nat.succ_le_succ (depthMembers_le fun m hm => ?_)
  obtain ⟨m', hm', hname⟩ := List.mem_map.mp (keys (List.mem_map_of_mem hm))
  rw [h m.1 m.2 m'.2 hm (hname ▸ hm')]
  exact Nat.le_of_lt_succ (depth_lt_of_mem_members hm')

theorem length_eq_of_keys (keys : members.map Prod.fst = members'.map Prod.fst) : members.length = members'.length := by
  simpa using congrArg List.length keys

/-- How deep a document is does not depend on the order of its keys. -/
theorem blind_depth (order : KeyOrder) : Blind order depth := by
  intro a b h
  induction h with
  | same => rfl
  | array length _ ih => rw [depth, depth, depthItems_congr (forall₂_of_getElem? length ih)]
  | object _ keys _ ih =>
    exact Nat.le_antisymm (depth_object_le keys.subset ih)
      (depth_object_le keys.symm.subset fun name a b ha hb => (ih name b a hb ha).symm)
  | arguments keys _ ih => rw [depth, depth, depthMembers_congr (forall₂_of_getElem? (length_eq_of_keys keys) ih)]

/-! ## Members -/

/-- A key is in both objects or in neither, and its values differ only in the order of keys. -/
theorem Rearranged.member? (h : Rearranged .free (.object members) (.object members')) (name : String) :
    (Json.member? name members = none ∧ Json.member? name members' = none) ∨
      ∃ a b, Json.member? name members = some a ∧ Json.member? name members' = some b ∧
        Rearranged (.under members name) a b := by
  cases h with
  | same =>
    rcases Option.eq_none_or_eq_some (Json.member? name members) with hnone | ⟨a, ha⟩
    · exact .inl ⟨hnone, hnone⟩
    · exact .inr ⟨a, a, ha, ha, .same _ a⟩
  | object distinct keys value =>
    by_cases hname : name ∈ members.map Prod.fst
    · obtain ⟨m, hm, rfl⟩ := List.mem_map.mp hname
      obtain ⟨m', hm', hname'⟩ := List.mem_map.mp (keys.mem_iff.mp hname)
      have hb : (m.1, m'.2) ∈ members' := hname' ▸ hm'
      exact .inr ⟨m.2, m'.2, member?_eq_of_mem distinct hm, member?_eq_of_mem (keys.nodup_iff.mp distinct) hb,
        value m.1 m.2 m'.2 hm hb⟩
    · have hname' : name ∉ members'.map Prod.fst := fun hmem => hname (keys.mem_iff.mpr hmem)
      exact .inl ⟨member?_eq_none hname, member?_eq_none hname'⟩

/-- An object without a repeated key has one value under each key. -/
theorem value_unique (distinct : (members.map Prod.fst).Nodup) {name : String} {a b : Json} (ha : (name, a) ∈ members)
    (hb : (name, b) ∈ members) : a = b :=
  Option.some.inj ((member?_eq_of_mem distinct ha).symm.trans (member?_eq_of_mem distinct hb))

/-- The members of an object may change places while one of its values is rearranged itself. -/
theorem Rearranged.update (before after : List (String × Json)) {name : String} {a b : Json}
    (distinct : ((before ++ (name, a) :: after).map Prod.fst).Nodup) (h : ∀ order, Rearranged order a b)
    (perm : (before ++ (name, b) :: after).Perm members') :
    Rearranged .free (.object (before ++ (name, a) :: after)) (.object members') := by
  have hkeys : (before ++ (name, a) :: after).map Prod.fst = (before ++ (name, b) :: after).map Prod.fst := by simp
  refine .object distinct (hkeys ▸ perm.map Prod.fst) fun key x y hx hy => ?_
  rw [← perm.mem_iff] at hy
  by_cases hkey : key = name
  · subst hkey
    obtain rfl := value_unique distinct hx (b := a) (by simp)
    obtain rfl := value_unique (hkeys ▸ distinct) hy (b := b) (by simp)
    exact h _
  · have hy : (key, y) ∈ before ++ (name, a) :: after := by simpa [hkey] using hy
    obtain rfl := value_unique distinct hx hy
    exact .same _ x

/-- An array with one document in it, as programs are. -/
theorem Rearranged.singleton {a b : Json} (h : Rearranged .free a b) (order : KeyOrder) :
    Rearranged order (.array [a]) (.array [b]) := by
  refine .array rfl fun i x y hx hy => ?_
  simp only [List.getElem?_singleton, Option.ite_none_right_eq_some, Option.some.injEq] at hx hy
  rw [← hx.2, ← hy.2]
  exact h

end

end Json

/-! ## Loading parts of documents -/

namespace Load

open Json

variable {α : Type} {x : Json → Load α}

/-- What the items of an array load as, together, follows from what each of them loads as. -/
theorem items_congr {docs docs' : List Json} (h : List.Forall₂ (fun a b => x a = x b) docs docs') (i : Nat) :
    items x i docs = items x i docs' := by
  induction h generalizing i with
  | nil => rfl
  | cons hdoc _ ih => rw [items, items, hdoc, ih]

/-- What named members load as, together, follows from the name of each of them and from what it loads as. -/
theorem named_congr {members members' : List (String × Json)}
    (h : List.Forall₂ (fun m m' => m.1 = m'.1 ∧ x m.2 = x m'.2) members members') : named x members = named x members' := by
  induction h with
  | nil => rfl
  | cons hm _ ih => rw [named, named, hm.1, hm.2, ih]

/-- An array is blind to the order of keys if its items are. -/
theorem blind_array (hx : Blind .free x) (order : KeyOrder) (name : String) : Blind order (array name x) := by
  intro a b h
  cases h with
  | same => rfl
  | array length item => exact items_congr (forall₂_of_getElem? length fun i a b ha hb => hx (item i a b ha hb)) 0
  | object | arguments => rfl

/-- Where the keys of an object keep their places, it is blind to the order of the keys inside. -/
theorem blind_object (hx : Blind .free x) (name : String) : Blind .fixed (object name x) := by
  intro a b h
  cases h with
  | same => rfl
  | array => rfl
  | arguments keys value =>
    refine named_congr (forall₂_of_getElem? (length_eq_of_keys keys) fun i m m' hm hm' => ?_)
    have hkey := congrArg (·[i]?) keys
    exact ⟨by simpa [hm, hm'] using hkey, hx (value i m m' hm hm')⟩

theorem blind_text (order : KeyOrder) (name : String) : Blind order (text name) := by
  intro a b h
  cases h <;> rfl

/-- Items that have the same results one by one have them together. -/
theorem mapM_congr {β : Type} {f : Json → Option β} {docs docs' : List Json}
    (h : List.Forall₂ (fun a b => f a = f b) docs docs') : docs.mapM f = docs'.mapM f := by
  induction h with
  | nil => rfl
  | cons hdoc _ ih => rw [List.mapM_cons, List.mapM_cons, hdoc, ih]

/-- The parameters of a function are texts, which have no keys. -/
theorem blind_params (order : KeyOrder) : Blind order NodeLoader.params := by
  intro a b h
  cases h with
  | same => rfl
  | array length item =>
    have hnames := mapM_congr (forall₂_of_getElem? length fun i a b ha hb => blind_string? .free (item i a b ha hb))
    rw [NodeLoader.params, NodeLoader.params, hnames]
  | object | arguments => rfl

end Load

/-! ## Loading nodes -/

namespace Json.Rearranged

variable {α : Type} {x : Json → Load α} {members members' : List (String × Json)}
  (h : Rearranged .free (.object members) (.object members'))

include h

/-- A field that has to be there loads alike: it is there in both objects or in neither. -/
theorem field (name : String) (hx : Blind (.under members name) x) (tag : String) :
    Load.field tag name x members = Load.field tag name x members' := by
  rcases h.member? name with ⟨hm, hm'⟩ | ⟨a, b, hm, hm', hab⟩
  · simp only [Load.field, hm, hm']
  · simp only [Load.field, hm, hm', hx hab]

/-- A field that may be missing loads alike: it is there in both objects or in neither. -/
theorem field? (name : String) (hx : Blind (.under members name) x) :
    Load.field? name x members = Load.field? name x members' := by
  rcases h.member? name with ⟨hm, hm'⟩ | ⟨a, b, hm, hm', hab⟩
  · simp only [Load.field?, hm, hm']
  · simp only [Load.field?, hm, hm', hx hab]

/-- The column of a node is found under its key, wherever that stands. -/
theorem column : Load.column members = Load.column members' := by
  rcases h.member? "column" with ⟨hm, hm'⟩ | ⟨a, b, hm, hm', hab⟩
  · simp only [Load.column, hm, hm']
  · simp only [Load.column, hm, hm', blind_coordinate? _ hab]

/-- The position of a node is found under its keys, wherever these stand. -/
theorem span : Load.span members = Load.span members' := by
  rcases h.member? "line" with ⟨hm, hm'⟩ | ⟨a, b, hm, hm', hab⟩
  · simp only [Load.span, hm, hm']
  · simp only [Load.span, hm, hm', blind_coordinate? _ hab, h.column]

/-- A node loads alike if its form does at each position. -/
theorem node {y y' : Option Span → Load α} (hy : ∀ span, y span = y' span) : Load.node members y = Load.node members' y' := by
  rw [funext hy]
  unfold Load.node
  rw [h.span]

end Json.Rearranged

/-- What a loader makes of expressions and instructions is the same in any order of keys. -/
structure NodeLoader.Blind (r : NodeLoader) : Prop where
  expr : Json.Blind .free r.expr
  stmt : Json.Blind .free r.stmt

namespace NodeLoader.Blind

open Json

variable {r : NodeLoader} {members members' : List (String × Json)}

/-- What a block loads as follows from what each instruction loads as; those that fail are left out. -/
theorem stmts_congr {docs docs' : List Json} (h : List.Forall₂ (fun a b => r.stmt a = r.stmt b) docs docs') (i : Nat) :
    r.stmts i docs = r.stmts i docs' := by
  induction h generalizing i with
  | nil => rfl
  | cons hdoc _ ih =>
    funext place log
    rw [NodeLoader.stmts, NodeLoader.stmts, hdoc, ih]

/-- Instructions that differ in the order of keys load alike, place by place. -/
theorem stmts (hr : r.Blind) {items items' : List Json} (length : items.length = items'.length)
    (item : ∀ (i : Nat) a b, items[i]? = some a → items'[i]? = some b → Rearranged .free a b) :
    r.stmts 0 items = r.stmts 0 items' :=
  stmts_congr (forall₂_of_getElem? length fun i a b ha hb => hr.stmt (item i a b ha hb)) 0

/-- A block loads alike in any order of keys. -/
theorem block (hr : r.Blind) : Json.Blind .free r.block := by
  intro a b h
  cases h with
  | same => rfl
  | array length item => exact hr.stmts length item
  | object => rfl

/-- A case of a switch loads alike in any order of keys. -/
theorem switchCase (hr : r.Blind) : Json.Blind .free r.switchCase := by
  intro a b h
  cases h with
  | same => rfl
  | array => rfl
  | object distinct keys value =>
    have h := Rearranged.object distinct keys value
    unfold NodeLoader.switchCase
    refine h.node fun _ => ?_
    rw [h.field "cond" (hr.expr.under (by decide)), h.field "code" (hr.block.under (by decide))]

/-- Every form of expressions loads alike. The call is the one with a field that is not free: its tag makes sure that the key of
the named arguments keeps their order. -/
theorem exprForm (hr : r.Blind) (h : Rearranged .free (.object members) (.object members')) {tag : ExprTag}
    (htag : HasTag members tag.text) (span : Option Span) : r.exprForm members tag span = r.exprForm members' tag span := by
  have expr (name : String) (hname : name ≠ "kwargs") := h.field name (hr.expr.under hname) tag.text
  have exprs (name : String) (hname : name ≠ "kwargs") :
      Load.arrayField name r.expr members = Load.arrayField name r.expr members' := by
    rw [Load.arrayField, h.field? name ((Load.blind_array hr.expr _ name).under hname), Load.arrayField]
  cases tag with
  | convert | binary | not | len | typeOf | range | subscript | join =>
    simp (disch := decide) only [NodeLoader.exprForm, expr]
  | getVar => simp only [NodeLoader.exprForm, h.field "name" (Load.blind_text _ "name")]
  | list => simp (disch := decide) only [NodeLoader.exprForm, exprs]
  | input => simp only [NodeLoader.exprForm, h.field? "prompt" (hr.expr.under (by decide))]
  | func =>
    simp only [NodeLoader.exprForm, h.field "args" (Load.blind_params _), h.field "code" (hr.block.under (by decide))]
  | call =>
    -- The tag makes this a call, so the object under `kwargs` has kept its order.
    have hfixed : KeyOrder.under members "kwargs" = .fixed := by
      have htype : Json.member? "type" members = some (.string "call") := htag
      simp [KeyOrder.under, htype, string?]
    have named : Json.Blind (.under members "kwargs") (Load.object "kwargs" r.expr) := hfixed ▸ Load.blind_object hr.expr "kwargs"
    simp (disch := decide) only [NodeLoader.exprForm, expr, exprs, h.field? "kwargs" named]

/-- Every form of instructions loads alike; none of them has named arguments. -/
theorem stmtForm (hr : r.Blind) (h : Rearranged .free (.object members) (.object members')) (tag : StmtTag)
    (span : Option Span) : r.stmtForm members tag span = r.stmtForm members' tag span := by
  have expr (name : String) (hname : name ≠ "kwargs") := h.field name (hr.expr.under hname) tag.text
  have code (name : String) (hname : name ≠ "kwargs") := h.field name (hr.block.under hname) tag.text
  have text (name : String) := h.field name (Load.blind_text _ name) tag.text
  have code? (name : String) (hname : name ≠ "kwargs") := h.field? name (hr.block.under hname)
  cases tag with
  | setVar | compound | append | insert | remove | print | cond | loop =>
    simp (disch := decide) only [NodeLoader.stmtForm, expr, code, text, code?]
  | switch =>
    simp (disch := decide) only [NodeLoader.stmtForm, code?]
    rcases h.member? "cases" with ⟨hm, hm'⟩ | ⟨a, b, hm, hm', hab⟩
    · simp only [hm, hm']
    · simp only [hm, hm', Load.blind_array hr.switchCase _ "cases" hab]
  | ret => simp only [NodeLoader.stmtForm, h.field? "value" (hr.expr.under (by decide))]

/-- A node loads alike if what follows its tag does: the tag is the same. -/
theorem tagged {α : Type} {x x' : List (String × Json) → String → Load α}
    (h : Rearranged .free (.object members) (.object members'))
    (hx : ∀ tag, HasTag members tag → x members tag = x' members' tag) :
    NodeLoader.tagged (.object members) x = NodeLoader.tagged (.object members') x' := by
  unfold NodeLoader.tagged
  rcases h.member? "type" with ⟨hm, hm'⟩ | ⟨a, b, hm, hm', hab⟩
  · simp only [hm, hm']
  · simp only [hm, hm']
    -- A string is rearranged into itself only; of anything else the message tells the kind, and no more.
    cases hab with
    | same =>
      cases a with
      | string tag => exact hx tag hm
      | _ => rfl
    | _ => rfl

/-- Expressions load alike at one level more. -/
theorem nextExpr (hr : r.Blind) : Json.Blind .free r.nextExpr := by
  intro a b h
  cases h with
  | same => rfl
  | array => rfl
  | object distinct keys value =>
    have h := Rearranged.object distinct keys value
    unfold NodeLoader.nextExpr
    refine tagged h fun tag htag => ?_
    cases hknown : ExprTag.ofText? tag with
    | none => rfl
    | some known =>
      rw [← ExprTag.text_of_ofText? hknown] at htag
      exact h.node (hr.exprForm h htag)

/-- Instructions load alike at one level more. -/
theorem nextStmt (hr : r.Blind) : Json.Blind .free r.nextStmt := by
  intro a b h
  cases h with
  | same => rfl
  | array => rfl
  | object distinct keys value =>
    have h := Rearranged.object distinct keys value
    unfold NodeLoader.nextStmt
    refine tagged h fun tag _ => ?_
    cases StmtTag.ofText? tag with
    | some known => exact h.node (hr.stmtForm h known)
    | none => simp only [hr.nextExpr h]

/-- One level more is blind too. -/
theorem next (hr : r.Blind) : r.next.Blind :=
  ⟨hr.nextExpr, hr.nextStmt⟩

/-- The loader of each level is blind. -/
theorem loader (n : Nat) : (nodeLoader n).Blind := by
  induction n with
  | zero => exact ⟨fun _ _ _ => rfl, fun _ _ _ => rfl⟩
  | succ n ih => exact ih.next

end NodeLoader.Blind

/-! ## Programs -/

/-- Programs load alike in any order of keys, whatever is wrong with them and however many errors are kept. -/
theorem Program.loadWith_blind (capacity : Option Nat) : Json.Blind .free (loadWith capacity) := by
  intro a b h
  cases h with
  | same => rfl
  | array length item =>
    -- How many levels the loader has comes from the document, so the depths have to agree first.
    have hdepth := Json.blind_depth .free (.array length item)
    simp only [loadWith, hdepth, (NodeLoader.Blind.loader _).stmts length item]
  | object => rfl

/-- Documents that differ only in the order of keys, that of a call's named arguments apart, load alike: they give the same
program or the same errors in the same order, and the same number of them, whatever number of errors is kept. -/
theorem loads_alike_in_any_key_order {doc doc' : Json} (h : Json.Rearranged .free doc doc') :
    Program.ofJson doc = Program.ofJson doc' ∧ ∀ capacity, Program.loadWith capacity doc = Program.loadWith capacity doc' := by
  refine ⟨?_, fun capacity => Program.loadWith_blind capacity h⟩
  rw [Program.ofJson, Program.loadWith_blind _ h, Program.ofJson]

-- The named arguments of a call are in the program in the order of the document.
example :
    Program.ofJson (.array [.object [("kwargs", .object [("b", .int 1), ("a", .int 2)]), ("target", .bool true),
      ("type", .string "call")]]) =
    .ok [.expr none (.call none (.literal none (.bool true)) []
      [("b", .literal none (.int 1)), ("a", .literal none (.int 2))])] := by
  rfl

/-- A call without a target and with an argument that is no expression. -/
def brokenCall : List (String × Json) :=
  [("type", .string "call"), ("line", .int 7), ("kwargs", .object [("b", .null), ("a", .int 1)])]

/-- A case without a condition, in which a call stands. -/
def brokenCase (call : List (String × Json)) : List (String × Json) :=
  [("line", .int 3), ("code", .array [.object call])]

/-- A switch with a line that is no number and one case. -/
def brokenSwitch (case : List (String × Json)) : List (String × Json) :=
  [("type", .string "switch"), ("line", .null), ("cases", .array [.object case])]

/-- Four errors, found in the same order when every key but those of the named arguments changes its place. -/
theorem brokenSwitch_loads_alike :
    Json.Rearranged .free (.array [.object (brokenSwitch (brokenCase brokenCall))])
      (.array [.object (brokenSwitch (brokenCase brokenCall.reverse).reverse).reverse]) ∧
    (Program.loadWith none (.array [.object (brokenSwitch (brokenCase brokenCall))])).log.total = 4 ∧
    Program.loadWith none (.array [.object (brokenSwitch (brokenCase brokenCall))]) =
      Program.loadWith none (.array [.object (brokenSwitch (brokenCase brokenCall.reverse).reverse).reverse]) := by
  have call : Json.Rearranged .free (.object brokenCall) (.object brokenCall.reverse) :=
    .update [] brokenCall.tail (by decide) (fun _ => .same _ _) (List.reverse_perm _).symm
  have case : Json.Rearranged .free (.object (brokenCase brokenCall)) (.object (brokenCase brokenCall.reverse).reverse) :=
    .update [("line", .int 3)] [] (by decide) call.singleton (List.reverse_perm _).symm
  have switch : Json.Rearranged .free (.object (brokenSwitch (brokenCase brokenCall)))
      (.object (brokenSwitch (brokenCase brokenCall.reverse).reverse).reverse) :=
    .update [("type", .string "switch"), ("line", .null)] [] (by decide) case.singleton (List.reverse_perm _).symm
  have h := switch.singleton .free
  exact ⟨h, by rfl, (loads_alike_in_any_key_order h).2 none⟩

end NodeScript
