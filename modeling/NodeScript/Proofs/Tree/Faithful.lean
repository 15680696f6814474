import Mathlib.Data.List.Nodup
import NodeScript.Proofs.Load.Image
import NodeScript.Proofs.Load.KeyOrder
import NodeScript.Tree.Dump

/-!
# A dump is faithful

The dump of a tree is a document, and documents are compared as values: the order of the members of an object does not count
(`Json.Same`). Programs with the same dump are equal (`dump_faithful`), by induction over the nodes of the tree. A node is told
from all others by its dump if its children are: the name of the form tells the kind of node, the members have the same names for
every node of that kind, and what may be missing is `null`, which no node is.
-/

namespace NodeScript

/-! ## Documents as values -/

namespace Json

/-- Two documents are the same value. An object is a map from names to values, whatever the order of its members, and an integer is
never a float. Floats count by identity: the two zeros are told apart, which equality of numbers does not do, and what is not a
number is itself. -/
inductive Same : Json → Json → Prop where
  | null : Same .null .null
  | bool (b : Bool) : Same (.bool b) (.bool b)
  | int (n : Int) : Same (.int n) (.int n)
  | float (x : Float) : Same (.float x) (.float x)
  | string (s : String) : Same (.string s) (.string s)
  | array {items items' : List Json} (length : items.length = items'.length)
      (item : ∀ (i : Nat) a b, items[i]? = some a → items'[i]? = some b → Same a b) : Same (.array items) (.array items')
  | object {members members' : List (String × Json)}
      (keys : ∀ name, (member? name members).isSome = (member? name members').isSome)
      (value : ∀ name a b, member? name members = some a → member? name members' = some b → Same a b) :
      Same (.object members) (.object members')

namespace Same

variable {members members' : List (String × Json)}

/-- The values of objects that have the same names in the same order. -/
theorem values (h : Same (.object members) (.object members')) (keys : members.map Prod.fst = members'.map Prod.fst)
    (distinct : (members.map Prod.fst).Nodup) : List.Forall₂ Same (members.map Prod.snd) (members'.map Prod.snd) := by
  cases h with
  | object _ value =>
    refine forall₂_of_getElem? (by simpa using congrArg List.length keys) fun i a b ha hb => ?_
    simp only [List.getElem?_map, Option.map_eq_some_iff] at ha hb
    obtain ⟨m, hm, rfl⟩ := ha
    obtain ⟨m', hm', rfl⟩ := hb
    have hname : m.1 = m'.1 := by
      have hkeys := congrArg (·[i]?) keys
      simpa [hm, hm'] using hkeys
    refine value m.1 m.2 m'.2 (member?_eq_of_mem distinct (List.mem_of_getElem? hm)) ?_
    rw [hname]
    exact member?_eq_of_mem (keys ▸ distinct) (List.mem_of_getElem? hm')

/-- Items that come from different things are told apart if things with the same item are equal. -/
theorem items_eq {α : Type} {f : α → Json} {xs ys : List α} (h : Same (.array (xs.map f)) (.array (ys.map f)))
    (hf : ∀ x ∈ xs, ∀ y, Same (f x) (f y) → x = y) : xs = ys := by
  cases h with
  | array length item =>
    rw [List.length_map, List.length_map] at length
    refine List.ext_getElem length fun i hx hy => hf _ (List.getElem_mem hx) _ (item i _ _ ?_ ?_)
    · simp [hx]
    · simp [hy]

/-- It does not matter which of the two documents comes first. -/
theorem symm {a b : Json} (h : Same a b) : Same b a := by
  induction h with
  | null => exact .null
  | bool b => exact .bool b
  | int n => exact .int n
  | float x => exact .float x
  | string s => exact .string s
  | array length _ ih => exact .array length.symm fun i a b ha hb => ih i b a hb ha
  | object keys _ ih => exact .object (fun name => (keys name).symm) fun name a b ha hb => ih name b a hb ha

/-- Every document is the same value as itself. -/
theorem refl (doc : Json) : Same doc doc := by
  induction doc using Json.induction with
  | null => exact .null
  | bool b => exact .bool b
  | int n => exact .int n
  | float x => exact .float x
  | string s => exact .string s
  | array items ih =>
    refine .array rfl ?_
    intro i a b ha hb
    obtain rfl := Option.some.inj (ha.symm.trans hb)
    exact ih a (List.mem_of_getElem? ha)
  | object members ih =>
    refine .object (fun _ => rfl) ?_
    intro name a b ha hb
    obtain rfl := Option.some.inj (ha.symm.trans hb)
    obtain ⟨m, hm, rfl⟩ := exists_mem_of_member? ha
    exact ih m hm

theorem string_eq {s s' : String} (h : Same (.string s) (.string s')) : s = s' := by
  cases h
  rfl

theorem int_eq {n n' : Int} (h : Same (.int n) (.int n')) : n = n' := by
  cases h
  rfl

end Same

end Json

open Json

/-! ## Forms and positions -/

namespace Dump

variable {s s' : Option Span} {name name' : String} {content content' : Json}

/-- A form has one member, which gives its name and its content. -/
theorem same_form (h : Same (form name content) (form name' content')) : name = name' ∧ Same content content' := by
  have hname : name = name' := by
    cases h with
    | object keys _ => simpa [member?] using keys name
  subst hname
  have hvalues := h.values rfl (by simp)
  simpa using hvalues

/-- Positions that are dumped alike have the same line and the same column. -/
theorem span_eq {p p' : Span} (h : Same p.toJson p'.toJson) : p = p' := by
  obtain ⟨hline, hcolumn⟩ : Same (.int p.line.toNat) (.int p'.line.toNat) ∧
      Same (.int p.column.toNat) (.int p'.column.toNat) := by
    simpa using h.values rfl (by simp)
  have hline' : p.line = p'.line := UInt32.toNat_inj.mp (Int.ofNat_inj.mp hline.int_eq)
  have hcolumn' : p.column = p'.column := UInt32.toNat_inj.mp (Int.ofNat_inj.mp hcolumn.int_eq)
  cases p
  cases p'
  simp_all

/-- The dump of a node has its kind, and its position if it has one. -/
theorem node_eq (s : Option Span) (kind : Json) :
    node s kind = .object (("kind", kind) :: s.toList.map fun p => ("span", p.toJson)) := by
  cases s <;> rfl

/-- Nodes with the same dump have the same position, the same form, and the same content. -/
theorem same_node (h : Same (node s (form name content)) (node s' (form name' content'))) :
    s = s' ∧ name = name' ∧ Same content content' := by
  have hspans : s.isSome = s'.isSome := by
    rw [node_eq, node_eq] at h
    cases h with
    | object keys _ =>
      have hkey := keys "span"
      cases s <;> cases s' <;> simp_all [member?, List.lookup_cons]
  cases s with
  | none =>
    obtain rfl : s' = none := by simpa using hspans.symm
    have hkind : Same (form name content) (form name' content') := by simpa using h.values rfl (by simp)
    exact ⟨rfl, same_form hkind⟩
  | some p =>
    obtain ⟨p', rfl⟩ := Option.isSome_iff_exists.mp hspans.symm
    obtain ⟨hkind, hspan⟩ : Same (form name content) (form name' content') ∧ Same p.toJson p'.toJson := by
      simpa using h.values rfl (by simp)
    exact ⟨congrArg some (span_eq hspan), same_form hkind⟩

end Dump

/-! ## Words and literals -/

/-- No two conversions have one tag. -/
theorem Conversion.tag_injective {goal goal' : Conversion} (h : goal.tag = goal'.tag) : goal = goal' := by
  have htag := ExprTag.ofText?_text (.convert goal)
  rw [ExprTag.text, h, ← ExprTag.text, ExprTag.ofText?_text] at htag
  simpa using htag.symm

/-- No two operators of arithmetic have one tag. -/
theorem ArithOp.tag_injective {op op' : ArithOp} (h : op.tag = op'.tag) : op = op' := by
  have htag := ExprTag.ofText?_text (.binary (.arith op))
  rw [ExprTag.text, BinOp.tag, h, ← BinOp.tag, ← ExprTag.text, ExprTag.ofText?_text] at htag
  simpa using htag.symm

theorem BinOp.mem_all (op : BinOp) : op ∈ BinOp.all := by
  rcases op with op | _ | _ | _ | _ | _
  · cases op <;> decide
  all_goals decide

theorem Dump.operator_injective {op op' : BinOp} (h : Dump.operator op = Dump.operator op') : op = op' := by
  have hnames : (BinOp.all.map Dump.operator).Nodup := by decide
  exact List.inj_on_of_nodup_map hnames op.mem_all op'.mem_all h

/-- A finite literal is told from all others: the name of the form gives its type, and only what is not finite is dumped as
`null`. -/
theorem Dump.literal_eq {v v' : Literal} (hv : v.Finite) (h : Same (Dump.literal v) (Dump.literal v')) : v = v' := by
  cases v with
  | int n =>
    cases v' with
    | int n' =>
      have hn : n.toInt = n'.toInt := (same_form h).2.int_eq
      rw [Int64.toInt_inj.mp hn]
    | _ => exact absurd (same_form h).1 (by simp)
  | float x =>
    cases v' with
    | float x' =>
      have hfinite : x.isFinite = true := hv
      have hx := (same_form h).2
      rw [if_pos hfinite] at hx
      split at hx
      · cases hx
        rfl
      · cases hx
    | _ => exact absurd (same_form h).1 (by simp)
  | bool b =>
    cases v' with
    | bool b' =>
      cases (same_form h).2
      rfl
    | _ => exact absurd (same_form h).1 (by simp)
  | string s =>
    cases v' with
    | string s' => rw [(same_form h).2.string_eq]
    | _ => exact absurd (same_form h).1 (by simp)

/-! ## Lists of nodes -/

/-- The dumps of expressions are made one by one. -/
theorem Expr.dumpAll_eq_map (es : List (Expr Unit)) : Expr.dumpAll es = es.map Expr.dump := by
  induction es with
  | nil => rfl
  | cons e rest ih => rw [Expr.dumpAll, ih, List.map_cons]

/-- The dumps of named arguments are made one by one, as pairs. -/
theorem Expr.dumpNamed_eq_map (es : List (String × Expr Unit)) :
    Expr.dumpNamed es = es.map fun e => .array [.string e.1, e.2.dump] := by
  induction es with
  | nil => rfl
  | cons e rest ih => rw [Expr.dumpNamed, ih, List.map_cons]

/-- The dumps of instructions are made one by one. -/
theorem Stmt.dumpAll_eq_map (code : List (Stmt Unit)) : Stmt.dumpAll code = code.map Stmt.dump := by
  induction code with
  | nil => rfl
  | cons s rest ih => rw [Stmt.dumpAll, ih, List.map_cons]

/-- The dumps of cases are made one by one. -/
theorem Stmt.dumpCases_eq_map (cases : List (Expr Unit × List (Stmt Unit))) :
    Stmt.dumpCases cases = cases.map fun c => .object [("cond", c.1.dump), ("code", Dump.block (Stmt.dumpAll c.2))] := by
  induction cases with
  | nil => rfl
  | cons c rest ih => rw [Stmt.dumpCases, ih, List.map_cons]

/-- A node is not `null`, which stands for what is missing. -/
theorem Expr.not_same_null (e : Expr Unit) : ¬Same .null e.dump := by
  obtain ⟨s, kind, hdump⟩ : ∃ s kind, e.dump = Dump.node s kind := by cases e <;> exact ⟨_, _, rfl⟩
  rw [hdump, Dump.node_eq]
  intro h
  cases h

namespace Node

/-- A node is told from all others of its sort by its dump. -/
def Told : Node Unit → Prop
  | expr e => ∀ e', Same e.dump e'.dump → e = e'
  | stmt s => ∀ s', Same s.dump s'.dump → s = s'

section

variable {es es' : List (Expr Unit)} {kwargs kwargs' : List (String × Expr Unit)} {value value' : Option (Expr Unit)}
  {code code' : List (Stmt Unit)} {otherwise otherwise' : Option (List (Stmt Unit))}
  {cases cases' : List (Expr Unit × List (Stmt Unit))}

/-- Rows of expressions that are dumped alike are equal, if each expression is told from all others. -/
theorem exprs_eq (told : ∀ e ∈ es, (expr e).Told) (h : Same (.array (Expr.dumpAll es)) (.array (Expr.dumpAll es'))) :
    es = es' := by
  rw [Expr.dumpAll_eq_map, Expr.dumpAll_eq_map] at h
  exact h.items_eq told

/-- Named arguments that are dumped alike are equal, in their order, if each of their values is told from all others. -/
theorem named_eq (told : ∀ kwarg ∈ kwargs, (expr kwarg.2).Told)
    (h : Same (.array (Expr.dumpNamed kwargs)) (.array (Expr.dumpNamed kwargs'))) : kwargs = kwargs' := by
  rw [Expr.dumpNamed_eq_map, Expr.dumpNamed_eq_map] at h
  refine h.items_eq ?_
  rintro ⟨name, e⟩ hmem ⟨name', e'⟩ hpair
  cases hpair with
  | array length item =>
    have hname : name = name' := (item 0 _ _ rfl rfl).string_eq
    have he : e = e' := told (name, e) hmem e' (item 1 _ _ rfl rfl)
    rw [hname, he]

/-- An expression that may be missing is told from all others and from a missing one. -/
theorem value_eq (told : ∀ e ∈ value, (expr e).Told) (h : Same (Expr.dumpOption value) (Expr.dumpOption value')) :
    value = value' := by
  cases value with
  | none =>
    cases value' with
    | none => rfl
    | some e' => exact absurd h e'.not_same_null
  | some e =>
    cases value' with
    | none => exact absurd h.symm e.not_same_null
    | some e' => rw [told e rfl e' h]

/-- Blocks that are dumped alike are equal, if each instruction is told from all others. -/
theorem code_eq (told : ∀ s ∈ code, (stmt s).Told)
    (h : Same (Dump.block (Stmt.dumpAll code)) (Dump.block (Stmt.dumpAll code'))) : code = code' := by
  have hitems := (Dump.same_form h).2
  rw [Stmt.dumpAll_eq_map, Stmt.dumpAll_eq_map] at hitems
  exact hitems.items_eq told

/-- A block that may be missing is told from all others and from a missing one. -/
theorem otherwise_eq (told : ∀ code ∈ otherwise, ∀ s ∈ code, (stmt s).Told)
    (h : Same (Stmt.dumpOption otherwise) (Stmt.dumpOption otherwise')) : otherwise = otherwise' := by
  cases otherwise with
  | none =>
    cases otherwise' with
    | none => rfl
    | some code' => cases h
  | some code =>
    cases otherwise' with
    | none => cases h
    | some code' => rw [code_eq (told code rfl) h]

/-- The cases of switches that are dumped alike are equal, if the nodes in them are told from all others. -/
theorem cases_eq (tests : ∀ c ∈ cases, (expr c.1).Told) (codes : ∀ c ∈ cases, ∀ s ∈ c.2, (stmt s).Told)
    (h : Same (.array (Stmt.dumpCases cases)) (.array (Stmt.dumpCases cases'))) : cases = cases' := by
  rw [Stmt.dumpCases_eq_map, Stmt.dumpCases_eq_map] at h
  refine h.items_eq ?_
  rintro ⟨test, code⟩ hmem ⟨test', code'⟩ hcase
  obtain ⟨htest, hcode⟩ : Same test.dump test'.dump ∧
      Same (Dump.block (Stmt.dumpAll code)) (Dump.block (Stmt.dumpAll code')) := by
    simpa using hcase.values rfl (by simp)
  have htest' : test = test' := tests _ hmem test' htest
  have hcode' : code = code' := code_eq (codes _ hmem) hcode
  rw [htest', hcode']

end

/-- All numbers in the tree below a node are finite. -/
def Finite (n : Node Unit) : Prop :=
  ∀ span value, n.Contains (expr (.literal span value)) → value.Finite

theorem Finite.child {n c : Node Unit} (h : n.Finite) (hc : c ∈ n.children) : c.Finite :=
  fun span value hcontains => h span value (.inside hc hcontains)

/-- A literal has only its own number. -/
theorem finite_literal {span : Option Span} {value : Literal} (h : value.Finite) : (expr (.literal span value)).Finite := by
  intro span' value' hcontains
  cases hcontains with
  | self => exact h
  | inside hc _ => cases hc

/-- The numbers in a node that is no literal are those in its children. -/
theorem finite_of_children {n : Node Unit} (hn : ∀ span value, n ≠ expr (.literal span value))
    (h : ∀ c ∈ n.children, c.Finite) : n.Finite := by
  intro span value hcontains
  cases hcontains with
  | self => exact absurd rfl (hn span value)
  | inside hc hx => exact h _ hc span value hx

/-- An expression is told from all others by its dump if its children are. The name of the form gives the constructor, and then
each member gives one of its arguments. -/
theorem told_expr {e : Expr Unit} (hfinite : (expr e).Finite) (ih : ∀ c ∈ (expr e).children, c.Told) : (expr e).Told := by
  intro e' h
  cases e with
  | literal s v =>
    cases e' with
    | literal s' v' =>
      obtain ⟨rfl, -, hcontent⟩ := Dump.same_node h
      rw [Dump.literal_eq (hfinite s v (.self _)) hcontent]
    | _ => exact absurd (Dump.same_node h).2.1 (by simp)
  | convert s goal e =>
    cases e' with
    | convert s' goal' e' =>
      obtain ⟨rfl, -, hcontent⟩ := Dump.same_node h
      obtain ⟨hgoal, he⟩ : Same (.string goal.tag) (.string goal'.tag) ∧ Same e.dump e'.dump := by
        simpa using hcontent.values rfl (by simp)
      rw [Conversion.tag_injective hgoal.string_eq, ih (expr e) (by simp [children]) e' he]
    | _ => exact absurd (Dump.same_node h).2.1 (by simp)
  | binary s op left right =>
    cases e' with
    | binary s' op' left' right' =>
      obtain ⟨rfl, -, hcontent⟩ := Dump.same_node h
      obtain ⟨hop, hleft, hright⟩ : Same (.string (Dump.operator op)) (.string (Dump.operator op')) ∧
          Same left.dump left'.dump ∧ Same right.dump right'.dump := by
        simpa using hcontent.values rfl (by simp)
      rw [Dump.operator_injective hop.string_eq, ih (expr left) (by simp [children]) left' hleft,
        ih (expr right) (by simp [children]) right' hright]
    | _ => exact absurd (Dump.same_node h).2.1 (by simp)
  | not s e =>
    cases e' with
    | not s' e' =>
      obtain ⟨rfl, -, he⟩ := Dump.same_node h
      rw [ih (expr e) (by simp [children]) e' he]
    | _ => exact absurd (Dump.same_node h).2.1 (by simp)
  | len s e =>
    cases e' with
    | len s' e' =>
      obtain ⟨rfl, -, he⟩ := Dump.same_node h
      rw [ih (expr e) (by simp [children]) e' he]
    | _ => exact absurd (Dump.same_node h).2.1 (by simp)
  | typeOf s e =>
    cases e' with
    | typeOf s' e' =>
      obtain ⟨rfl, -, he⟩ := Dump.same_node h
      rw [ih (expr e) (by simp [children]) e' he]
    | _ => exact absurd (Dump.same_node h).2.1 (by simp)
  | getVar s name =>
    cases e' with
    | getVar s' name' =>
      obtain ⟨rfl, -, hname⟩ := Dump.same_node h
      rw [hname.string_eq]
    | _ => exact absurd (Dump.same_node h).2.1 (by simp)
  | list s items =>
    cases e' with
    | list s' items' =>
      obtain ⟨rfl, -, hitems⟩ := Dump.same_node h
      rw [exprs_eq (fun e he => ih (expr e) (List.mem_map_of_mem he)) hitems]
    | _ => exact absurd (Dump.same_node h).2.1 (by simp)
  | range s start stop =>
    cases e' with
    | range s' start' stop' =>
      obtain ⟨rfl, -, hcontent⟩ := Dump.same_node h
      obtain ⟨hstart, hstop⟩ : Same start.dump start'.dump ∧ Same stop.dump stop'.dump := by
        simpa using hcontent.values rfl (by simp)
      rw [ih (expr start) (by simp [children]) start' hstart, ih (expr stop) (by simp [children]) stop' hstop]
    | _ => exact absurd (Dump.same_node h).2.1 (by simp)
  | subscript s target index =>
    cases e' with
    | subscript s' target' index' =>
      obtain ⟨rfl, -, hcontent⟩ := Dump.same_node h
      obtain ⟨htarget, hindex⟩ : Same target.dump target'.dump ∧ Same index.dump index'.dump := by
        simpa using hcontent.values rfl (by simp)
      rw [ih (expr target) (by simp [children]) target' htarget, ih (expr index) (by simp [children]) index' hindex]
    | _ => exact absurd (Dump.same_node h).2.1 (by simp)
  | join s target separator =>
    cases e' with
    | join s' target' separator' =>
      obtain ⟨rfl, -, hcontent⟩ := Dump.same_node h
      obtain ⟨htarget, hseparator⟩ : Same target.dump target'.dump ∧ Same separator.dump separator'.dump := by
        simpa using hcontent.values rfl (by simp)
      rw [ih (expr target) (by simp [children]) target' htarget, ih (expr separator) (by simp [children]) separator' hseparator]
    | _ => exact absurd (Dump.same_node h).2.1 (by simp)
  | input s prompt =>
    cases e' with
    | input s' prompt' =>
      obtain ⟨rfl, -, hprompt⟩ := Dump.same_node h
      rw [value_eq (fun e he => ih (expr e) (List.mem_map_of_mem (Option.mem_toList.mpr he))) hprompt]
    | _ => exact absurd (Dump.same_node h).2.1 (by simp)
  | func s label params code =>
    cases e' with
    | func s' label' params' code' =>
      obtain ⟨rfl, -, hcontent⟩ := Dump.same_node h
      obtain ⟨hparams, hcode⟩ : Same (.array (params.map .string)) (.array (params'.map .string)) ∧
          Same (Dump.block (Stmt.dumpAll code)) (Dump.block (Stmt.dumpAll code')) := by
        simpa using hcontent.values rfl (by simp)
      have hparams' : params = params' := hparams.items_eq fun _ _ _ hname => hname.string_eq
      rw [hparams', code_eq (fun s hs => ih (stmt s) (List.mem_map_of_mem hs)) hcode]
    | _ => exact absurd (Dump.same_node h).2.1 (by simp)
  | call s target args kwargs =>
    cases e' with
    | call s' target' args' kwargs' =>
      obtain ⟨rfl, -, hcontent⟩ := Dump.same_node h
      obtain ⟨htarget, hargs, hkwargs⟩ : Same target.dump target'.dump ∧
          Same (.array (Expr.dumpAll args)) (.array (Expr.dumpAll args')) ∧
          Same (.array (Expr.dumpNamed kwargs)) (.array (Expr.dumpNamed kwargs')) := by
        simpa using hcontent.values rfl (by simp)
      have htarget' : target = target' := ih (expr target) (by simp [children]) target' htarget
      have hargs' : args = args' := exprs_eq (fun e he => ih (expr e) (by simp [children, he])) hargs
      have hkwargs' : kwargs = kwargs' := by
        refine named_eq (fun kwarg hkwarg => ih (expr kwarg.2) ?_) hkwargs
        exact .tail _ (List.mem_append_right _ (List.mem_map.mpr ⟨kwarg, hkwarg, rfl⟩))
      rw [htarget', hargs', hkwargs']
    | _ => exact absurd (Dump.same_node h).2.1 (by simp)

/-- An instruction is told from all others by its dump if its children are, form by form. -/
theorem told_stmt {s : Stmt Unit} (ih : ∀ c ∈ (stmt s).children, c.Told) : (stmt s).Told := by
  intro s' h
  cases s with
  | setVar span name value =>
    cases s' with
    | setVar span' name' value' =>
      obtain ⟨rfl, -, hcontent⟩ := Dump.same_node h
      obtain ⟨hname, hvalue⟩ : Same (.string name) (.string name') ∧ Same value.dump value'.dump := by
        simpa using hcontent.values rfl (by simp)
      rw [hname.string_eq, ih (expr value) (by simp [children]) value' hvalue]
    | _ => exact absurd (Dump.same_node h).2.1 (by simp)
  | compound span op target value =>
    cases s' with
    | compound span' op' target' value' =>
      obtain ⟨rfl, -, hcontent⟩ := Dump.same_node h
      obtain ⟨hop, htarget, hvalue⟩ : Same (.string op.tag) (.string op'.tag) ∧ Same target.dump target'.dump ∧
          Same value.dump value'.dump := by
        simpa using hcontent.values rfl (by simp)
      rw [ArithOp.tag_injective hop.string_eq, ih (expr target) (by simp [children]) target' htarget,
        ih (expr value) (by simp [children]) value' hvalue]
    | _ => exact absurd (Dump.same_node h).2.1 (by simp)
  | append span target value =>
    cases s' with
    | append span' target' value' =>
      obtain ⟨rfl, -, hcontent⟩ := Dump.same_node h
      obtain ⟨htarget, hvalue⟩ : Same target.dump target'.dump ∧ Same value.dump value'.dump := by
        simpa using hcontent.values rfl (by simp)
      rw [ih (expr target) (by simp [children]) target' htarget, ih (expr value) (by simp [children]) value' hvalue]
    | _ => exact absurd (Dump.same_node h).2.1 (by simp)
  | insert span target index value =>
    cases s' with
    | insert span' target' index' value' =>
      obtain ⟨rfl, -, hcontent⟩ := Dump.same_node h
      obtain ⟨htarget, hindex, hvalue⟩ : Same target.dump target'.dump ∧ Same index.dump index'.dump ∧
          Same value.dump value'.dump := by
        simpa using hcontent.values rfl (by simp)
      rw [ih (expr target) (by simp [children]) target' htarget, ih (expr index) (by simp [children]) index' hindex,
        ih (expr value) (by simp [children]) value' hvalue]
    | _ => exact absurd (Dump.same_node h).2.1 (by simp)
  | remove span target index =>
    cases s' with
    | remove span' target' index' =>
      obtain ⟨rfl, -, hcontent⟩ := Dump.same_node h
      obtain ⟨htarget, hindex⟩ : Same target.dump target'.dump ∧ Same index.dump index'.dump := by
        simpa using hcontent.values rfl (by simp)
      rw [ih (expr target) (by simp [children]) target' htarget, ih (expr index) (by simp [children]) index' hindex]
    | _ => exact absurd (Dump.same_node h).2.1 (by simp)
  | print span e =>
    cases s' with
    | print span' e' =>
      obtain ⟨rfl, -, he⟩ := Dump.same_node h
      rw [ih (expr e) (by simp [children]) e' he]
    | _ => exact absurd (Dump.same_node h).2.1 (by simp)
  | cond span test code otherwise =>
    cases s' with
    | cond span' test' code' otherwise' =>
      obtain ⟨rfl, -, hcontent⟩ := Dump.same_node h
      obtain ⟨htest, hcode, hotherwise⟩ : Same test.dump test'.dump ∧
          Same (Dump.block (Stmt.dumpAll code)) (Dump.block (Stmt.dumpAll code')) ∧
          Same (Stmt.dumpOption otherwise) (Stmt.dumpOption otherwise') := by
        simpa using hcontent.values rfl (by simp)
      have htest' : test = test' := ih (expr test) (by simp [children]) test' htest
      have hcode' : code = code' := code_eq (fun s hs => ih (stmt s) (by simp [children, hs])) hcode
      have hotherwise' : otherwise = otherwise' := by
        refine otherwise_eq ?_ hotherwise
        rintro code rfl s hs
        exact ih (stmt s) (by simp [children, hs])
      rw [htest', hcode', hotherwise']
    | _ => exact absurd (Dump.same_node h).2.1 (by simp)
  | switch span cases default =>
    cases s' with
    | switch span' cases' default' =>
      obtain ⟨rfl, -, hcontent⟩ := Dump.same_node h
      obtain ⟨hcases, hdefault⟩ : Same (.array (Stmt.dumpCases cases)) (.array (Stmt.dumpCases cases')) ∧
          Same (Stmt.dumpOption default) (Stmt.dumpOption default') := by
        simpa using hcontent.values rfl (by simp)
      have hcases' : cases = cases' := by
        refine cases_eq (fun c hc => ih (expr c.1) ?_) (fun c hc s hs => ih (stmt s) ?_) hcases
        · exact List.mem_append_left _ (List.mem_flatMap.mpr ⟨c, hc, .head _⟩)
        · exact List.mem_append_left _ (List.mem_flatMap.mpr ⟨c, hc, .tail _ (List.mem_map_of_mem hs)⟩)
      have hdefault' : default = default' := by
        refine otherwise_eq ?_ hdefault
        rintro code rfl s hs
        exact ih (stmt s) (by simp [children, hs])
      rw [hcases', hdefault']
    | _ => exact absurd (Dump.same_node h).2.1 (by simp)
  | loop span var list code =>
    cases s' with
    | loop span' var' list' code' =>
      obtain ⟨rfl, -, hcontent⟩ := Dump.same_node h
      obtain ⟨hvar, hlist, hcode⟩ : Same (.string var) (.string var') ∧ Same list.dump list'.dump ∧
          Same (Dump.block (Stmt.dumpAll code)) (Dump.block (Stmt.dumpAll code')) := by
        simpa using hcontent.values rfl (by simp)
      have hcode' : code = code' := code_eq (fun s hs => ih (stmt s) (by simp [children, hs])) hcode
      rw [hvar.string_eq, ih (expr list) (by simp [children]) list' hlist, hcode']
    | _ => exact absurd (Dump.same_node h).2.1 (by simp)
  | ret span value =>
    cases s' with
    | ret span' value' =>
      obtain ⟨rfl, -, hvalue⟩ := Dump.same_node h
      rw [value_eq (fun e he => ih (expr e) (List.mem_map_of_mem (Option.mem_toList.mpr he))) hvalue]
    | _ => exact absurd (Dump.same_node h).2.1 (by simp)
  | expr span e =>
    cases s' with
    | expr span' e' =>
      obtain ⟨rfl, -, he⟩ := Dump.same_node h
      rw [ih (expr e) (by simp [children]) e' he]
    | _ => exact absurd (Dump.same_node h).2.1 (by simp)

/-- Every node with finite numbers is told from all others by its dump. -/
theorem told_of_finite {n : Node Unit} (h : n.Finite) : n.Told := by
  induction n using Node.induction with
  | step n ih =>
    have hchildren : ∀ c ∈ n.children, c.Told := by
      intro c hc
      exact ih c hc (h.child hc)
    cases n with
    | expr e => exact told_expr h hchildren
    | stmt s => exact told_stmt hchildren

end Node

/-- All numbers in a program are finite. -/
def Program.Finite (program : Program) : Prop :=
  ∀ s ∈ program, (Node.stmt s).Finite

/-- Programs are equal exactly if their dumps are the same value, where one of them has only finite numbers: a dump has the same
statements and expressions, names, literals, operators and positions at every depth, integers are not mixed up with floats and
zeros keep their sign. -/
theorem dump_faithful (p q : Program) (hfinite : p.Finite) : Same p.dump q.dump ↔ p = q := by
  constructor
  · intro h
    have hbody := (Dump.same_form h).2
    refine Node.code_eq ?_ hbody
    intro s hs
    exact Node.told_of_finite (hfinite s hs)
  · rintro rfl
    exact .refl _

/-- A program that makes a function which prints a number. -/
def printingNumber (x : Float) : Program :=
  [.setVar none "f" (.func none () [] [.print none (.literal none (.float x))])]

/-- Zeros of both signs are told apart, below a function. -/
theorem signedZeros_dump_differ :
    (printingNumber (-0.0)).Finite ∧ ¬Same (printingNumber (-0.0)).dump (printingNumber 0.0).dump := by
  have hfinite : (printingNumber (-0.0)).Finite := by
    intro s hs
    obtain rfl := List.mem_singleton.mp hs
    refine Node.finite_of_children (by simp) (List.forall_mem_singleton.mpr ?_)
    refine Node.finite_of_children (by simp) (List.forall_mem_singleton.mpr ?_)
    refine Node.finite_of_children (by simp) (List.forall_mem_singleton.mpr ?_)
    exact Node.finite_literal (by decide)
  refine ⟨hfinite, ?_⟩
  rw [dump_faithful _ _ hfinite]
  intro h
  have hzeros : (-0.0 : Float) = 0.0 := by simpa [printingNumber] using h
  exact absurd hzeros (by decide)

end NodeScript
