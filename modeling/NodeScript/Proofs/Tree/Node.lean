import NodeScript.Tree.Numbering
import NodeScript.Tree.Tag

/-!
# The nodes of a tree

Expressions and instructions are the nodes of a program's tree. A node has the nodes directly below it as its children, function
bodies included, and contains its children, theirs, and so on. What holds of a node whenever it holds of its children holds of
every node (`Node.induction`), and numbering the functions of a tree changes neither its shape nor its tags
(`Node.contains_number`). What the instructions of a tree do to slots and lists can be told from the tree (`Node.Without`).
-/

namespace NodeScript

/-- A node of a tree. -/
inductive Node (φ : Type) where
  | expr (e : Expr φ)
  | stmt (s : Stmt φ)

namespace Node

variable {φ : Type}

/-- The nodes directly below a node, in the order of the text. -/
def children : Node φ → List (Node φ)
  | expr (.literal _ _) | expr (.getVar _ _) => []
  | expr (.convert _ _ value) | expr (.not _ value) | expr (.len _ value) | expr (.typeOf _ value) => [expr value]
  | expr (.binary _ _ left right) => [expr left, expr right]
  | expr (.list _ items) => items.map expr
  | expr (.range _ start stop) => [expr start, expr stop]
  | expr (.subscript _ target index) => [expr target, expr index]
  | expr (.join _ target separator) => [expr target, expr separator]
  | expr (.input _ prompt) => prompt.toList.map expr
  | expr (.func _ _ _ code) => code.map stmt
  | expr (.call _ target args kwargs) => expr target :: (args.map expr ++ kwargs.map fun kwarg => expr kwarg.2)
  | stmt (.setVar _ _ value) | stmt (.print _ value) | stmt (.expr _ value) => [expr value]
  | stmt (.compound _ _ target value) | stmt (.append _ target value) => [expr target, expr value]
  | stmt (.insert _ target index value) => [expr target, expr index, expr value]
  | stmt (.remove _ target index) => [expr target, expr index]
  | stmt (.cond _ test code otherwise) => expr test :: (code.map stmt ++ (otherwise.getD []).map stmt)
  | stmt (.switch _ cases default) =>
    cases.flatMap (fun c => expr c.1 :: c.2.map stmt) ++ (default.getD []).map stmt
  | stmt (.loop _ _ list code) => expr list :: code.map stmt
  | stmt (.ret _ value) => value.toList.map expr

/-- A node is in the tree below a node: it is that node, or in the tree below one of its children. -/
inductive Contains : Node φ → Node φ → Prop where
  | self (n : Node φ) : Contains n n
  | inside {n c x : Node φ} (hc : c ∈ n.children) (hx : Contains c x) : Contains n x

/-- What holds of all instructions in the tree below an expression holds of all those below its children. -/
theorem forall_contains_expr {p : Stmt φ → Prop} {e : Expr φ} :
    (∀ s, (expr e).Contains (stmt s) → p s) ↔ ∀ c ∈ (expr e).children, ∀ s, c.Contains (stmt s) → p s := by
  refine ⟨fun h c hc s hs => h s (.inside hc hs), fun h s hs => ?_⟩
  cases hs with
  | inside hc hs => exact h _ hc s hs

/-- What holds of all instructions in the tree below an instruction holds of it and of all those below its children. -/
theorem forall_contains_stmt {p : Stmt φ → Prop} {s : Stmt φ} :
    (∀ s', (stmt s).Contains (stmt s') → p s') ↔ p s ∧ ∀ c ∈ (stmt s).children, ∀ s', c.Contains (stmt s') → p s' := by
  refine ⟨fun h => ⟨h s (.self _), fun c hc s' hs' => h s' (.inside hc hs')⟩, fun h s' hs' => ?_⟩
  cases hs' with
  | self => exact h.1
  | inside hc hs' => exact h.2 _ hc s' hs'

/-! ## Induction -/

theorem sizeOf_le_of_mem_exprs {c : Node φ} {es : List (Expr φ)} (hc : c ∈ es.map expr) : sizeOf c ≤ sizeOf es := by
  obtain ⟨e, he, rfl⟩ := List.mem_map.mp hc
  have := List.sizeOf_lt_of_mem he
  simp only [expr.sizeOf_spec]
  omega

theorem sizeOf_le_of_mem_stmts {c : Node φ} {code : List (Stmt φ)} (hc : c ∈ code.map stmt) : sizeOf c ≤ sizeOf code := by
  obtain ⟨s, hs, rfl⟩ := List.mem_map.mp hc
  have := List.sizeOf_lt_of_mem hs
  simp only [stmt.sizeOf_spec]
  omega

theorem sizeOf_le_of_mem_option {c : Node φ} {code : Option (List (Stmt φ))} (hc : c ∈ (code.getD []).map stmt) :
    sizeOf c ≤ sizeOf code := by
  cases code with
  | none => simp at hc
  | some code =>
    have := sizeOf_le_of_mem_stmts hc
    simp only [Option.getD_some, Option.some.sizeOf_spec] at this ⊢
    omega

/-- A child is smaller than its node. -/
theorem sizeOf_lt_of_mem_children {n c : Node φ} (hc : c ∈ n.children) : sizeOf c < sizeOf n := by
  rcases n with e | s
  · cases e with
    | literal | getVar => simp [children] at hc
    | list span items =>
      have := sizeOf_le_of_mem_exprs hc
      simp
      omega
    | input span prompt =>
      cases prompt with
      | none => simp [children] at hc
      | some e =>
        simp only [children, Option.toList_some, List.map_cons, List.map_nil, List.mem_singleton] at hc
        subst hc
        simp
        omega
    | func span label params code =>
      have := sizeOf_le_of_mem_stmts hc
      simp
      omega
    | call span target args kwargs =>
      simp only [children, List.mem_cons, List.mem_append] at hc
      rcases hc with rfl | hc | hc
      · simp
        omega
      · have := sizeOf_le_of_mem_exprs hc
        simp
        omega
      · obtain ⟨⟨name, e⟩, he, rfl⟩ := List.mem_map.mp hc
        have := List.sizeOf_lt_of_mem he
        simp at this ⊢
        omega
    | _ =>
      simp only [children, List.mem_cons, List.not_mem_nil, or_false] at hc
      rcases hc with rfl | rfl <;> simp <;> omega
  · cases s with
    | cond span test code otherwise =>
      simp only [children, List.mem_cons, List.mem_append] at hc
      rcases hc with rfl | hc | hc
      · simp
        omega
      · have := sizeOf_le_of_mem_stmts hc
        simp
        omega
      · have := sizeOf_le_of_mem_option hc
        simp
        omega
    | switch span cases default =>
      simp only [children, List.mem_append, List.mem_flatMap, List.mem_cons] at hc
      rcases hc with ⟨⟨test, code⟩, hmem, hc⟩ | hc
      · have hcase := List.sizeOf_lt_of_mem hmem
        simp only [Prod.mk.sizeOf_spec, stmt.sizeOf_spec, Stmt.switch.sizeOf_spec] at hcase ⊢
        rcases hc with rfl | hc
        · simp only [expr.sizeOf_spec]
          omega
        · have : sizeOf c ≤ sizeOf code := sizeOf_le_of_mem_stmts hc
          omega
      · have := sizeOf_le_of_mem_option hc
        simp
        omega
    | loop span var list code =>
      simp only [children, List.mem_cons] at hc
      rcases hc with rfl | hc
      · simp
        omega
      · have := sizeOf_le_of_mem_stmts hc
        simp
        omega
    | ret span value =>
      cases value with
      | none => simp [children] at hc
      | some e =>
        simp only [children, Option.toList_some, List.map_cons, List.map_nil, List.mem_singleton] at hc
        subst hc
        simp
        omega
    | _ =>
      simp only [children, List.mem_cons, List.not_mem_nil, or_false] at hc
      rcases hc with rfl | rfl | rfl <;> simp <;> omega

/-- What holds of every node whose children it holds of holds of every node. -/
theorem induction {motive : Node φ → Prop} (step : ∀ n, (∀ c ∈ n.children, motive c) → motive n) (n : Node φ) : motive n :=
  step n fun c _ => induction step c
termination_by sizeOf n
decreasing_by exact sizeOf_lt_of_mem_children ‹_›

/-! ## What a numbered tree contains -/

/-- Numbers the functions of a node. -/
def number (next : FuncId) : Node Unit → Node FuncId
  | expr e => expr (e.number next).1
  | stmt s => stmt (s.number next).1

end Node

/-- A numbered expression of a row is one of the row, numbered from some number on. -/
theorem Expr.mem_numberAll {es : List (Expr Unit)} {e' : Expr FuncId} {k : FuncId} (h : e' ∈ (Expr.numberAll k es).1) :
    ∃ e ∈ es, ∃ j, e' = (e.number j).1 := by
  induction es generalizing k with
  | nil => cases h
  | cons e rest ih =>
    rcases List.mem_cons.mp h with rfl | h
    · exact ⟨e, .head _, k, rfl⟩
    · obtain ⟨e₀, he₀, j, hj⟩ := ih h
      exact ⟨e₀, .tail _ he₀, j, hj⟩

/-- A numbered argument is one of the arguments, numbered from some number on. -/
theorem Expr.mem_numberNamed {es : List (String × Expr Unit)} {e' : String × Expr FuncId} {k : FuncId}
    (h : e' ∈ (Expr.numberNamed k es).1) : ∃ e ∈ es, ∃ j, e'.2 = (e.2.number j).1 := by
  induction es generalizing k with
  | nil => cases h
  | cons e rest ih =>
    rcases List.mem_cons.mp h with rfl | h
    · exact ⟨e, .head _, k, rfl⟩
    · obtain ⟨e₀, he₀, j, hj⟩ := ih h
      exact ⟨e₀, .tail _ he₀, j, hj⟩

/-- A numbered expression that may be missing is that expression, numbered from some number on. -/
theorem Expr.mem_numberOption {e : Option (Expr Unit)} {e' : Expr FuncId} {k : FuncId}
    (h : e' ∈ (Expr.numberOption k e).1.toList) : ∃ e₀ ∈ e.toList, ∃ j, e' = (e₀.number j).1 := by
  cases e with
  | none => cases h
  | some e => exact ⟨e, by simp, k, by simpa [Expr.numberOption] using h⟩

/-- A numbered instruction of a block is one of the block, numbered from some number on. -/
theorem Stmt.mem_numberAll {code : List (Stmt Unit)} {s' : Stmt FuncId} {k : FuncId} (h : s' ∈ (Stmt.numberAll k code).1) :
    ∃ s ∈ code, ∃ j, s' = (s.number j).1 := by
  induction code generalizing k with
  | nil => cases h
  | cons s rest ih =>
    rcases List.mem_cons.mp h with rfl | h
    · exact ⟨s, .head _, k, rfl⟩
    · obtain ⟨s₀, hs₀, j, hj⟩ := ih h
      exact ⟨s₀, .tail _ hs₀, j, hj⟩

/-- A numbered instruction of a block that may be missing is one of the block, numbered from some number on. -/
theorem Stmt.mem_numberOption {code : Option (List (Stmt Unit))} {s' : Stmt FuncId} {k : FuncId}
    (h : s' ∈ (Stmt.numberOption k code).1.getD []) : ∃ s ∈ code.getD [], ∃ j, s' = (s.number j).1 := by
  cases code with
  | none => cases h
  | some code => exact Stmt.mem_numberAll h

/-- A numbered case is one of the cases, with its condition and its block numbered from some numbers on. -/
theorem Stmt.mem_numberCases {cases : List (Expr Unit × List (Stmt Unit))} {c' : Expr FuncId × List (Stmt FuncId)} {k : FuncId}
    (h : c' ∈ (Stmt.numberCases k cases).1) :
    ∃ c ∈ cases, (∃ j, c'.1 = (c.1.number j).1) ∧ ∃ j, c'.2 = (Stmt.numberAll j c.2).1 := by
  induction cases generalizing k with
  | nil => cases h
  | cons c rest ih =>
    rcases List.mem_cons.mp h with rfl | h
    · exact ⟨c, .head _, ⟨k, rfl⟩, _, rfl⟩
    · obtain ⟨c₀, hc₀, hj⟩ := ih h
      exact ⟨c₀, .tail _ hc₀, hj⟩

namespace Node

/-- The children of a numbered node are the children of the node, numbered. -/
theorem mem_children_number {n : Node Unit} {c' : Node FuncId} {k : FuncId} (h : c' ∈ (n.number k).children) :
    ∃ c ∈ n.children, ∃ j, c' = c.number j := by
  have exprs {es : List (Expr Unit)} {k : FuncId} (h : c' ∈ (Expr.numberAll k es).1.map expr) :
      ∃ c ∈ es.map expr, ∃ j, c' = c.number j := by
    obtain ⟨e', he', rfl⟩ := List.mem_map.mp h
    obtain ⟨e, he, j, rfl⟩ := Expr.mem_numberAll he'
    exact ⟨_, List.mem_map_of_mem he, j, rfl⟩
  have option {e : Option (Expr Unit)} {k : FuncId} (h : c' ∈ (Expr.numberOption k e).1.toList.map expr) :
      ∃ c ∈ e.toList.map expr, ∃ j, c' = c.number j := by
    obtain ⟨e', he', rfl⟩ := List.mem_map.mp h
    obtain ⟨e, he, j, rfl⟩ := Expr.mem_numberOption he'
    exact ⟨_, List.mem_map_of_mem he, j, rfl⟩
  have stmts {code : List (Stmt Unit)} {k : FuncId} (h : c' ∈ (Stmt.numberAll k code).1.map stmt) :
      ∃ c ∈ code.map stmt, ∃ j, c' = c.number j := by
    obtain ⟨s', hs', rfl⟩ := List.mem_map.mp h
    obtain ⟨s, hs, j, rfl⟩ := Stmt.mem_numberAll hs'
    exact ⟨_, List.mem_map_of_mem hs, j, rfl⟩
  have blocks {code : Option (List (Stmt Unit))} {k : FuncId} (h : c' ∈ ((Stmt.numberOption k code).1.getD []).map stmt) :
      ∃ c ∈ (code.getD []).map stmt, ∃ j, c' = c.number j := by
    obtain ⟨s', hs', rfl⟩ := List.mem_map.mp h
    obtain ⟨s, hs, j, rfl⟩ := Stmt.mem_numberOption hs'
    exact ⟨_, List.mem_map_of_mem hs, j, rfl⟩
  rcases n with e | s
  · cases e with
    | literal | getVar => cases h
    | convert _ _ value | not _ value | len _ value | typeOf _ value =>
      cases List.mem_singleton.mp h
      exact ⟨expr value, .head _, k, rfl⟩
    | binary _ _ a b | range _ a b | subscript _ a b | join _ a b =>
      rcases List.mem_cons.mp h with rfl | h
      · exact ⟨expr a, .head _, k, rfl⟩
      · cases List.mem_singleton.mp h
        exact ⟨expr b, .tail _ (.head _), _, rfl⟩
    | list _ items => exact exprs h
    | input _ prompt => exact option h
    | func _ _ _ code => exact stmts h
    | call _ target args kwargs =>
      rcases List.mem_cons.mp h with rfl | h
      · exact ⟨expr target, .head _, k, rfl⟩
      rcases List.mem_append.mp h with h | h
      · obtain ⟨c, hc, hj⟩ := exprs h
        exact ⟨c, .tail _ (List.mem_append_left _ hc), hj⟩
      · obtain ⟨kwarg', hk', rfl⟩ := List.mem_map.mp h
        obtain ⟨kwarg, hk, j, hj⟩ := Expr.mem_numberNamed hk'
        exact ⟨expr kwarg.2, .tail _ (List.mem_append_right _ (List.mem_map_of_mem hk)), j, congrArg expr hj⟩
  · cases s with
    | setVar _ _ value | print _ value | expr _ value =>
      cases List.mem_singleton.mp h
      exact ⟨expr value, .head _, k, rfl⟩
    | compound _ _ a b | append _ a b | remove _ a b =>
      rcases List.mem_cons.mp h with rfl | h
      · exact ⟨expr a, .head _, k, rfl⟩
      · cases List.mem_singleton.mp h
        exact ⟨expr b, .tail _ (.head _), _, rfl⟩
    | insert _ a b c =>
      rcases List.mem_cons.mp h with rfl | h
      · exact ⟨expr a, .head _, k, rfl⟩
      rcases List.mem_cons.mp h with rfl | h
      · exact ⟨expr b, .tail _ (.head _), _, rfl⟩
      · cases List.mem_singleton.mp h
        exact ⟨expr c, .tail _ (.tail _ (.head _)), _, rfl⟩
    | cond _ test code otherwise =>
      rcases List.mem_cons.mp h with rfl | h
      · exact ⟨expr test, .head _, k, rfl⟩
      rcases List.mem_append.mp h with h | h
      · obtain ⟨c, hc, hj⟩ := stmts h
        exact ⟨c, .tail _ (List.mem_append_left _ hc), hj⟩
      · obtain ⟨c, hc, hj⟩ := blocks h
        exact ⟨c, .tail _ (List.mem_append_right _ hc), hj⟩
    | switch _ cases default =>
      rcases List.mem_append.mp h with h | h
      · obtain ⟨case', hcase', h⟩ := List.mem_flatMap.mp h
        obtain ⟨case, hcase, ⟨j, htest⟩, i, hcode⟩ := Stmt.mem_numberCases hcase'
        rw [htest, hcode] at h
        rcases List.mem_cons.mp h with rfl | h
        · exact ⟨expr case.1, List.mem_append_left _ (List.mem_flatMap.mpr ⟨case, hcase, .head _⟩), j, rfl⟩
        · obtain ⟨c, hc, hj⟩ := stmts h
          exact ⟨c, List.mem_append_left _ (List.mem_flatMap.mpr ⟨case, hcase, .tail _ hc⟩), hj⟩
      · obtain ⟨c, hc, hj⟩ := blocks h
        exact ⟨c, List.mem_append_right _ hc, hj⟩
    | loop _ _ list code =>
      rcases List.mem_cons.mp h with rfl | h
      · exact ⟨expr list, .head _, k, rfl⟩
      · obtain ⟨c, hc, hj⟩ := stmts h
        exact ⟨c, .tail _ hc, hj⟩
    | ret _ value => exact option h

/-- What a numbered tree contains is what the tree contains, numbered. -/
theorem contains_number {n : Node Unit} {x' : Node FuncId} {k : FuncId} (h : (n.number k).Contains x') :
    ∃ x j, n.Contains x ∧ x' = x.number j := by
  generalize hn' : n.number k = n' at h
  induction h generalizing n k with
  | self n' => exact ⟨n, k, .self n, hn'.symm⟩
  | inside hc' _ ih =>
    subst hn'
    obtain ⟨c, hc, j, rfl⟩ := mem_children_number hc'
    obtain ⟨x, i, hx, rfl⟩ := ih rfl
    exact ⟨x, i, .inside hc hx, rfl⟩

end Node

/-! ## The effects of instructions -/

/-- What an instruction does to slots and lists that are there already. -/
inductive Effect where
  | write | grow | shrink
  deriving DecidableEq, Repr

/-- The effect of an instruction itself, apart from those of the nodes inside. -/
def Stmt.effect {φ : Type} : Stmt φ → Option Effect
  | .compound _ _ _ _ => some .write
  | .append _ _ _ | .insert _ _ _ _ => some .grow
  | .remove _ _ _ => some .shrink
  | _ => none

/-- Numbering the functions of an instruction does not change what it does. -/
theorem Stmt.effect_number (s : Stmt Unit) (k : FuncId) : (s.number k).1.effect = s.effect := by
  cases s <;> rfl

section

variable {φ : Type} {effects : List Effect}

/-- No instruction in a tree has one of some effects, those in function bodies included. -/
def Node.Without (effects : List Effect) (n : Node φ) : Prop :=
  ∀ s, n.Contains (.stmt s) → ∀ effect ∈ effects, s.effect ≠ some effect

/-- No instruction of a block, or inside one, has one of some effects. -/
def Block.Without (effects : List Effect) (code : Block φ) : Prop :=
  ∀ s ∈ code, (Node.stmt s).Without effects

/-- What lies inside a node without effects is without them too. -/
theorem Node.Without.child {n c : Node φ} (h : n.Without effects) (hc : c ∈ n.children) : c.Without effects :=
  fun s hs => h s (.inside hc hs)

/-- An expression is without effects if the nodes directly below it are. -/
theorem Node.without_expr {e : Expr φ} : (Node.expr e).Without effects ↔ ∀ c ∈ (Node.expr e).children, c.Without effects :=
  Node.forall_contains_expr

/-- An instruction is without effects if it has none of them itself and the nodes directly below it are without them. -/
theorem Node.without_stmt {s : Stmt φ} : (Node.stmt s).Without effects ↔
    (∀ effect ∈ effects, s.effect ≠ some effect) ∧ ∀ c ∈ (Node.stmt s).children, c.Without effects :=
  Node.forall_contains_stmt

/-- A tree without effects is without them when its functions are numbered. -/
theorem Node.Without.number {n : Node Unit} (h : n.Without effects) (k : FuncId) : (n.number k).Without effects := by
  intro s' hs'
  obtain ⟨x, j, hx, heq⟩ := Node.contains_number hs'
  rcases x with e | s
  · cases heq
  · cases heq
    rw [Stmt.effect_number]
    exact h s hx

/-- A program without effects is without them when its functions are numbered. -/
theorem Block.Without.number {program : Program} (h : Block.Without effects program) (k : FuncId) :
    Block.Without effects (Program.number program k).1 := by
  intro s' hs'
  obtain ⟨s, hs, j, rfl⟩ := Stmt.mem_numberAll hs'
  exact (h s hs).number j

end

end NodeScript
