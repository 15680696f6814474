import NodeScript.Proofs.Load.Schema

/-!
# Reading documents

What the parts of a document stand for, by plain recursion on the document: how it reads in each role follows from how its parts
do, without a place, a log or a limit. A document reads as something in a role exactly when it fits the role
(`conforms_iff_isSome_read`).
-/

namespace NodeScript

/-- What a document in a role stands for. -/
abbrev Role.Tree : Role → Type
  | expr => Expr Unit
  | stmt => Stmt Unit
  | block => Block Unit
  | text => String
  | params => List String
  | exprs => List (Expr Unit)
  | named => List (String × Expr Unit)
  | case => Expr Unit × Block Unit
  | cases => List (Expr Unit × Block Unit)
  | coordinate => UInt32

/-- What a document stands for in each role, if it fits it. -/
abbrev Reading : Type :=
  (role : Role) → Option role.Tree

namespace Reading

/-! ## Scalars and arrays -/

/-- A literal. -/
def ofLiteral (value : Literal) : Reading
  | .expr => some (Expr.literal none value)
  | _ => none

/-- A string is a literal, and it is a text. -/
def ofString (s : String) : Reading
  | .expr => some (Expr.literal none (.string s))
  | .text => some s
  | _ => none

/-- An integer is a literal if it has 64 bits, and a line or a column if it has 32 and no sign. -/
def ofInt (n : Int) : Reading
  | .expr =>
    if Int64.minValue.toInt ≤ n ∧ n ≤ Int64.maxValue.toInt then some (Expr.literal none (.int (Int64.ofInt n))) else none
  | .coordinate => if 0 ≤ n ∧ n < UInt32.size then some n.toNat.toUInt32 else none
  | _ => none

/-- An array is as many things as it has items, in their order. -/
def ofArray (items : List Reading) : Reading
  | .block => items.mapM fun item => item .stmt
  | .params => items.mapM fun item => item .text
  | .exprs => items.mapM fun item => item .expr
  | .cases => items.mapM fun item => item .case
  | _ => none

/-! ## Nodes -/

section

variable (members : List (String × Reading))

/-- A field that has to be there. -/
def field (name : String) (role : Role) : Option role.Tree :=
  (members.lookup name).bind fun value => value role

/-- A field that may be missing. -/
def field? (name : String) (role : Role) : Option (Option role.Tree) :=
  match members.lookup name with
  | none => some none
  | some value => some <$> value role

/-- The column of a node, the first one if none is given. -/
def column : Option UInt32 :=
  (·.getD 1) <$> field? members "column" .coordinate

/-- The position of a node, if it has a line. -/
def span : Option (Option Span) := do
  match ← field? members "line" .coordinate with
  | none => return none
  | some line => (fun c => some ⟨line, c⟩) <$> column members

/-- The expression of a node with a tag. -/
def exprForm (tag : ExprTag) (span : Option Span) : Option (Expr Unit) :=
  let expr (name : String) := field members name .expr
  let exprs (name : String) := (·.getD []) <$> field? members name .exprs
  match tag with
  | .convert goal => Expr.convert span goal <$> expr "value"
  | .binary op => Expr.binary span op <$> expr "value1" <*> expr "value2"
  | .not => Expr.not span <$> expr "value"
  | .len => Expr.len span <$> expr "target"
  | .typeOf => Expr.typeOf span <$> expr "value"
  | .getVar => Expr.getVar span <$> field members "name" .text
  | .list => Expr.list span <$> exprs "values"
  | .range => Expr.range span <$> expr "start" <*> expr "end"
  | .subscript => Expr.subscript span <$> expr "target" <*> expr "index"
  | .join => Expr.join span <$> expr "target" <*> expr "value"
  | .input => Expr.input span <$> field? members "prompt" .expr
  | .func => Expr.func span () <$> field members "args" .params <*> field members "code" .block
  | .call =>
    (fun target args kwargs => Expr.call span target args (kwargs.getD [])) <$> expr "target" <*> exprs "args" <*>
      field? members "kwargs" .named

/-- The instruction of a node with a tag. -/
def stmtForm (tag : StmtTag) (span : Option Span) : Option (Stmt Unit) :=
  let expr (name : String) := field members name .expr
  let code (name : String) := field members name .block
  match tag with
  | .setVar => Stmt.setVar span <$> field members "name" .text <*> expr "value"
  | .compound op => Stmt.compound span op <$> expr "target" <*> expr "value"
  | .append => Stmt.append span <$> expr "target" <*> expr "value"
  | .insert => Stmt.insert span <$> expr "target" <*> expr "index" <*> expr "value"
  | .remove => Stmt.remove span <$> expr "target" <*> expr "index"
  | .print => Stmt.print span <$> expr "value"
  | .cond => Stmt.cond span <$> expr "cond" <*> code "code" <*> field? members "else" .block
  | .switch => Stmt.switch span <$> field members "cases" .cases <*> field? members "default" .block
  | .loop => Stmt.loop span <$> field members "var" .text <*> expr "list" <*> code "code"
  | .ret => Stmt.ret span <$> field? members "value" .expr

/-- An expression node. -/
def exprNode : Option (Expr Unit) := do
  let tag ← ExprTag.ofText? (← field members "type" .text)
  exprForm members tag (← span members)

/-- An instruction node, or an expression node that stands for one. -/
def stmtNode : Option (Stmt Unit) := do
  match StmtTag.ofText? (← field members "type" .text) with
  | some tag => stmtForm members tag (← span members)
  | none => (fun e => Stmt.expr e.span e) <$> exprNode members

/-- A case of a switch. Its position has to be one, but is not kept. -/
def caseNode : Option (Expr Unit × Block Unit) := do
  let _ ← span members
  Prod.mk <$> field members "cond" .expr <*> field members "code" .block

/-- An object is a node, or arguments by name in the order of the document. -/
def ofObject : Reading
  | .expr => exprNode members
  | .stmt => stmtNode members
  | .case => caseNode members
  | .named => members.mapM fun m => (fun e => (m.1, e)) <$> m.2 .expr
  | _ => none

end

end Reading

namespace Json

mutual

/-- What a document stands for. -/
def read : Json → Reading
  | null => fun _ => none
  | bool b => .ofLiteral (.bool b)
  | int n => .ofInt n
  | float x => .ofLiteral (.float x)
  | string s => .ofString s
  | array items => .ofArray (readItems items)
  | object members => .ofObject (readMembers members)

/-- What each of some documents stands for. -/
def readItems : List Json → List Reading
  | [] => []
  | item :: rest => item.read :: readItems rest

/-- What the value of each member stands for. -/
def readMembers : List (String × Json) → List (String × Reading)
  | [] => []
  | (name, value) :: rest => (name, value.read) :: readMembers rest

end

/-- Items are read one by one. -/
theorem readItems_eq_map (items : List Json) : readItems items = items.map read := by
  induction items with
  | nil => rfl
  | cons item rest ih => rw [readItems, ih, List.map_cons]

/-- The values of members are read one by one. -/
theorem readMembers_eq_map (members : List (String × Json)) : readMembers members = members.map fun m => (m.1, m.2.read) := by
  induction members with
  | nil => rfl
  | cons m rest ih => rw [readMembers, ih, List.map_cons]

theorem read_block (items : List Json) : (array items).read .block = items.mapM fun item => item.read .stmt := by
  simp only [read, readItems_eq_map, Reading.ofArray, List.mapM_map, Function.comp_def]

theorem read_params (items : List Json) : (array items).read .params = items.mapM fun item => item.read .text := by
  simp only [read, readItems_eq_map, Reading.ofArray, List.mapM_map, Function.comp_def]

theorem read_exprs (items : List Json) : (array items).read .exprs = items.mapM fun item => item.read .expr := by
  simp only [read, readItems_eq_map, Reading.ofArray, List.mapM_map, Function.comp_def]

theorem read_cases (items : List Json) : (array items).read .cases = items.mapM fun item => item.read .case := by
  simp only [read, readItems_eq_map, Reading.ofArray, List.mapM_map, Function.comp_def]

/-- Named arguments are read one by one, in the order of the document. -/
theorem read_named (members : List (String × Json)) :
    (object members).read .named = members.mapM fun m => (fun e => (m.1, e)) <$> m.2.read .expr := by
  simp only [read, readMembers_eq_map, Reading.ofObject, List.mapM_map, Function.comp_def]

/-- The reading of a field is the reading of the member with its name. -/
theorem lookup_readMembers (name : String) (members : List (String × Json)) :
    (readMembers members).lookup name = (member? name members).map read := by
  induction members with
  | nil => rfl
  | cons m rest ih =>
    obtain ⟨key, value⟩ := m
    simp only [readMembers, member?, List.lookup_cons] at ih ⊢
    cases name == key with
    | true => rfl
    | false => exact ih

/-- What holds of a document whenever it holds of its parts holds of every document. -/
theorem induction {motive : Json → Prop} (null : motive .null) (bool : ∀ b, motive (.bool b)) (int : ∀ n, motive (.int n))
    (float : ∀ x, motive (.float x)) (string : ∀ s, motive (.string s))
    (array : ∀ items, (∀ item ∈ items, motive item) → motive (.array items))
    (object : ∀ members, (∀ m ∈ members, motive m.2) → motive (.object members)) (doc : Json) : motive doc :=
  match doc with
  | .null => null
  | .bool b => bool b
  | .int n => int n
  | .float x => float x
  | .string s => string s
  | .array items => array items fun item _ => induction null bool int float string array object item
  | .object members => object members fun m _ => induction null bool int float string array object m.2
termination_by sizeOf doc
decreasing_by
  · have := List.sizeOf_lt_of_mem ‹_›
    simp only [Json.array.sizeOf_spec]
    omega
  · have hm := List.sizeOf_lt_of_mem ‹m ∈ members›
    rcases m with ⟨name, value⟩
    simp only [Prod.mk.sizeOf_spec, Json.object.sizeOf_spec] at hm ⊢
    omega

end Json

/-! ## Fitting a role and being read in it -/

/-- A tag of an expression is found by its text. -/
theorem ExprTag.ofText?_text (tag : ExprTag) : ExprTag.ofText? tag.text = some tag := by
  rcases tag with goal | op | _ | _ | _ | _ | _ | _ | _ | _ | _ | _ | _
  · cases goal <;> rfl
  · rcases op with op | _ | _ | _ | _ | _
    · cases op <;> rfl
    all_goals rfl
  all_goals rfl

/-- A tag of an instruction is found by its text. -/
theorem StmtTag.ofText?_text (tag : StmtTag) : StmtTag.ofText? tag.text = some tag := by
  rcases tag with _ | op | _ | _ | _ | _ | _ | _ | _ | _
  · rfl
  · cases op <;> rfl
  all_goals rfl

/-- No tag is that of an expression and that of an instruction. -/
theorem StmtTag.ofText?_exprTag (tag : ExprTag) : StmtTag.ofText? tag.text = none := by
  rcases tag with goal | op | _ | _ | _ | _ | _ | _ | _ | _ | _ | _ | _
  · cases goal <;> rfl
  · rcases op with op | _ | _ | _ | _ | _
    · cases op <;> rfl
    all_goals rfl
  all_goals rfl

theorem ExprTag.text_of_ofText? {s : String} {tag : ExprTag} (h : ExprTag.ofText? s = some tag) : tag.text = s := by
  simpa using List.find?_some h

theorem StmtTag.text_of_ofText? {s : String} {tag : StmtTag} (h : StmtTag.ofText? s = some tag) : tag.text = s := by
  simpa using List.find?_some h

/-- Whether a field is as its rule says: it reads in its role, or it is missing and may be. -/
def FieldRule.holds (members : List (String × Reading)) (rule : FieldRule) : Bool :=
  match members.lookup rule.name with
  | none => !rule.required
  | some value => (value rule.role).isSome

namespace Reading

variable (members : List (String × Reading))

/-- The rule of a field that has to be there holds when the field is read. -/
theorem holds_must (name : String) (role : Role) :
    (FieldRule.must name role).holds members = (field members name role).isSome := by
  simp only [field, FieldRule.holds, FieldRule.must]
  cases members.lookup name <;> rfl

/-- The rule of a field that may be missing holds when the field is read or is missing. -/
theorem holds_may (name : String) (role : Role) :
    (FieldRule.may name role).holds members = (field? members name role).isSome := by
  simp only [field?, FieldRule.holds, FieldRule.may]
  cases members.lookup name with
  | none => rfl
  | some value => exact Option.isSome_map.symm

theorem isSome_map {α β : Type} (f : α → β) (x : Option α) : (f <$> x).isSome = x.isSome :=
  Option.isSome_map

theorem isSome_seq {α β : Type} (f : Option (α → β)) (x : Option α) : (f <*> x).isSome = (f.isSome && x.isSome) := by
  cases f <;> cases x <;> rfl

/-- An expression is read of its fields exactly when all of them are as their rules say. -/
theorem isSome_exprForm (tag : ExprTag) (span : Option Span) :
    (exprForm members tag span).isSome = tag.fields.all (FieldRule.holds members) := by
  cases tag <;>
    simp only [exprForm, ExprTag.fields, isSome_map, isSome_seq, holds_must, holds_may, List.all_cons, List.all_nil,
      Bool.and_true, Bool.and_assoc]

/-- An instruction is read of its fields exactly when all of them are as their rules say. -/
theorem isSome_stmtForm (tag : StmtTag) (span : Option Span) :
    (stmtForm members tag span).isSome = tag.fields.all (FieldRule.holds members) := by
  cases tag <;>
    simp only [stmtForm, StmtTag.fields, isSome_map, isSome_seq, holds_must, holds_may, List.all_cons, List.all_nil,
      Bool.and_true, Bool.and_assoc]

end Reading

namespace Json

variable {members : List (String × Json)}

/-- The fields of a node are as their rules say exactly when those that have to be there are, and all that are there fit. -/
theorem all_holds_iff {rules : List FieldRule}
    (h : ∀ name value, member? name members = some value → ∀ role, Conforms role value ↔ (value.read role).isSome) :
    rules.all (FieldRule.holds (readMembers members)) ↔
      Complete members rules ∧ ∀ rule ∈ rules, ∀ value, member? rule.name members = some value → Conforms rule.role value := by
  have hrule (rule : FieldRule) : rule.holds (readMembers members) ↔ (rule.required → (member? rule.name members).isSome) ∧
      ∀ value, member? rule.name members = some value → Conforms rule.role value := by
    simp only [FieldRule.holds, lookup_readMembers]
    cases hvalue : member? rule.name members with
    | none => simp
    | some value => simp [h _ _ hvalue]
  simp only [List.all_eq_true, hrule, Complete]
  exact ⟨fun h => ⟨fun rule hr => (h rule hr).1, fun rule hr => (h rule hr).2⟩, fun h rule hr => ⟨h.1 rule hr, h.2 rule hr⟩⟩

/-- The position of a node can be read exactly when its fields are as their rules say. -/
theorem all_fieldsOf (own : List FieldRule) :
    (fieldsOf members own).all (FieldRule.holds (readMembers members)) =
      ((Reading.span (readMembers members)).isSome && own.all (FieldRule.holds (readMembers members))) := by
  rw [fieldsOf, List.all_append]
  congr 1
  have hlookup := lookup_readMembers "line" members
  cases hline : member? "line" members with
  | none =>
    rw [hline] at hlookup
    simp [Reading.span, Reading.field?, hlookup]
  | some line =>
    rw [hline] at hlookup
    simp only [Option.isSome_some, if_true, List.all_cons, List.all_nil, Bool.and_true, Reading.holds_must, Reading.holds_may]
    have hfield : Reading.field (readMembers members) "line" .coordinate = line.read .coordinate := by
      simp [Reading.field, hlookup]
    have hfield? : Reading.field? (readMembers members) "line" .coordinate = some <$> line.read .coordinate := by
      simp [Reading.field?, hlookup]
    rw [Reading.span, hfield, hfield?]
    cases line.read .coordinate with
    | none => rfl
    | some l =>
      rw [Reading.column]
      cases Reading.field? (readMembers members) "column" .coordinate <;> rfl

/-- Only a string is read as a text. -/
theorem read_text {doc : Json} {s : String} : doc.read .text = some s ↔ doc = .string s := by
  cases doc with
  | string t => simp [read, Reading.ofString]
  | _ => simp [read, Reading.ofLiteral, Reading.ofInt, Reading.ofArray, Reading.ofObject]

/-- The tag of a node is the string in its `type`. -/
theorem field_type {tag : String} : Reading.field (readMembers members) "type" .text = some tag ↔ HasTag members tag := by
  simp only [Reading.field, lookup_readMembers, HasTag]
  cases member? "type" members with
  | none => simp
  | some value => simpa using read_text

/-- An object is an expression when it has the tag of one and the fields that go with it. -/
theorem isSome_exprNode : (Reading.exprNode (readMembers members)).isSome ↔
    ∃ tag : ExprTag, HasTag members tag.text ∧ (fieldsOf members tag.fields).all (FieldRule.holds (readMembers members)) := by
  simp only [all_fieldsOf, Bool.and_eq_true]
  constructor
  · intro h
    obtain ⟨e, he⟩ := Option.isSome_iff_exists.mp h
    obtain ⟨text, htext, he⟩ := Option.bind_eq_some_iff.mp he
    obtain ⟨tag, htag, he⟩ := Option.bind_eq_some_iff.mp he
    obtain ⟨span, hspan, he⟩ := Option.bind_eq_some_iff.mp he
    refine ⟨tag, ?_, by rw [hspan]; rfl, ?_⟩
    · rw [ExprTag.text_of_ofText? htag]
      exact field_type.mp htext
    · rw [← Reading.isSome_exprForm _ tag span, he]
      rfl
  · rintro ⟨tag, htag, hspan, hform⟩
    obtain ⟨span, hspan⟩ := Option.isSome_iff_exists.mp hspan
    have hnode : Reading.exprNode (readMembers members) = Reading.exprForm (readMembers members) tag span := by
      simp [Reading.exprNode, field_type.mpr htag, ExprTag.ofText?_text, hspan]
    rw [hnode, Reading.isSome_exprForm]
    exact hform

/-- An object is an instruction when it has the tag of one and the fields that go with it, or is an expression. -/
theorem isSome_stmtNode : (Reading.stmtNode (readMembers members)).isSome ↔
    (∃ tag : StmtTag, HasTag members tag.text ∧ (fieldsOf members tag.fields).all (FieldRule.holds (readMembers members))) ∨
      (Reading.exprNode (readMembers members)).isSome := by
  simp only [all_fieldsOf, Bool.and_eq_true]
  constructor
  · intro h
    obtain ⟨s, hs⟩ := Option.isSome_iff_exists.mp h
    obtain ⟨text, htext, hs⟩ := Option.bind_eq_some_iff.mp hs
    cases htag : StmtTag.ofText? text with
    | none =>
      rw [htag] at hs
      obtain ⟨e, he, -⟩ := Option.map_eq_some_iff.mp hs
      exact .inr (by rw [he]; rfl)
    | some tag =>
      rw [htag] at hs
      obtain ⟨span, hspan, hs⟩ := Option.bind_eq_some_iff.mp hs
      refine .inl ⟨tag, ?_, by rw [hspan]; rfl, ?_⟩
      · rw [StmtTag.text_of_ofText? htag]
        exact field_type.mp htext
      · rw [← Reading.isSome_stmtForm _ tag span, hs]
        rfl
  · rintro (⟨tag, htag, hspan, hform⟩ | he)
    · obtain ⟨span, hspan⟩ := Option.isSome_iff_exists.mp hspan
      have hnode : Reading.stmtNode (readMembers members) = Reading.stmtForm (readMembers members) tag span := by
        simp [Reading.stmtNode, field_type.mpr htag, StmtTag.ofText?_text, hspan]
      rw [hnode, Reading.isSome_stmtForm]
      exact hform
    · obtain ⟨tag, htag, -⟩ := isSome_exprNode.mp he
      simp [Reading.stmtNode, field_type.mpr htag, StmtTag.ofText?_exprTag, he]

/-- A case of a switch is read exactly when its fields are as their rules say. -/
theorem isSome_caseNode : (Reading.caseNode (readMembers members)).isSome =
    (fieldsOf members FieldRule.case).all (FieldRule.holds (readMembers members)) := by
  rw [all_fieldsOf, Reading.caseNode]
  cases Reading.span (readMembers members) with
  | none => rfl
  | some span =>
    simp [FieldRule.case, Reading.holds_must, Reading.isSome_seq]

/-- Items are read together exactly when each of them is. -/
theorem isSome_mapM {α β : Type} (f : α → Option β) (xs : List α) : (xs.mapM f).isSome ↔ ∀ x ∈ xs, (f x).isSome := by
  induction xs with
  | nil => simp
  | cons x rest ih =>
    simp only [List.mapM_cons, List.forall_mem_cons, ← ih]
    cases f x with
    | none => simp
    | some b => cases rest.mapM f <;> simp

/-- A member that is found is one of the members. -/
theorem exists_mem_of_member? {name : String} {value : Json} (h : member? name members = some value) :
    ∃ m ∈ members, m.2 = value := by
  obtain ⟨before, after, rfl, -⟩ := List.lookup_eq_some_iff.mp h
  exact ⟨(name, value), by simp, rfl⟩

/-- A document stands for something in a role exactly when it fits the role. -/
theorem conforms_iff_isSome_read (doc : Json) : ∀ role, Conforms role doc ↔ (doc.read role).isSome := by
  induction doc using Json.induction with
  | null => exact fun role => ⟨nofun, nofun⟩
  | bool b | float b =>
    refine fun role => ⟨fun h => ?_, fun h => ?_⟩
    · cases h
      rfl
    · cases role with
      | expr => constructor
      | _ => cases h
  | string s =>
    refine fun role => ⟨fun h => ?_, fun h => ?_⟩
    · cases h <;> rfl
    · cases role with
      | expr | text => constructor
      | _ => cases h
  | int n =>
    refine fun role => ⟨fun h => ?_, fun h => ?_⟩
    · cases h with
      | int _ low high | coordinate _ low high =>
        simp only [read, Reading.ofInt, low, high, and_self, if_true, Option.isSome_some]
    · cases role with
      | expr | coordinate =>
        simp only [read, Reading.ofInt] at h
        split at h
        · rename_i hn
          constructor
          · exact hn.1
          · exact hn.2
        · cases h
      | _ => cases h
  | array items ih =>
    refine fun role => ⟨fun h => ?_, fun h => ?_⟩
    · cases h with
      | block all | params all | exprs all | cases all =>
        simp only [read_block, read_params, read_exprs, read_cases, isSome_mapM]
        exact fun item hi => (ih item hi _).mp (all item hi)
    · cases role with
      | block | params | exprs | cases =>
        simp only [read_block, read_params, read_exprs, read_cases, isSome_mapM] at h
        constructor
        exact fun item hi => (ih item hi _).mpr (h item hi)
      | _ => cases h
  | object members ih =>
    have hparts : ∀ name value, member? name members = some value → ∀ role, Conforms role value ↔ (value.read role).isSome := by
      intro name value hvalue
      obtain ⟨m, hm, rfl⟩ := exists_mem_of_member? hvalue
      exact ih m hm
    refine fun role => ⟨fun h => ?_, fun h => ?_⟩
    · cases h with
      | expr tag hasTag complete fits => exact isSome_exprNode.mpr ⟨tag, hasTag, (all_holds_iff hparts).mpr ⟨complete, fits⟩⟩
      | stmt tag hasTag complete fits =>
        exact isSome_stmtNode.mpr (.inl ⟨tag, hasTag, (all_holds_iff hparts).mpr ⟨complete, fits⟩⟩)
      | exprStmt node =>
        cases node with
        | expr tag hasTag complete fits =>
          exact isSome_stmtNode.mpr (.inr (isSome_exprNode.mpr ⟨tag, hasTag, (all_holds_iff hparts).mpr ⟨complete, fits⟩⟩))
      | case complete fits =>
        show (Reading.caseNode (readMembers members)).isSome
        rw [isSome_caseNode]
        exact (all_holds_iff hparts).mpr ⟨complete, fits⟩
      | named all =>
        simp only [read_named, isSome_mapM, Reading.isSome_map]
        exact fun m hm => (ih m hm _).mp (all m hm)
    · cases role with
      | expr =>
        obtain ⟨tag, hasTag, hall⟩ := isSome_exprNode.mp h
        obtain ⟨complete, fits⟩ := (all_holds_iff hparts).mp hall
        exact .expr tag hasTag complete fits
      | stmt =>
        rcases isSome_stmtNode.mp h with ⟨tag, hasTag, hall⟩ | h
        · obtain ⟨complete, fits⟩ := (all_holds_iff hparts).mp hall
          exact .stmt tag hasTag complete fits
        · obtain ⟨tag, hasTag, hall⟩ := isSome_exprNode.mp h
          obtain ⟨complete, fits⟩ := (all_holds_iff hparts).mp hall
          exact .exprStmt (.expr tag hasTag complete fits)
      | case =>
        obtain ⟨complete, fits⟩ := (all_holds_iff hparts).mp (isSome_caseNode.symm.trans h)
        exact .case complete fits
      | named =>
        simp only [read_named, isSome_mapM, Reading.isSome_map] at h
        exact .named fun m hm => (ih m hm _).mpr (h m hm)
      | _ => cases h

instance (role : Role) (doc : Json) : Decidable (Conforms role doc) :=
  decidable_of_iff _ (conforms_iff_isSome_read doc role).symm

end Json

end NodeScript
