import Mathlib.Data.List.Infix
import Mathlib.Logic.Function.Basic
import NodeScript.Proofs.Load.Origin

/-!
# Tables of tags

Which form a node has is decided by the text of its tag. The loader looks for the tag that has this text, and the form goes with the
tag. The same can be done with texts only: look the text up in the lists of all tags, take the operator that stands in front of
`set`, try the tables of conversions and of operators, and compare with the texts of the other forms one by one. Then something has
to be done with a listed text that is none of these, but there is none, so that both ways of loading are one
(`nodeLoaderByText_eq`). The tables go the other way of those that give a conversion or an operator its tag
(`Conversion.ofTag?_eq_some_iff`, `BinOp.ofTag?_eq_some_iff`, `ArithOp.ofCompoundTag?_eq_some_iff`). An error
about the tag of a node is noted at the place of the node, and all other errors of the node have another code or stand further into
the document (`Load.Notes.NotOfTag`), so that such an error means that the tag is in no list (`NodeLoader.unknownInstruction_iff`,
`NodeLoader.unknownExpression_iff`).
-/

namespace NodeScript

/-! ## Tables of tags -/

/-- The tags of expressions. -/
def ExprTag.texts : List String :=
  ["int", "float", "bool", "string", "add", "sub", "mul", "div", "mod", "pow", "equal", "notequal", "and", "or", "xor", "not",
    "len", "typeof", "getvar", "list", "range", "subscript", "join", "input", "func", "call"]

/-- The tags of instructions. -/
def StmtTag.texts : List String :=
  ["setvar", "addset", "subset", "mulset", "divset", "modset", "powset", "append", "insert", "remove", "print", "if", "switch",
    "loop", "return"]

/-- A text is in the table of expressions when a form goes with it. -/
theorem ExprTag.mem_texts_iff {text : String} : text ∈ ExprTag.texts ↔ (ExprTag.ofText? text).isSome := by
  have htexts : ExprTag.texts = ExprTag.all.map ExprTag.text := rfl
  rw [htexts, List.mem_map, ExprTag.ofText?, List.find?_isSome]
  simp only [beq_iff_eq]

/-- A text is in the table of instructions when a form goes with it. -/
theorem StmtTag.mem_texts_iff {text : String} : text ∈ StmtTag.texts ↔ (StmtTag.ofText? text).isSome := by
  have htexts : StmtTag.texts = StmtTag.all.map StmtTag.text := rfl
  rw [htexts, List.mem_map, StmtTag.ofText?, List.find?_isSome]
  simp only [beq_iff_eq]

/-- The table that leads from tags to conversions goes the other way of the table of their tags. -/
theorem Conversion.ofTag?_eq_some_iff {tag : String} {goal : Conversion} :
    Conversion.ofTag? tag = some goal ↔ goal.tag = tag := by
  constructor
  · intro h
    unfold Conversion.ofTag? at h
    split at h <;> cases h <;> rfl
  · rintro rfl
    cases goal <;> rfl

/-- The table that leads from tags to operators goes the other way of the table of their tags. -/
theorem BinOp.ofTag?_eq_some_iff {tag : String} {op : BinOp} : BinOp.ofTag? tag = some op ↔ op.tag = tag := by
  constructor
  · intro h
    unfold BinOp.ofTag? at h
    split at h <;> cases h <;> rfl
  · rintro rfl
    rcases op with op | _ | _ | _ | _ | _
    · cases op <;> rfl
    all_goals rfl

/-- The tag of a compound assignment is the tag of its operator in front of `set`. -/
theorem ArithOp.toList_compoundTag (op : ArithOp) : op.compoundTag.toList = op.tag.toList ++ "set".toList := by
  cases op <;> decide

/-- The operators of arithmetic are the binary ones that are made from them. -/
theorem BinOp.arith?_eq_some_iff {op : BinOp} {arith : ArithOp} : op.arith? = some arith ↔ op = .arith arith := by
  cases op <;> simp [BinOp.arith?]

/-- What stands in front of `set` is looked up in the table of all operators, and no other operator than one of arithmetic is
found that way. -/
theorem ArithOp.ofCompoundTag?_eq_some_iff {tag : String} {op : ArithOp} :
    ArithOp.ofCompoundTag? tag = some op ↔ op.compoundTag = tag := by
  have hset (stem : List Char) : "set".toList.isSuffixOf? tag.toList = some stem ↔ stem ++ "set".toList = tag.toList :=
    List.isSuffixOf?_eq_some_iff_append_eq
  simp only [ofCompoundTag?, Option.bind_eq_bind, Option.bind_eq_some_iff, BinOp.ofTag?_eq_some_iff,
    BinOp.arith?_eq_some_iff, hset]
  constructor
  · rintro ⟨stem, hstem, binary, hbinary, rfl⟩
    have hop : op.tag = String.ofList stem := hbinary
    rw [← String.toList_inj, toList_compoundTag, hop, String.toList_ofList, hstem]
  · rintro rfl
    exact ⟨op.tag.toList, op.toList_compoundTag.symm, .arith op, String.ofList_toList.symm, rfl⟩

/-! ## Reading a node by its tag -/

namespace NodeLoader

/-- What is done with a tag that is in a table although no form goes with it. -/
structure Arms where
  expr : String → Load (Expr Unit)
  stmt : String → Load (Stmt Unit)

section

variable (arms : Arms) (r : NodeLoader) (members : List (String × Json))

/-- The expression of a node by the text of its tag: first a conversion is tried, then an operator, and then the other forms one by
one. -/
def exprByText (tag : String) (span : Option Span) : Load (Expr Unit) :=
  match Conversion.ofTag? tag with
  | some goal => r.exprForm members (.convert goal) span
  | none =>
    match BinOp.ofTag? tag with
    | some op => r.exprForm members (.binary op) span
    | none =>
      match tag with
      | "not" => r.exprForm members .not span
      | "len" => r.exprForm members .len span
      | "typeof" => r.exprForm members .typeOf span
      | "getvar" => r.exprForm members .getVar span
      | "list" => r.exprForm members .list span
      | "range" => r.exprForm members .range span
      | "subscript" => r.exprForm members .subscript span
      | "join" => r.exprForm members .join span
      | "input" => r.exprForm members .input span
      | "func" => r.exprForm members .func span
      | "call" => r.exprForm members .call span
      | _ => arms.expr tag

/-- The instruction of a node by the text of its tag: first a compound assignment is tried, and then the other forms one by one. -/
def stmtByText (tag : String) (span : Option Span) : Load (Stmt Unit) :=
  match ArithOp.ofCompoundTag? tag with
  | some op => r.stmtForm members (.compound op) span
  | none =>
    match tag with
    | "setvar" => r.stmtForm members .setVar span
    | "append" => r.stmtForm members .append span
    | "insert" => r.stmtForm members .insert span
    | "remove" => r.stmtForm members .remove span
    | "print" => r.stmtForm members .print span
    | "if" => r.stmtForm members .cond span
    | "switch" => r.stmtForm members .switch span
    | "loop" => r.stmtForm members .loop span
    | "return" => r.stmtForm members .ret span
    | _ => arms.stmt tag

/-- An expression, where a node is read by the text of its tag once it is found in the table. -/
def nextExprByText : Json → Load (Expr Unit)
  | .object members => tagged (.object members) fun members tag =>
    if tag ∈ ExprTag.texts then Load.node members (r.exprByText arms members tag) else Load.fail (.unknownExpression tag)
  | doc => r.nextExpr doc

/-- An instruction, which is read by the text of its tag once it is found in one of the tables. -/
def nextStmtByText (doc : Json) : Load (Stmt Unit) :=
  tagged doc fun members tag =>
    if tag ∈ StmtTag.texts then Load.node members (r.stmtByText arms members tag)
    else if tag ∈ ExprTag.texts then (fun e => .expr e.span e) <$> r.nextExprByText arms doc
    else Load.fail (.unknownInstruction tag)

end

/-- By the text of a tag the same form of expression is found as by the tag. None of the tables that are tried first has the text
of another form. -/
theorem exprByText_text (arms : Arms) (r : NodeLoader) (members : List (String × Json)) (tag : ExprTag) :
    r.exprByText arms members tag.text = r.exprForm members tag := by
  funext span
  rcases tag with goal | op | _ | _ | _ | _ | _ | _ | _ | _ | _ | _ | _
  · cases goal <;> rfl
  · rcases op with op | _ | _ | _ | _ | _
    · cases op <;> rfl
    all_goals rfl
  all_goals rfl

/-- By the text of a tag the same form of instruction is found as by the tag. -/
theorem stmtByText_text (arms : Arms) (r : NodeLoader) (members : List (String × Json)) (tag : StmtTag) :
    r.stmtByText arms members tag.text = r.stmtForm members tag := by
  funext span
  rcases tag with _ | op | _ | _ | _ | _ | _ | _ | _ | _
  · rfl
  · cases op <;> rfl
  all_goals rfl

theorem nextExpr_object (r : NodeLoader) (members : List (String × Json)) :
    r.nextExpr (.object members) = tagged (.object members) fun members tag =>
      match ExprTag.ofText? tag with
      | some known => Load.node members (r.exprForm members known)
      | none => Load.fail (.unknownExpression tag) :=
  rfl

theorem nextExprByText_object (arms : Arms) (r : NodeLoader) (members : List (String × Json)) :
    r.nextExprByText arms (.object members) = tagged (.object members) fun members tag =>
      if tag ∈ ExprTag.texts then Load.node members (r.exprByText arms members tag) else Load.fail (.unknownExpression tag) :=
  rfl

/-- A tag that is in the table has a form. -/
theorem nextExprByText_eq (arms : Arms) (r : NodeLoader) (doc : Json) : r.nextExprByText arms doc = r.nextExpr doc := by
  cases doc with
  | object members =>
    rw [nextExprByText_object, nextExpr_object]
    refine congrArg (tagged (.object members)) (funext₂ ?_)
    intro members tag
    cases hknown : ExprTag.ofText? tag with
    | some known =>
      rw [if_pos (ExprTag.mem_texts_iff.mpr (by rw [hknown]; rfl)), ← ExprTag.text_of_ofText? hknown, exprByText_text]
    | none => rw [if_neg (by simp [ExprTag.mem_texts_iff, hknown])]
  | _ => rfl

/-- A tag that is in one of the tables has a form, of an instruction or of an expression. -/
theorem nextStmtByText_eq (arms : Arms) (r : NodeLoader) (doc : Json) : r.nextStmtByText arms doc = r.nextStmt doc := by
  refine congrArg (tagged doc) (funext₂ ?_)
  intro members tag
  cases hknown : StmtTag.ofText? tag with
  | some known =>
    rw [if_pos (StmtTag.mem_texts_iff.mpr (by rw [hknown]; rfl)), ← StmtTag.text_of_ofText? hknown, stmtByText_text]
  | none =>
    rw [if_neg (by simp [StmtTag.mem_texts_iff, hknown])]
    simp only [ExprTag.mem_texts_iff, nextExprByText_eq]

end NodeLoader

/-- The loader of documents nested less than `n` deep that goes by the texts of tags. -/
def nodeLoaderByText (arms : NodeLoader.Arms) : Nat → NodeLoader
  | 0 => .bottom
  | n + 1 => ⟨(nodeLoaderByText arms n).nextExprByText arms, (nodeLoaderByText arms n).nextStmtByText arms⟩

/-- The arms behind the tables are never taken: it does not matter what they do. -/
theorem nodeLoaderByText_eq (arms : NodeLoader.Arms) (n : Nat) : nodeLoaderByText arms n = nodeLoader n := by
  induction n with
  | zero => rfl
  | succ n ih =>
    rw [nodeLoaderByText, ih, nodeLoader]
    congr 1
    · exact funext (NodeLoader.nextExprByText_eq arms _)
    · exact funext (NodeLoader.nextStmtByText_eq arms _)

/-! ## Where errors about tags are noted -/

/-- The error for a cause at a place. -/
def LoadCause.at (cause : LoadCause) (place : Place) : LoadError :=
  ⟨cause.code, cause.message, place.path.text, place.span⟩

/-- A longer path has a longer text. -/
theorem Path.length_text_lt (path : Path) (segment : Segment) : path.text.length < (Path.text (path ++ [segment])).length := by
  have htext : Path.text (path ++ [segment]) = path.text ++ segment.text := by
    rw [Path.text, List.foldl_append]
    rfl
  have hsegment : 0 < segment.text.length := by
    cases segment with
    | index i =>
      rw [Segment.text, String.length_append, String.length_append, show "[".length = 1 by decide]
      omega
    | key name =>
      rw [Segment.text, String.length_append, show ".".length = 1 by decide]
      omega
  rw [htext, String.length_append]
  omega

namespace Load

variable {α β : Type}

/-- Every error that a loader notes is as `P` says about the path of the place. -/
def Notes (P : Path → LoadError → Prop) (x : Load α) : Prop :=
  ∀ place log, ∃ es, (x place log).2 = log.pushAll es ∧ ∀ e ∈ es, P place.path e

namespace Notes

variable {P Q : Path → LoadError → Prop}

theorem pure (a : α) : Notes P (Pure.pure a : Load α) :=
  fun _ _ => ⟨[], rfl, by simp⟩

theorem note {cause : LoadCause} (h : ∀ place, P place.path (cause.at place)) : Notes P (note cause) :=
  fun place _ => ⟨[cause.at place], rfl, by simpa using h place⟩

/-- The cause of a failure is noted at the place where the loader is. -/
theorem fail {cause : LoadCause} (h : ∀ place, P place.path (cause.at place)) : Notes P (fail cause : Load α) :=
  fun place _ => ⟨[cause.at place], rfl, by simpa using h place⟩

theorem map (f : α → β) {x : Load α} (hx : Notes P x) : Notes P (f <$> x) :=
  hx

theorem seq {f : Load (α → β)} {x : Load α} (hf : Notes P f) (hx : Notes P x) : Notes P (f <*> x) :=
  fun place log => ErrorLog.pushAll_trans (hf place log) (hx place (f place log).2)

/-- Inside a part all errors are as the part's own path says. -/
theorem within (segment : Segment) {x : Load α} (hx : Notes Q x) (h : ∀ path e, Q (path ++ [segment]) e → P path e) :
    Notes P (within segment x) := by
  intro place log
  obtain ⟨es, hlog, hes⟩ := hx { place with path := place.path ++ [segment] } log
  exact ⟨es, hlog, fun e he => h place.path e (hes e he)⟩

/-- A node notes what is wrong with its line and its column, and what its form notes. -/
theorem node (members : List (String × Json)) {x : Option Span → Load α}
    (hline : ∀ place, P place.path (LoadCause.lineNotNumber.at place))
    (hcolumn : ∀ place, P place.path (LoadCause.columnNotNumber.at place)) (hx : ∀ span, Notes P (x span)) :
    Notes P (node members x) := by
  intro place log
  have hspan : Notes P (span members) := span_induction pure map (fun _ => note hline) (note hcolumn)
  rw [node_apply]
  exact ErrorLog.pushAll_trans (hspan place log) (hx _ { place with span := _ } _)

/-- The instructions of an array note errors inside their items. -/
theorem stmts {r : NodeLoader} (hr : ∀ doc, Notes Q (r.stmt doc)) (h : ∀ path i e, Q (path ++ [.index i]) e → P path e) (i : Nat)
    (items : List Json) : Notes P (r.stmts i items) := by
  intro place log
  induction items generalizing i log with
  | nil => exact ⟨[], rfl, by simp⟩
  | cons item rest ih =>
    rw [NodeLoader.stmts]
    split
    · exact ⟨[], rfl, by simp⟩
    · have hitem := within (.index i) (hr item) (fun path e => h path i e) place log
      exact ErrorLog.pushAll_trans hitem (ih (i + 1) _)

/-! ### Errors inside a node -/

/-- An error is noted at a path or further into the document. -/
def AtOrBelow (path : Path) (e : LoadError) : Prop :=
  path.text.length ≤ e.path.length

theorem atOrBelow_at (cause : LoadCause) (place : Place) : AtOrBelow place.path (cause.at place) :=
  Nat.le_refl _

/-- What is noted inside a part is noted inside what the part belongs to. -/
theorem AtOrBelow.of_append {path : Path} {segment : Segment} {e : LoadError} (h : AtOrBelow (path ++ [segment]) e) :
    AtOrBelow path e :=
  Nat.le_trans (Nat.le_of_lt (path.length_text_lt segment)) h

/-- A loader goes into the document and never out of it. -/
theorem closed_atOrBelow : Closed (Notes AtOrBelow) where
  pure := pure
  fail cause := fail (atOrBelow_at cause)
  map := map
  seq := seq
  within segment _ hx := within segment hx fun _ _ => AtOrBelow.of_append
  node members _ hx := node members (atOrBelow_at _) (atOrBelow_at _) hx
  stmts hr := stmts hr fun _ _ _ => AtOrBelow.of_append

/-- An error at a path is not about the tag of the node there. -/
def NotOfTag (path : Path) (e : LoadError) : Prop :=
  e.path = path.text → e.code ≠ .unknownInstruction ∧ e.code ≠ .unknownExpression

/-- An error further into the document has another path. -/
theorem AtOrBelow.notOfTag {path : Path} {segment : Segment} {e : LoadError} (h : AtOrBelow (path ++ [segment]) e) :
    NotOfTag path e := by
  intro hpath
  have hlt := path.length_text_lt segment
  have hle : (Path.text (path ++ [segment])).length ≤ e.path.length := h
  rw [hpath] at hle
  omega

/-- An error about anything but a tag may stand at the place of the node. -/
theorem notOfTag_at {cause : LoadCause} (h : cause.code ≠ .unknownInstruction ∧ cause.code ≠ .unknownExpression) (place : Place) :
    NotOfTag place.path (cause.at place) :=
  fun _ => h

/-- A missing field is no error about a tag. -/
theorem fieldMissing (tag name : String) : Notes NotOfTag (Load.fail (.fieldMissing tag name) : Load α) := by
  refine fail (notOfTag_at ?_)
  show ErrorCode.missingField ≠ .unknownInstruction ∧ ErrorCode.missingField ≠ .unknownExpression
  decide

/-- A field that has to be there is missing, or its errors are inside it. -/
theorem field {x : Json → Load α} (hx : ∀ doc, Notes AtOrBelow (x doc)) (tag name : String) (members : List (String × Json)) :
    Notes NotOfTag (Load.field tag name x members) := by
  unfold Load.field
  split
  · exact fieldMissing tag name
  · exact within _ (hx _) fun _ _ => AtOrBelow.notOfTag

/-- A field that may be missing has its errors inside it. -/
theorem field? {x : Json → Load α} (hx : ∀ doc, Notes AtOrBelow (x doc)) (name : String) (members : List (String × Json)) :
    Notes NotOfTag (Load.field? name x members) := by
  unfold Load.field?
  split
  · exact pure none
  · exact map _ (within _ (hx _) fun _ _ => AtOrBelow.notOfTag)

section

variable {r : NodeLoader} (members : List (String × Json)) (span : Option Span)

theorem arrayField (hr : r.All (Notes AtOrBelow)) (name : String) : Notes NotOfTag (Load.arrayField name r.expr members) :=
  map _ (field? (closed_atOrBelow.array hr.expr name) name members)

/-- No form of expressions notes an error about its own tag. -/
theorem exprForm (hr : r.All (Notes AtOrBelow)) (tag : ExprTag) : Notes NotOfTag (r.exprForm members tag span) := by
  have expr (name : String) := field hr.expr tag.text name members
  cases tag with
  | convert | not | len | typeOf => exact map _ (expr _)
  | binary | range | subscript | join => exact seq (map _ (expr _)) (expr _)
  | getVar => exact map _ (field (closed_atOrBelow.text _) _ _ _)
  | list => exact map _ (arrayField members hr _)
  | input => exact map _ (field? hr.expr _ _)
  | func => exact seq (map _ (field hr.params _ _ _)) (field hr.block _ _ _)
  | call =>
    exact seq (seq (map _ (expr _)) (arrayField members hr _)) (field? (closed_atOrBelow.object hr.expr _) _ _)

/-- No form of instructions notes an error about its own tag. -/
theorem stmtForm (hr : r.All (Notes AtOrBelow)) (tag : StmtTag) : Notes NotOfTag (r.stmtForm members tag span) := by
  have expr (name : String) := field hr.expr tag.text name members
  have code (name : String) := field hr.block tag.text name members
  have name (name : String) := field (closed_atOrBelow.text name) tag.text name members
  cases tag with
  | setVar => exact seq (map _ (name _)) (expr _)
  | compound | append | remove => exact seq (map _ (expr _)) (expr _)
  | insert => exact seq (seq (map _ (expr _)) (expr _)) (expr _)
  | print => exact map _ (expr _)
  | cond => exact seq (seq (map _ (expr _)) (code _)) (field? hr.block _ _)
  | switch =>
    unfold NodeLoader.stmtForm
    dsimp only
    split
    · exact fieldMissing _ _
    · refine seq (map _ (within _ (closed_atOrBelow.array hr.switchCase _ _) ?_)) (field? hr.block _ _)
      exact fun _ _ => AtOrBelow.notOfTag
  | loop => exact seq (seq (map _ (name _)) (expr _)) (code _)
  | ret => exact map _ (field? hr.expr _ _)

end

/-- A loader that notes no error about a tag at its place is not refused there for a tag. -/
theorem not_mem_errors {x : Load α} (hx : Notes NotOfTag x) (place : Place) {cause : LoadCause}
    (hcause : cause.code = .unknownInstruction ∨ cause.code = .unknownExpression) :
    cause.at place ∉ (x place (.empty none)).2.errors := by
  intro hmem
  obtain ⟨es, hlog, hes⟩ := hx place (.empty none)
  rw [hlog] at hmem
  have hnoted : cause.at place ∈ es := (ErrorLog.mem_of_mem_errors_pushAll hmem).resolve_left (by simp [ErrorLog.empty])
  obtain ⟨hinstruction, hexpression⟩ := hes _ hnoted rfl
  rcases hcause with hcause | hcause
  · exact hinstruction hcause
  · exact hexpression hcause

end Notes

end Load

/-! ## Refused tags -/

namespace NodeLoader

variable {members : List (String × Json)} {tag : String}

/-- A node with a tag is read by it. -/
theorem tagged_of_hasTag {α : Type} (htag : Json.HasTag members tag) (x : List (String × Json) → String → Load α) :
    tagged (.object members) x = x members tag := by
  have htype : Json.member? "type" members = some (.string tag) := htag
  simp only [tagged, htype]

/-- The position of a node is not about its tag. -/
theorem notes_node {α : Type} (members : List (String × Json)) {x : Option Span → Load α}
    (hx : ∀ span, Load.Notes Load.Notes.NotOfTag (x span)) :
    Load.Notes Load.Notes.NotOfTag (Load.node members x) := by
  refine .node members (Load.Notes.notOfTag_at ?_) (Load.Notes.notOfTag_at ?_) hx
  all_goals
    show ErrorCode.malformedField ≠ .unknownInstruction ∧ ErrorCode.malformedField ≠ .unknownExpression
    decide

/-- An expression whose tag is known is read as a node of its form. -/
theorem nextExpr_of_known {r : NodeLoader} (htag : Json.HasTag members tag) {known : ExprTag}
    (hknown : ExprTag.ofText? tag = some known) : r.nextExpr (.object members) = Load.node members (r.exprForm members known) := by
  rw [nextExpr_object, tagged_of_hasTag htag, hknown]

/-- An expression whose tag is in no table is refused because of it. -/
theorem nextExpr_of_unknown {r : NodeLoader} (htag : Json.HasTag members tag) (hunknown : ExprTag.ofText? tag = none) :
    r.nextExpr (.object members) = Load.fail (.unknownExpression tag) := by
  rw [nextExpr_object, tagged_of_hasTag htag, hunknown]

/-- Where an expression is expected, a tag is refused exactly if it is not in the table of expressions. -/
theorem unknownExpression_iff (n : Nat) (htag : Json.HasTag members tag) (place : Place) :
    (LoadCause.unknownExpression tag).at place ∈ ((nodeLoader (n + 1)).expr (.object members) place (.empty none)).2.errors ↔
      tag ∉ ExprTag.texts := by
  have hall := Load.Notes.closed_atOrBelow.loader n
  show _ ∈ ((nodeLoader n).nextExpr (.object members) place (.empty none)).2.errors ↔ _
  rw [ExprTag.mem_texts_iff]
  cases hknown : ExprTag.ofText? tag with
  | some known =>
    rw [nextExpr_of_known htag hknown]
    have hnotes := notes_node members fun span => Load.Notes.exprForm members span hall known
    simpa using hnotes.not_mem_errors place (.inr rfl)
  | none =>
    rw [nextExpr_of_unknown htag hknown]
    simp [Load.fail, Load.note, ErrorLog.push, ErrorLog.empty, ErrorLog.isFull, LoadCause.at]

/-- Where an instruction is expected, a tag is refused exactly if it is in neither table. -/
theorem unknownInstruction_iff (n : Nat) (htag : Json.HasTag members tag) (place : Place) :
    (LoadCause.unknownInstruction tag).at place ∈ ((nodeLoader (n + 1)).stmt (.object members) place (.empty none)).2.errors ↔
      tag ∉ StmtTag.texts ∧ tag ∉ ExprTag.texts := by
  have hall := Load.Notes.closed_atOrBelow.loader n
  show _ ∈ ((nodeLoader n).nextStmt (.object members) place (.empty none)).2.errors ↔ _
  rw [StmtTag.mem_texts_iff, ExprTag.mem_texts_iff, nextStmt, tagged_of_hasTag htag]
  cases hknown : StmtTag.ofText? tag with
  | some known =>
    have hnotes := notes_node members fun span => Load.Notes.stmtForm members span hall known
    simpa using hnotes.not_mem_errors place (.inl rfl)
  | none =>
    cases hexpr : ExprTag.ofText? tag with
    | some known =>
      have hnotes := notes_node members fun span => Load.Notes.exprForm members span hall known
      rw [← nextExpr_of_known htag hexpr] at hnotes
      simpa using (Load.Notes.map (fun e => Stmt.expr e.span e) hnotes).not_mem_errors place (.inl rfl)
    | none => simp [Load.fail, Load.note, ErrorLog.push, ErrorLog.empty, ErrorLog.isFull, LoadCause.at]

end NodeLoader

/-! ## The tables agree -/

/-- The tag of the compound assignment with an operator, which only operators of arithmetic have. -/
def BinOp.compoundTag? (op : BinOp) : Option String :=
  op.arith?.map ArithOp.compoundTag

/-- The text of an instruction's tag, where a text stands in for the tag of a compound assignment that has none. -/
def Stmt.tagOr (other : String) : Stmt Unit → String
  | .compound _ op _ _ => (BinOp.compoundTag? (.arith op)).getD other
  | s => s.tag

/-- Every operator of a compound assignment is one of arithmetic, so the other text is never needed. -/
theorem Stmt.tagOr_eq (other : String) (s : Stmt Unit) : s.tagOr other = s.tag := by
  cases s <;> rfl

/-- All tables of tags agree. A node of a loaded program comes from the part of the document at the same path, at any depth, and
no node is left out; the part is an object if the node is an instruction, and an object has the tag of the node. A loader that
looks a tag up in the list of all tags and then goes by its text does the same as one that goes by the tag, whatever it does with a
listed tag that it does not know, so it meets none; the same goes for the text that stands in for a missing tag. The tables that
lead from tags to conversions, operators and compound assignments, over all texts, go the other way of those that lead from them to
tags. And a tag is refused exactly if it is in neither list where an instruction is expected, or not in the list of expressions
where an expression is. -/
theorem tags_agree :
    (∀ (doc : Json) (program : Program), Program.ofJson doc = .ok program →
      (∀ s ∈ program, ∀ x, (Node.stmt s).Contains x → ∃ path, program.HasAt path x) ∧
      ∀ path x, program.HasAt path x → ∃ part, doc.Origin path x part) ∧
    (∀ arms n, nodeLoaderByText arms n = nodeLoader n) ∧
    (∀ tag goal, Conversion.ofTag? tag = some goal ↔ goal.tag = tag) ∧
    (∀ tag op, BinOp.ofTag? tag = some op ↔ op.tag = tag) ∧
    (∀ tag op, ArithOp.ofCompoundTag? tag = some op ↔ op.compoundTag = tag) ∧
    (∀ other (s : Stmt Unit), s.tagOr other = s.tag) ∧
    ∀ (n : Nat) (members : List (String × Json)) (tag : String) (place : Place), Json.HasTag members tag →
      ((LoadCause.unknownInstruction tag).at place ∈
          ((nodeLoader (n + 1)).stmt (.object members) place (.empty none)).2.errors ↔
        tag ∉ StmtTag.texts ∧ tag ∉ ExprTag.texts) ∧
      ((LoadCause.unknownExpression tag).at place ∈
          ((nodeLoader (n + 1)).expr (.object members) place (.empty none)).2.errors ↔
        tag ∉ ExprTag.texts) := by
  refine ⟨?_, nodeLoaderByText_eq, ?_, ?_, ?_, Stmt.tagOr_eq, ?_⟩
  · intro doc program h
    refine ⟨?_, ?_⟩
    · intro s hs x hx
      exact program.exists_hasAt hs hx
    · intro path x hx
      exact Program.exists_origin h hx
  · intro tag goal
    exact Conversion.ofTag?_eq_some_iff
  · intro tag op
    exact BinOp.ofTag?_eq_some_iff
  · intro tag op
    exact ArithOp.ofCompoundTag?_eq_some_iff
  · intro n members tag place htag
    exact ⟨NodeLoader.unknownInstruction_iff n htag place, NodeLoader.unknownExpression_iff n htag place⟩

/-- A compound assignment with a variable in it. -/
def subtractingDoc : Json :=
  .array [.object [("type", .string "subset"), ("target", .object [("type", .string "getvar"), ("name", .string "x")]),
    ("value", .int 1)]]

/-- The program of the document. -/
def subtracting : Program :=
  [.compound none .sub (.getVar none "x") (.literal none (.int 1))]

/-- The variable in a compound assignment comes from the target of the document's only instruction. -/
theorem subtracting_tags_agree :
    Program.ofJson subtractingDoc = .ok subtracting ∧
    subtracting.HasAt [.index 0, .key "target"] (.expr (.getVar none "x")) ∧
    ∃ part, subtractingDoc.Origin [.index 0, .key "target"] (.expr (.getVar none "x")) part := by
  have hload : Program.ofJson subtractingDoc = .ok subtracting := (Program.ofJson_eq_ok_iff _ _).mpr rfl
  have hat : subtracting.HasAt [.index 0, .key "target"] (.expr (.getVar none "x")) := by
    refine ⟨0, _, [.key "target"], rfl, rfl, ?_⟩
    show Node.At _ ([.key "target"] ++ []) _
    exact .inside (.head _) (.self _)
  exact ⟨hload, hat, (tags_agree.1 _ _ hload).2 _ _ hat⟩

end NodeScript
