import NodeScript.Proofs.Load.Exact

/-!
# Where errors are noted

The parts of a document stand in roles, and what a part holds stands in roles again (`Json.Part`). A trail goes from the document
to a part of it and passes nodes on the way, which are the objects in the place of an expression, an instruction or a case
(`Json.Trail`). Every error of a load is noted at the end of a trail (`Json.Noted`): its path is the text of the trail's path, and
its position is that of the innermost node on the trail that has one. Errors about the tag or the column of a node are the
exception: they are noted before the node's own position counts.
-/

namespace NodeScript

/-- The role of the items of an array in a role. -/
def Role.item? : Role → Option Role
  | .block => some .stmt
  | .params => some .text
  | .exprs => some .expr
  | .cases => some .case
  | _ => none

/-- Causes that are reported at the position around a node, even if the node has one of its own. -/
def LoadCause.atEnclosing : LoadCause → Bool
  | .tagNotString _ | .tagMissing | .unknownInstruction _ | .unknownExpression _ | .columnNotNumber => true
  | _ => false

namespace Json

/-! ## Parts and trails -/

/-- The fields that an object has by its role and its tag. -/
def ownFields (role : Role) (members : List (String × Json)) : List FieldRule :=
  let tag := (member? "type" members).bind string?
  let exprFields := ((tag.bind ExprTag.ofText?).map ExprTag.fields).getD []
  match role with
  | .expr => exprFields
  | .stmt => ((tag.bind StmtTag.ofText?).map StmtTag.fields).getD exprFields
  | .case => FieldRule.case
  | _ => []

/-- One step further into a document, with the roles before and after it. -/
inductive Part : Role → Json → Segment → Role → Json → Prop where
  | item {role role' : Role} {items : List Json} {i : Nat} {item : Json} (hrole : role.item? = some role')
      (hitem : items[i]? = some item) : Part role (.array items) (.index i) role' item
  | named {members : List (String × Json)} {name : String} {value : Json} (hmem : (name, value) ∈ members) :
      Part .named (.object members) (.key name) .expr value
  | field {role : Role} {members : List (String × Json)} {rule : FieldRule} {value : Json} (hrule : rule ∈ ownFields role members)
      (hvalue : member? rule.name members = some value) : Part role (.object members) (.key rule.name) rule.role value

/-- The node that a part is: an object in the place of an expression, an instruction or a case. -/
def node? : Role → Json → Option (List (String × Json))
  | .expr, .object members | .stmt, .object members | .case, .object members => some members
  | _, _ => none

/-- The way from a document to one of its parts, and the nodes above the part, the outermost first. -/
inductive Trail (root : Json) : Path → Role → Json → List (List (String × Json)) → Prop where
  | root : Trail root [] .block root []
  | step {path : Path} {role role' : Role} {part part' : Json} {segment : Segment} {nodes : List (List (String × Json))}
      (above : Trail root path role part nodes) (next : Part role part segment role' part') :
      Trail root (path ++ [segment]) role' part' (nodes ++ (node? role part).toList)

/-- The position of the innermost node that has one. -/
def innermost (nodes : List (List (String × Json))) : Option Span :=
  nodes.reverse.findSome? position?

/-- An error at the end of a trail: where it is, and which nodes it has its position from. -/
def Noted (root : Json) (e : LoadError) : Prop :=
  ∃ (cause : LoadCause) (path : Path) (role : Role) (part : Json) (nodes : List (List (String × Json))),
    Trail root path role part nodes ∧ e = ⟨cause.code, cause.message, path.text,
      innermost (if cause.atEnclosing then nodes else nodes ++ (node? role part).toList)⟩

section

variable {members : List (String × Json)} {tag : String}

/-- Further nodes come first: the innermost position is theirs, if they have one. -/
theorem innermost_append (nodes more : List (List (String × Json))) :
    innermost (nodes ++ more) = (innermost more).or (innermost nodes) := by
  rw [innermost, List.reverse_append, List.findSome?_append]
  rfl

/-- A part has a position if it is a node that has one. -/
theorem innermost_node? (role : Role) (part : Json) : innermost (node? role part).toList = (node? role part).bind position? := by
  cases h : node? role part with
  | none => rfl
  | some members => simp [innermost]

/-- The fields of an expression are those of its tag. -/
theorem ownFields_expr {known : ExprTag} (htag : HasTag members tag) (hknown : ExprTag.ofText? tag = some known) :
    ownFields .expr members = known.fields := by
  have htype : member? "type" members = some (.string tag) := htag
  simp [ownFields, htype, string?, hknown]

/-- The fields of an instruction are those of its tag. -/
theorem ownFields_stmt {known : StmtTag} (htag : HasTag members tag) (hknown : StmtTag.ofText? tag = some known) :
    ownFields .stmt members = known.fields := by
  have htype : member? "type" members = some (.string tag) := htag
  simp [ownFields, htype, string?, hknown]

/-- The fields of an expression that stands for an instruction are those of its tag. -/
theorem ownFields_exprStmt {known : ExprTag} (htag : HasTag members tag) (hstmt : StmtTag.ofText? tag = none)
    (hknown : ExprTag.ofText? tag = some known) : ownFields .stmt members = known.fields := by
  have htype : member? "type" members = some (.string tag) := htag
  simp [ownFields, htype, string?, hstmt, hknown]

end

end Json

/-! ## Places on a trail -/

/-- A place is that of a part: it has the path of a trail to it, and the position of the innermost node above the part. -/
def Place.At (root : Json) (role : Role) (part : Json) (place : Place) : Prop :=
  ∃ nodes, Json.Trail root place.path role part nodes ∧ place.span = Json.innermost nodes

/-- A place is inside a node: it has the node's path, and the position of the innermost node there, the node itself counted. -/
def Place.Inside (root : Json) (role : Role) (members : List (String × Json)) (place : Place) : Prop :=
  ∃ nodes, Json.Trail root place.path role (.object members) nodes ∧ Json.node? role (.object members) = some members ∧
    place.span = Json.innermost (nodes ++ [members])

namespace Place

open Json

variable {root : Json} {role : Role} {place : Place} {members : List (String × Json)}

/-- An error at a part that is about its tag or its column, or where the part has no position, has the position from above. -/
theorem At.noted {part : Json} (h : place.At root role part) {cause : LoadCause}
    (hcause : cause.atEnclosing = true ∨ (node? role part).bind position? = none) :
    Noted root ⟨cause.code, cause.message, place.path.text, place.span⟩ := by
  obtain ⟨nodes, htrail, hspan⟩ := h
  refine ⟨cause, place.path, role, part, nodes, htrail, ?_⟩
  rw [hspan]
  split
  · rfl
  · rename_i hlate
    have hnone : (node? role part).bind position? = none := hcause.resolve_left hlate
    rw [innermost_append, innermost_node?, hnone, Option.none_or]

/-- An error inside a node that is not about its tag or its column has the node's position, if it has one. -/
theorem Inside.noted (h : place.Inside root role members) {cause : LoadCause} (hcause : cause.atEnclosing = false) :
    Noted root ⟨cause.code, cause.message, place.path.text, place.span⟩ := by
  obtain ⟨nodes, htrail, hnode, hspan⟩ := h
  refine ⟨cause, place.path, role, .object members, nodes, htrail, ?_⟩
  rw [hcause, hnode, hspan]
  rfl

/-- Below a node its position counts. -/
theorem At.enter (h : place.At root role (.object members)) (hnode : node? role (.object members) = some members) :
    Inside root role members { place with span := (position? members).or place.span } := by
  obtain ⟨nodes, htrail, hspan⟩ := h
  refine ⟨nodes, htrail, hnode, ?_⟩
  rw [innermost_append, hspan]
  simp [innermost]

/-- From a node to one of its fields. -/
theorem Inside.field (h : place.Inside root role members) {rule : FieldRule} {value : Json}
    (hrule : rule ∈ ownFields role members) (hvalue : member? rule.name members = some value) :
    At root rule.role value { place with path := place.path ++ [.key rule.name] } := by
  obtain ⟨nodes, htrail, hnode, hspan⟩ := h
  have hstep := htrail.step (.field hrule hvalue)
  rw [hnode] at hstep
  exact ⟨_, hstep, hspan⟩

/-- From an array to one of its items. -/
theorem At.item {items : List Json} (h : place.At root role (.array items)) {role' : Role} (hrole : role.item? = some role')
    {i : Nat} {item : Json} (hitem : items[i]? = some item) :
    At root role' item { place with path := place.path ++ [.index i] } := by
  obtain ⟨nodes, htrail, hspan⟩ := h
  have hnode : node? role (.array items) = none := by
    cases role <;> rfl
  have hstep := htrail.step (.item hrole hitem)
  rw [hnode] at hstep
  exact ⟨_, hstep, by simpa using hspan⟩

/-- From arguments by name to one of them. -/
theorem At.named (h : place.At root .named (.object members)) {m : String × Json} (hmem : m ∈ members) :
    At root .expr m.2 { place with path := place.path ++ [.key m.1] } := by
  obtain ⟨nodes, htrail, hspan⟩ := h
  exact ⟨_, htrail.step (.named hmem), by simpa [node?] using hspan⟩

end Place

/-! ## Loaders that note errors where they are -/

namespace Load

open Json

/-- All that a loader does to the log, at a place, is to push errors that are noted at the end of a trail. -/
def Truthful {α : Type} (root : Json) (place : Place) (x : Load α) : Prop :=
  ∀ log, ∃ es, (x place log).2 = log.pushAll es ∧ ∀ e ∈ es, Noted root e

namespace Truthful

variable {α β : Type} {root : Json} {place : Place}

theorem pure (a : α) : Truthful root place (Pure.pure a) :=
  fun _ => ⟨[], rfl, nofun⟩

theorem note {cause : LoadCause} (h : Noted root ⟨cause.code, cause.message, place.path.text, place.span⟩) :
    Truthful root place (note cause) :=
  fun _ => ⟨[_], rfl, List.forall_mem_singleton.mpr h⟩

theorem fail {cause : LoadCause} (h : Noted root ⟨cause.code, cause.message, place.path.text, place.span⟩) :
    Truthful root place (fail cause : Load α) :=
  fun _ => ⟨[_], rfl, List.forall_mem_singleton.mpr h⟩

theorem map (f : α → β) {x : Load α} (hx : Truthful root place x) : Truthful root place (f <$> x) :=
  hx

/-- Two loaders side by side push their errors one after the other. -/
theorem seq {f : Load (α → β)} {x : Load α} (hf : Truthful root place f) (hx : Truthful root place x) :
    Truthful root place (f <*> x) := by
  intro log
  exact ErrorLog.pushAll_trans (hf log) (hx (f place log).2)

theorem within {segment : Segment} {x : Load α} (hx : Truthful root { place with path := place.path ++ [segment] } x) :
    Truthful root place (within segment x) :=
  hx

/-- Items are loaded at their indexes, counted from the first one on. -/
theorem items {x : Json → Load α} {docs : List Json} {i : Nat}
    (h : ∀ j doc, docs[j]? = some doc → Truthful root { place with path := place.path ++ [.index (i + j)] } (x doc)) :
    Truthful root place (items x i docs) := by
  induction docs generalizing i with
  | nil => exact pure []
  | cons doc rest ih =>
    refine seq (map _ (within (h 0 doc rfl))) (ih fun j item hitem => ?_)
    have hnext := h (j + 1) item hitem
    rwa [← Nat.add_assoc, Nat.add_right_comm] at hnext

/-- Members are loaded at their names. -/
theorem named {x : Json → Load α} {members : List (String × Json)}
    (h : ∀ m ∈ members, Truthful root { place with path := place.path ++ [.key m.1] } (x m.2)) :
    Truthful root place (named x members) := by
  induction members with
  | nil => exact pure []
  | cons m rest ih => exact seq (map _ (within (h m (.head _)))) (ih fun m hm => h m (.tail _ hm))

/-- Instructions are loaded at their indexes; what is left out has its errors noted before. -/
theorem stmts {r : NodeLoader} {docs : List Json} {i : Nat}
    (h : ∀ j doc, docs[j]? = some doc → Truthful root { place with path := place.path ++ [.index (i + j)] } (r.stmt doc)) :
    Truthful root place (r.stmts i docs) := by
  intro log
  induction docs generalizing i log with
  | nil => exact ⟨[], rfl, nofun⟩
  | cons doc rest ih =>
    rw [NodeLoader.stmts]
    split
    · exact ⟨[], rfl, nofun⟩
    · have hrest (j : Nat) (item : Json) (hitem : rest[j]? = some item) :
          Truthful root { place with path := place.path ++ [.index (i + 1 + j)] } (r.stmt item) := by
        have hnext := h (j + 1) item hitem
        rwa [← Nat.add_assoc, Nat.add_right_comm] at hnext
      exact ErrorLog.pushAll_trans (h 0 doc rfl log) (ih hrest (Load.within (.index i) (r.stmt doc) place log).2)

/-! ### Nodes and their fields -/

section

variable {role : Role} {members : List (String × Json)} {n : Nat}

/-- The errors of a position. A bad line leaves the node without one, so the position around it is the right one; a bad column
does not, and is reported there all the same. -/
theorem span (h : place.At root role (.object members)) (hnode : node? role (.object members) = some members) :
    Truthful root place (span members) := by
  refine span_induction pure map (fun hnone => note (h.noted (.inr ?_))) (note (h.noted (.inl rfl)))
  rw [hnode]
  exact hnone

/-- A node is loaded inside itself, below its own position. -/
theorem node {x : Option Span → Load α} (h : place.At root role (.object members))
    (hnode : node? role (.object members) = some members)
    (hx : ∀ place, place.Inside root role members → Truthful root place (x (position? members))) :
    Truthful root place (node members x) := by
  intro log
  rw [node_apply]
  exact ErrorLog.pushAll_trans (span h hnode log) (hx _ (h.enter hnode) (Load.span members place log).2)

/-- A field that has to be there, read by a loader for its role. -/
theorem field (h : place.Inside root role members) (hd : (Json.object members).depth ≤ n) (rule : FieldRule) {tag : String}
    {x : Json → Load α} (hrule : rule ∈ ownFields role members)
    (hx : ∀ value place, value.depth < n → place.At root rule.role value → Truthful root place (x value)) :
    Truthful root place (Load.field tag rule.name x members) := by
  unfold Load.field
  split
  · exact fail (h.noted rfl)
  · rename_i value hvalue
    exact within (hx value _ (Nat.lt_of_lt_of_le (depth_lt_of_member? hvalue) hd) (h.field hrule hvalue))

/-- A field that may be missing. -/
theorem field? (h : place.Inside root role members) (hd : (Json.object members).depth ≤ n) (rule : FieldRule)
    {x : Json → Load α} (hrule : rule ∈ ownFields role members)
    (hx : ∀ value place, value.depth < n → place.At root rule.role value → Truthful root place (x value)) :
    Truthful root place (Load.field? rule.name x members) := by
  unfold Load.field?
  split
  · exact pure none
  · rename_i value hvalue
    exact (within (hx value _ (Nat.lt_of_lt_of_le (depth_lt_of_member? hvalue) hd) (h.field hrule hvalue))).map _

/-- A document that is no text is noted at its place. -/
theorem text (name : String) {doc : Json} (h : place.At root .text doc) : Truthful root place (Load.text name doc) := by
  cases doc with
  | string s => exact pure s
  | _ => exact fail (h.noted (.inr rfl))

/-- Parameters that are no texts are noted at the place of their array. -/
theorem params {doc : Json} (h : place.At root .params doc) : Truthful root place (NodeLoader.params doc) := by
  cases doc with
  | array docs =>
    simp only [NodeLoader.params]
    split
    · exact pure _
    · exact fail (h.noted (.inr rfl))
  | _ => exact fail (h.noted (.inr rfl))

end

end Truthful

/-! ### One level more -/

/-- A loader of nodes that notes errors where they are, in documents that are nested less than `n` deep. -/
structure TruthfulBelow (root : Json) (n : Nat) (r : NodeLoader) : Prop where
  expr : ∀ doc place, doc.depth < n → place.At root .expr doc → Truthful root place (r.expr doc)
  stmt : ∀ doc place, doc.depth < n → place.At root .stmt doc → Truthful root place (r.stmt doc)

namespace TruthfulBelow

variable {root : Json} {n : Nat} {r : NodeLoader} {place : Place} {role : Role} {members : List (String × Json)}

/-- The instructions of a block, at their indexes. -/
theorem stmts (h : TruthfulBelow root n r) {items : List Json} (hd : (Json.array items).depth ≤ n)
    (hat : place.At root .block (.array items)) : Truthful root place (r.stmts 0 items) := by
  refine .stmts fun i item hitem => ?_
  rw [Nat.zero_add]
  exact h.stmt item _ (Nat.lt_of_lt_of_le (depth_lt_of_mem (List.mem_of_getElem? hitem)) hd) (hat.item rfl hitem)

/-- A block, or the error that it is none. -/
theorem block (h : TruthfulBelow root n r) (doc : Json) (place : Place) (hd : doc.depth < n) (hat : place.At root .block doc) :
    Truthful root place (r.block doc) := by
  cases doc with
  | array items => exact h.stmts (Nat.le_of_lt hd) hat
  | _ => exact .fail (hat.noted (.inr rfl))

/-- An array of expressions, or the error that it is none. -/
theorem exprs (h : TruthfulBelow root n r) (name : String) (doc : Json) (place : Place) (hd : doc.depth < n)
    (hat : place.At root .exprs doc) : Truthful root place (array name r.expr doc) := by
  cases doc with
  | array items =>
    refine .items fun i item hitem => ?_
    rw [Nat.zero_add]
    exact h.expr item _ (Nat.lt_trans (depth_lt_of_mem (List.mem_of_getElem? hitem)) hd) (hat.item rfl hitem)
  | _ => exact .fail (hat.noted (.inr rfl))

/-- The arguments that are given by name, or the error that they are no object. -/
theorem named (h : TruthfulBelow root n r) (name : String) (doc : Json) (place : Place) (hd : doc.depth < n)
    (hat : place.At root .named doc) : Truthful root place (object name r.expr doc) := by
  cases doc with
  | object members =>
    exact .named fun m hmem => h.expr m.2 _ (Nat.lt_trans (depth_lt_of_mem_members hmem) hd) (hat.named hmem)
  | _ => exact .fail (hat.noted (.inr rfl))

/-- A case of a switch, which is a node without a tag. -/
theorem switchCase (h : TruthfulBelow root n r) (doc : Json) (place : Place) (hd : doc.depth ≤ n) (hat : place.At root .case doc) :
    Truthful root place (r.switchCase doc) := by
  cases doc with
  | object members =>
    refine .node hat rfl fun place hin => ?_
    exact .seq (.map _ (.field hin hd (.must "cond" .expr) (.head _) h.expr))
      (.field hin hd (.must "code" .block) (.tail _ (.head _)) h.block)
  | _ => exact .fail (hat.noted (.inr rfl))

/-- The cases of a switch, or the error that they are no array. -/
theorem cases (h : TruthfulBelow root n r) (name : String) (doc : Json) (place : Place) (hd : doc.depth < n)
    (hat : place.At root .cases doc) : Truthful root place (array name r.switchCase doc) := by
  cases doc with
  | array items =>
    refine .items fun i item hitem => ?_
    rw [Nat.zero_add]
    exact h.switchCase item _ (Nat.le_of_lt (Nat.lt_trans (depth_lt_of_mem (List.mem_of_getElem? hitem)) hd)) (hat.item rfl hitem)
  | _ => exact .fail (hat.noted (.inr rfl))

/-- The fields of an expression node, tag by tag. -/
theorem exprForm (h : TruthfulBelow root n r) (hd : (Json.object members).depth ≤ n) (hin : place.Inside root role members)
    {tag : ExprTag} (hown : ownFields role members = tag.fields) (span : Option Span) :
    Truthful root place (r.exprForm members tag span) := by
  have expr (name : String) (hrule : .must name .expr ∈ tag.fields) :
      Truthful root place (field tag.text name r.expr members) :=
    .field hin hd (.must name .expr) (hown ▸ hrule) h.expr
  have exprs (name : String) (hrule : .may name .exprs ∈ tag.fields) :
      Truthful root place (arrayField name r.expr members) :=
    .map _ (.field? hin hd (.may name .exprs) (hown ▸ hrule) (h.exprs name))
  cases tag with
  | convert goal => exact .map _ (expr _ (.head _))
  | binary op => exact .seq (.map _ (expr _ (.head _))) (expr _ (.tail _ (.head _)))
  | not => exact .map _ (expr _ (.head _))
  | len => exact .map _ (expr _ (.head _))
  | typeOf => exact .map _ (expr _ (.head _))
  | getVar => exact .map _ (.field hin hd (.must "name" .text) (hown ▸ .head _) fun value place _ hat => .text _ hat)
  | list => exact .map _ (exprs _ (.head _))
  | range => exact .seq (.map _ (expr _ (.head _))) (expr _ (.tail _ (.head _)))
  | subscript => exact .seq (.map _ (expr _ (.head _))) (expr _ (.tail _ (.head _)))
  | join => exact .seq (.map _ (expr _ (.head _))) (expr _ (.tail _ (.head _)))
  | input => exact .map _ (.field? hin hd (.may "prompt" .expr) (hown ▸ .head _) h.expr)
  | func =>
    exact .seq (.map _ (.field hin hd (.must "args" .params) (hown ▸ .head _) fun value place _ hat => .params hat))
      (.field hin hd (.must "code" .block) (hown ▸ .tail _ (.head _)) h.block)
  | call =>
    exact .seq (.seq (.map _ (expr _ (.head _))) (exprs _ (.tail _ (.head _))))
      (.field? hin hd (.may "kwargs" .named) (hown ▸ .tail _ (.tail _ (.head _))) (h.named _))

/-- The fields of an instruction node, tag by tag. -/
theorem stmtForm (h : TruthfulBelow root n r) (hd : (Json.object members).depth ≤ n) (hin : place.Inside root role members)
    {tag : StmtTag} (hown : ownFields role members = tag.fields) (span : Option Span) :
    Truthful root place (r.stmtForm members tag span) := by
  have expr (name : String) (hrule : .must name .expr ∈ tag.fields) :
      Truthful root place (field tag.text name r.expr members) :=
    .field hin hd (.must name .expr) (hown ▸ hrule) h.expr
  have code (name : String) (hrule : .must name .block ∈ tag.fields) :
      Truthful root place (field tag.text name r.block members) :=
    .field hin hd (.must name .block) (hown ▸ hrule) h.block
  have name (name : String) (hrule : .must name .text ∈ tag.fields) :
      Truthful root place (field tag.text name (text name) members) :=
    .field hin hd (.must name .text) (hown ▸ hrule) fun value place _ hat => .text _ hat
  have code? (name : String) (hrule : .may name .block ∈ tag.fields) :
      Truthful root place (field? name r.block members) :=
    .field? hin hd (.may name .block) (hown ▸ hrule) h.block
  cases tag with
  | setVar => exact .seq (.map _ (name _ (.head _))) (expr _ (.tail _ (.head _)))
  | compound op => exact .seq (.map _ (expr _ (.head _))) (expr _ (.tail _ (.head _)))
  | append => exact .seq (.map _ (expr _ (.head _))) (expr _ (.tail _ (.head _)))
  | insert =>
    exact .seq (.seq (.map _ (expr _ (.head _))) (expr _ (.tail _ (.head _)))) (expr _ (.tail _ (.tail _ (.head _))))
  | remove => exact .seq (.map _ (expr _ (.head _))) (expr _ (.tail _ (.head _)))
  | print => exact .map _ (expr _ (.head _))
  | cond =>
    exact .seq (.seq (.map _ (expr _ (.head _))) (code _ (.tail _ (.head _)))) (code? _ (.tail _ (.tail _ (.head _))))
  | switch =>
    unfold NodeLoader.stmtForm
    dsimp only
    split
    · exact .fail (hin.noted rfl)
    · rename_i cases hcases
      have hat := hin.field (hown ▸ .head _ : FieldRule.must "cases" .cases ∈ ownFields role members) hcases
      have hdepth := Nat.lt_of_lt_of_le (depth_lt_of_member? hcases) hd
      exact .seq (.map _ (.within (h.cases _ cases _ hdepth hat))) (code? _ (.tail _ (.head _)))
  | loop =>
    exact .seq (.seq (.map _ (name _ (.head _))) (expr _ (.tail _ (.head _)))) (code _ (.tail _ (.tail _ (.head _))))
  | ret => exact .map _ (.field? hin hd (.may "value" .expr) (hown ▸ .head _) h.expr)

/-- The errors of a tag are noted at the node, before its position counts. -/
theorem tagged {α : Type} {x : List (String × Json) → String → Load α} {doc : Json} (hat : place.At root role doc)
    (hx : ∀ members tag, doc = .object members → HasTag members tag → Truthful root place (x members tag)) :
    Truthful root place (NodeLoader.tagged doc x) := by
  cases doc with
  | object members =>
    simp only [NodeLoader.tagged]
    split
    · rename_i tag htag
      exact hx members tag rfl htag
    · exact .fail (hat.noted (.inl rfl))
    · exact .fail (hat.noted (.inl rfl))
  | _ =>
    refine .fail (hat.noted (.inr ?_))
    cases role <;> rfl

/-- An expression of one level more: literals have no errors, and a node notes them inside itself. -/
theorem nextExpr (h : TruthfulBelow root n r) (doc : Json) (hd : doc.depth ≤ n) (hat : place.At root .expr doc) :
    Truthful root place (r.nextExpr doc) := by
  cases doc with
  | bool | string | float => exact .pure _
  | int k =>
    simp only [NodeLoader.nextExpr]
    split
    · exact .pure _
    · exact .fail (hat.noted (.inr rfl))
  | null | array => exact .fail (hat.noted (.inr rfl))
  | object members =>
    unfold NodeLoader.nextExpr
    refine tagged hat fun members tag hdoc htag => ?_
    cases hdoc
    split
    · rename_i known hknown
      exact .node hat rfl fun place hin => h.exprForm hd hin (ownFields_expr htag hknown) _
    · exact .fail (hat.noted (.inl rfl))

/-- An expression node where an instruction is expected is read as one, with the same fields. -/
theorem nextExpr_stmt (h : TruthfulBelow root n r) (hd : (Json.object members).depth ≤ n)
    (hat : place.At root .stmt (.object members)) {tag : String} (htag : HasTag members tag) (hstmt : StmtTag.ofText? tag = none)
    {known : ExprTag} (hknown : ExprTag.ofText? tag = some known) : Truthful root place (r.nextExpr (.object members)) := by
  unfold NodeLoader.nextExpr
  refine tagged hat fun members' tag' hdoc htag' => ?_
  cases hdoc
  have heq : tag' = tag := by
    have := htag'.symm.trans htag
    simpa using this
  rw [heq, hknown]
  exact .node hat rfl fun place hin => h.exprForm hd hin (ownFields_exprStmt htag hstmt hknown) _

/-- An instruction of one level more: a node of either kind notes its errors inside itself. -/
theorem nextStmt (h : TruthfulBelow root n r) (doc : Json) (hd : doc.depth ≤ n) (hat : place.At root .stmt doc) :
    Truthful root place (r.nextStmt doc) := by
  refine tagged hat fun members tag hdoc htag => ?_
  cases hdoc
  split
  · rename_i known hknown
    exact .node hat rfl fun place hin => h.stmtForm hd hin (ownFields_stmt htag hknown) _
  · rename_i hstmt
    split
    · rename_i hexpr
      obtain ⟨known, hknown⟩ := Option.isSome_iff_exists.mp hexpr
      exact (h.nextExpr_stmt hd hat htag hstmt hknown).map _
    · exact .fail (hat.noted (.inl rfl))

/-- The loader of each level notes errors where they are, in documents that are nested less deep. -/
theorem loader (root : Json) (n : Nat) : TruthfulBelow root n (nodeLoader n) := by
  induction n with
  | zero => exact ⟨nofun, nofun⟩
  | succ n ih =>
    exact ⟨fun doc place hd hat => ih.nextExpr doc (Nat.le_of_lt_succ hd) hat,
      fun doc place hd hat => ih.nextStmt doc (Nat.le_of_lt_succ hd) hat⟩

end TruthfulBelow

end Load

/-- Every error that a load keeps is noted at the end of a trail through the document. -/
theorem Program.noted_of_mem_errors (capacity : Option Nat) (doc : Json) {e : LoadError}
    (he : e ∈ (loadWith capacity doc).log.errors) : doc.Noted e := by
  have hat : Place.At doc .block doc ⟨[], none⟩ := ⟨[], .root, rfl⟩
  have hlog : ∃ es, (loadWith capacity doc).log = (ErrorLog.empty capacity).pushAll es ∧ ∀ e ∈ es, doc.Noted e := by
    cases doc with
    | array items => exact (Load.TruthfulBelow.loader _ _).stmts (Nat.le_refl _) hat (.empty capacity)
    | _ => exact ⟨[_], rfl, List.forall_mem_singleton.mpr (hat.noted (.inr rfl))⟩
  obtain ⟨es, hlog, hes⟩ := hlog
  rw [hlog] at he
  exact hes e ((ErrorLog.mem_of_mem_errors_pushAll he).resolve_left nofun)

/-- Where an error is. It has the path of a trail through the document and the position of the innermost node with one on that
trail; it has none exactly when no node there has one. The node at the end of the trail counts, except for errors about its tag or
its column. -/
theorem load_error_position (capacity : Option Nat) (doc : Json) (e : LoadError)
    (he : e ∈ (Program.loadWith capacity doc).log.errors) :
    ∃ (cause : LoadCause) (path : Path) (role : Role) (part : Json) (nodes seen : List (List (String × Json))),
      doc.Trail path role part nodes ∧ e.code = cause.code ∧ e.message = cause.message ∧ e.path = path.text ∧
      seen = (if cause.atEnclosing then nodes else nodes ++ (Json.node? role part).toList) ∧
      e.span = Json.innermost seen ∧ (e.span = none ↔ ∀ node ∈ seen, Json.position? node = none) := by
  obtain ⟨cause, path, role, part, nodes, htrail, rfl⟩ := Program.noted_of_mem_errors capacity doc he
  refine ⟨cause, path, role, part, nodes, _, htrail, rfl, rfl, rfl, rfl, rfl, ?_⟩
  simp only [Json.innermost, List.findSome?_eq_none_iff, List.mem_reverse]

/-- An instruction with a position around an expression that no one knows. -/
def unknownInside : Json :=
  .array [.object [("type", .string "print"), ("line", .int 3), ("column", .int 5), ("value", .object [("type", .string "nope")])]]

/-- The error is at the expression and has the position of the instruction. -/
theorem mem_errors_unknownInside :
    ⟨.unknownExpression, "unknown expression type 'nope'", "$[0].value", some ⟨3, 5⟩⟩ ∈
      (Program.loadWith (some ErrorLog.limit) unknownInside).log.errors := by
  decide +kernel

/-- The error inside the instruction has the instruction's position and a trail to the expression. -/
theorem load_error_position_unknownInside :
    ∃ e ∈ (Program.loadWith (some ErrorLog.limit) unknownInside).log.errors, e.span = some ⟨3, 5⟩ ∧
      ∃ path role part nodes, unknownInside.Trail path role part nodes ∧ e.path = path.text := by
  obtain ⟨_, path, role, part, nodes, _, htrail, -, -, hpath, -⟩ := load_error_position _ _ _ mem_errors_unknownInside
  exact ⟨_, mem_errors_unknownInside, rfl, path, role, part, nodes, htrail, hpath⟩

/-- An instruction that no one knows, with a line of its own. -/
def unknownWithLine : Json :=
  .array [.object [("type", .string "bogus"), ("line", .int 5)]]

/-- The node is on line 5, and its own error has no position. -/
theorem unknown_tag_loses_line :
    ∃ e ∈ (Program.loadWith (some ErrorLog.limit) unknownWithLine).log.errors, ∃ node,
      unknownWithLine.Trail [.index 0] .stmt (.object node) [] ∧ e.path = Path.text [.index 0] ∧
      Json.innermost [node] = some ⟨5, 1⟩ ∧ e.span = none := by
  refine ⟨⟨.unknownInstruction, "unknown instruction type 'bogus'", "$[0]", none⟩, by decide +kernel, _,
    .step .root (.item rfl rfl), by decide +kernel, rfl, rfl⟩

end NodeScript
