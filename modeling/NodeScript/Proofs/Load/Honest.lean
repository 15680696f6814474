import NodeScript.Load.Program

/-!
# Loaders that note what they refuse

A property of loaders that holds of the simplest ones and that the ways of putting loaders together keep holds of the loaders of
every level (`Load.Closed.loader`). Being honest is such a property: a loader that gives nothing has noted an error.
-/

namespace NodeScript

/-- A property of all loaders that read a node or a part of one, given what reads the nodes inside. -/
structure NodeLoader.All (P : {α : Type} → Load α → Prop) (r : NodeLoader) : Prop where
  expr : ∀ doc, P (r.expr doc)
  stmt : ∀ doc, P (r.stmt doc)
  block : ∀ doc, P (r.block doc)
  switchCase : ∀ doc, P (r.switchCase doc)
  params : ∀ doc, P (NodeLoader.params doc)
  exprs : ∀ name members, P (Load.arrayField name r.expr members)
  kwargs : ∀ members, P (Load.field? "kwargs" (Load.object "kwargs" r.expr) members)
  exprForm : ∀ members tag span, P (r.exprForm members tag span)
  stmtForm : ∀ members tag span, P (r.stmtForm members tag span)

namespace Load

/-- A property of loaders that the ways of putting them together keep. -/
structure Closed (P : {α : Type} → Load α → Prop) : Prop where
  pure : ∀ {α : Type} (a : α), P (Pure.pure a : Load α)
  fail : ∀ {α : Type} (cause : LoadCause), P (fail cause : Load α)
  map : ∀ {α β : Type} (f : α → β) {x : Load α}, P x → P (f <$> x)
  seq : ∀ {α β : Type} {f : Load (α → β)} {x : Load α}, P f → P x → P (f <*> x)
  within : ∀ {α : Type} (segment : Segment) {x : Load α}, P x → P (within segment x)
  node : ∀ {α : Type} (members : List (String × Json)) {x : Option Span → Load α}, (∀ span, P (x span)) → P (node members x)
  stmts : ∀ {r : NodeLoader}, (∀ doc, P (r.stmt doc)) → ∀ i items, P (r.stmts i items)

namespace Closed

variable {P : {α : Type} → Load α → Prop} {α : Type}

/-- The items of an array, side by side. -/
theorem items (h : Closed P) {x : Json → Load α} (hx : ∀ doc, P (x doc)) (i : Nat) (docs : List Json) : P (items x i docs) := by
  induction docs generalizing i with
  | nil => exact h.pure []
  | cons doc rest ih => exact h.seq (h.map _ (h.within _ (hx doc))) (ih (i + 1))

/-- The members of an object, side by side. -/
theorem named (h : Closed P) {x : Json → Load α} (hx : ∀ doc, P (x doc)) (members : List (String × Json)) :
    P (named x members) := by
  induction members with
  | nil => exact h.pure []
  | cons m rest ih => exact h.seq (h.map _ (h.within _ (hx m.2))) ih

/-- A field that has to be there, or the note that it is not. -/
theorem field (h : Closed P) {x : Json → Load α} (hx : ∀ doc, P (x doc)) (tag name : String) (members : List (String × Json)) :
    P (field tag name x members) := by
  unfold Load.field
  split
  · exact h.fail _
  · exact h.within _ (hx _)

/-- A field that may be missing. -/
theorem field? (h : Closed P) {x : Json → Load α} (hx : ∀ doc, P (x doc)) (name : String) (members : List (String × Json)) :
    P (field? name x members) := by
  unfold Load.field?
  split
  · exact h.pure none
  · exact h.map _ (h.within _ (hx _))

/-- A text, or the note that there is none. -/
theorem text (h : Closed P) (name : String) (doc : Json) : P (text name doc) := by
  cases doc with
  | string s => exact h.pure s
  | _ => exact h.fail _

/-- An array, or the note that there is none. -/
theorem array (h : Closed P) {x : Json → Load α} (hx : ∀ doc, P (x doc)) (name : String) (doc : Json) : P (array name x doc) := by
  cases doc with
  | array docs => exact h.items hx 0 docs
  | _ => exact h.fail _

/-- An object, or the note that there is none. -/
theorem object (h : Closed P) {x : Json → Load α} (hx : ∀ doc, P (x doc)) (name : String) (doc : Json) :
    P (object name x doc) := by
  cases doc with
  | object members => exact h.named hx members
  | _ => exact h.fail _

theorem arrayField (h : Closed P) {x : Json → Load α} (hx : ∀ doc, P (x doc)) (name : String) (members : List (String × Json)) :
    P (arrayField name x members) :=
  h.map _ (h.field? (h.array hx name) name members)

/-- The parameters of a function, or the note that they are no texts. -/
theorem params (h : Closed P) (doc : Json) : P (NodeLoader.params doc) := by
  cases doc with
  | array docs =>
    simp only [NodeLoader.params]
    split
    · exact h.pure _
    · exact h.fail _
  | _ => exact h.fail _

/-- A node whose tag has been read, or the note that it is no node. -/
theorem tagged (h : Closed P) {x : List (String × Json) → String → Load α} (hx : ∀ members tag, P (x members tag)) (doc : Json) :
    P (NodeLoader.tagged doc x) := by
  unfold NodeLoader.tagged
  split
  · split
    · exact hx _ _
    · exact h.fail _
    · exact h.fail _
  · exact h.fail _

/-! ## One level more -/

section

variable {r : NodeLoader}

/-- A block, if the instructions in it have the property. -/
theorem block (h : Closed P) (hstmt : ∀ doc, P (r.stmt doc)) (doc : Json) : P (r.block doc) := by
  cases doc with
  | array docs => exact h.stmts hstmt 0 docs
  | _ => exact h.fail _

/-- A case of a switch, with its condition and its block. -/
theorem switchCase (h : Closed P) (hexpr : ∀ doc, P (r.expr doc)) (hblock : ∀ doc, P (r.block doc)) (doc : Json) :
    P (r.switchCase doc) := by
  cases doc with
  | object members =>
    unfold NodeLoader.switchCase
    refine h.node members fun _ => ?_
    exact h.seq (h.map _ (h.field hexpr _ _ members)) (h.field hblock _ _ members)
  | _ => exact h.fail _

/-- All forms of expressions: each is some fields, side by side. -/
theorem exprForm (h : Closed P) (hexpr : ∀ doc, P (r.expr doc)) (hblock : ∀ doc, P (r.block doc))
    (members : List (String × Json)) (tag : ExprTag) (span : Option Span) : P (r.exprForm members tag span) := by
  have expr (name : String) := h.field hexpr tag.text name members
  cases tag with
  | convert goal => exact h.map _ (expr _)
  | binary op => exact h.seq (h.map _ (expr _)) (expr _)
  | not => exact h.map _ (expr _)
  | len => exact h.map _ (expr _)
  | typeOf => exact h.map _ (expr _)
  | getVar => exact h.map _ (h.field (h.text _) _ _ members)
  | list => exact h.map _ (h.arrayField hexpr _ members)
  | range => exact h.seq (h.map _ (expr _)) (expr _)
  | subscript => exact h.seq (h.map _ (expr _)) (expr _)
  | join => exact h.seq (h.map _ (expr _)) (expr _)
  | input => exact h.map _ (h.field? hexpr _ members)
  | func => exact h.seq (h.map _ (h.field h.params _ _ members)) (h.field hblock _ _ members)
  | call =>
    exact h.seq (h.seq (h.map _ (expr _)) (h.arrayField hexpr _ members)) (h.field? (h.object hexpr _) _ members)

/-- All forms of instructions: each is some fields, side by side. -/
theorem stmtForm (h : Closed P) (hexpr : ∀ doc, P (r.expr doc)) (hblock : ∀ doc, P (r.block doc))
    (hcase : ∀ doc, P (r.switchCase doc)) (members : List (String × Json)) (tag : StmtTag) (span : Option Span) :
    P (r.stmtForm members tag span) := by
  have expr (name : String) := h.field hexpr tag.text name members
  have code (name : String) := h.field hblock tag.text name members
  have name (name : String) := h.field (h.text name) tag.text name members
  cases tag with
  | setVar => exact h.seq (h.map _ (name _)) (expr _)
  | compound op => exact h.seq (h.map _ (expr _)) (expr _)
  | append => exact h.seq (h.map _ (expr _)) (expr _)
  | insert => exact h.seq (h.seq (h.map _ (expr _)) (expr _)) (expr _)
  | remove => exact h.seq (h.map _ (expr _)) (expr _)
  | print => exact h.map _ (expr _)
  | cond => exact h.seq (h.seq (h.map _ (expr _)) (code _)) (h.field? hblock _ members)
  | switch =>
    unfold NodeLoader.stmtForm
    dsimp only
    split
    · exact h.fail _
    · exact h.seq (h.map _ (h.within _ (h.array hcase _ _))) (h.field? hblock _ members)
  | loop => exact h.seq (h.seq (h.map _ (name _)) (expr _)) (code _)
  | ret => exact h.map _ (h.field? hexpr _ members)

/-- An expression of one level more: a literal, a node with a tag of the table, or a note. -/
theorem nextExpr (h : Closed P) (hexpr : ∀ doc, P (r.expr doc)) (hblock : ∀ doc, P (r.block doc)) (doc : Json) :
    P (r.nextExpr doc) := by
  cases doc with
  | bool | string | float => exact h.pure _
  | int n =>
    simp only [NodeLoader.nextExpr]
    split
    · exact h.pure _
    · exact h.fail _
  | object members =>
    unfold NodeLoader.nextExpr
    refine h.tagged (fun members tag => ?_) _
    split
    · exact h.node members (h.exprForm hexpr hblock members _)
    · exact h.fail _
  | null | array => exact h.fail _

/-- An instruction of one level more: a node with a tag of either table, or a note. -/
theorem nextStmt (h : Closed P) (hexpr : ∀ doc, P (r.expr doc)) (hblock : ∀ doc, P (r.block doc))
    (hcase : ∀ doc, P (r.switchCase doc)) (doc : Json) : P (r.nextStmt doc) := by
  refine h.tagged (fun members tag => ?_) doc
  split
  · exact h.node members (h.stmtForm hexpr hblock hcase members _)
  · split
    · exact h.map _ (h.nextExpr hexpr hblock doc)
    · exact h.fail _

/-- From the loaders of nodes to the loaders of their parts. -/
theorem all (h : Closed P) (hexpr : ∀ doc, P (r.expr doc)) (hstmt : ∀ doc, P (r.stmt doc)) : r.All P where
  expr := hexpr
  stmt := hstmt
  block := h.block hstmt
  switchCase := h.switchCase hexpr (h.block hstmt)
  params := h.params
  exprs := h.arrayField hexpr
  kwargs := h.field? (h.object hexpr _) _
  exprForm := h.exprForm hexpr (h.block hstmt)
  stmtForm := h.stmtForm hexpr (h.block hstmt) (h.switchCase hexpr (h.block hstmt))

end

/-- A property that the ways of putting loaders together keep holds of the loaders of every level. -/
theorem loader (h : Closed P) (n : Nat) : (nodeLoader n).All P := by
  induction n with
  | zero => exact h.all (fun _ => h.fail _) fun _ => h.fail _
  | succ n ih => exact h.all (h.nextExpr ih.expr ih.block) (h.nextStmt ih.expr ih.block ih.switchCase)

end Closed

end Load

/-! ## Logs -/

namespace ErrorLog

/-- The log after some errors more. -/
def pushAll (log : ErrorLog) (es : List LoadError) : ErrorLog :=
  es.foldl push log

theorem pushAll_append (log : ErrorLog) (es es' : List LoadError) : log.pushAll (es ++ es') = (log.pushAll es).pushAll es' :=
  List.foldl_append

/-- Each error that is pushed counts, whether it is kept or not. -/
theorem total_pushAll (log : ErrorLog) (es : List LoadError) : (log.pushAll es).total = log.total + es.length := by
  induction es generalizing log with
  | nil => rfl
  | cons e rest ih =>
    have := ih (log.push e)
    simp only [pushAll, List.foldl_cons, List.length_cons, push] at this ⊢
    omega

/-- A log that keeps any errors at all keeps one of those that are pushed. -/
theorem errors_pushAll_ne_nil {log : ErrorLog} {es : List LoadError} (hcapacity : log.capacity ≠ some 0)
    (h : log.errors ≠ [] ∨ es ≠ []) : (log.pushAll es).errors ≠ [] := by
  induction es generalizing log with
  | nil => simpa [pushAll] using h
  | cons e rest ih =>
    have hpush : (log.push e).errors ≠ [] := by
      unfold push
      dsimp only
      split
      · -- A full log has as many errors as it may keep, which is more than none.
        rename_i hfull
        intro hnil
        cases hc : log.capacity with
        | none => simp [isFull, hc] at hfull
        | some capacity =>
          simp [isFull, hc, hnil] at hfull
          exact hcapacity (by rw [hc, hfull])
      · simp
    show ((log.push e).pushAll rest).errors ≠ []
    exact ih hcapacity (.inl hpush)

/-- Errors of one kind are pushed, and then more of them. -/
theorem pushAll_trans {P : LoadError → Prop} {log log' log'' : ErrorLog} (h : ∃ es, log' = log.pushAll es ∧ ∀ e ∈ es, P e)
    (h' : ∃ es, log'' = log'.pushAll es ∧ ∀ e ∈ es, P e) : ∃ es, log'' = log.pushAll es ∧ ∀ e ∈ es, P e := by
  obtain ⟨es, rfl, hes⟩ := h
  obtain ⟨es', rfl, hes'⟩ := h'
  exact ⟨es ++ es', (pushAll_append log es es').symm, List.forall_mem_append.mpr ⟨hes, hes'⟩⟩

/-- Errors that are kept were pushed, or were there before. -/
theorem mem_of_mem_errors_pushAll {log : ErrorLog} {es : List LoadError} {e : LoadError} (h : e ∈ (log.pushAll es).errors) :
    e ∈ log.errors ∨ e ∈ es := by
  induction es generalizing log with
  | nil => exact .inl h
  | cons first rest ih =>
    rcases ih h with h | h
    · have hpush : e ∈ log.errors ∨ e = first := by
        simp only [push] at h
        split at h
        · exact .inl h
        · simpa using h
      exact hpush.imp_right (List.mem_cons.mpr <| .inl ·)
    · exact .inr (.tail _ h)

end ErrorLog

/-! ## Positions of nodes -/

/-- The position of a node: its line, with the first column if it has none that is a number. Without a line that is a number
there is no position. -/
def Json.position? (members : List (String × Json)) : Option Span :=
  ((member? "line" members).bind coordinate?).map fun line =>
    ⟨line, ((member? "column" members).bind coordinate?).getD 1⟩

namespace Load

variable {α : Type}

/-- The column that is loaded is the node's own, or the first one. -/
theorem column_fst (members : List (String × Json)) (place : Place) (log : ErrorLog) :
    (column members place log).1 = some (((Json.member? "column" members).bind Json.coordinate?).getD 1) := by
  unfold column
  cases Json.member? "column" members with
  | none => rfl
  | some value =>
    simp only [Option.bind_some]
    cases value.coordinate? <;> rfl

/-- The position that is loaded is the node's own, whatever the place and the log. -/
theorem span_fst (members : List (String × Json)) (place : Place) (log : ErrorLog) :
    (Load.span members place log).1 = some (Json.position? members) := by
  unfold Load.span Json.position?
  cases Json.member? "line" members with
  | none => rfl
  | some value =>
    simp only [Option.bind_some]
    cases value.coordinate? with
    | none => rfl
    | some line =>
      show (column members place log).1.map _ = _
      rw [column_fst]
      rfl

/-- A node is loaded below its own position, whatever the log. -/
theorem node_apply (members : List (String × Json)) (x : Option Span → Load α) (place : Place) (log : ErrorLog) :
    node members x place log =
      below (Json.position? members) (x (Json.position? members)) place (Load.span members place log).2 := by
  show below (Load.span members place log).1.join (x (Load.span members place log).1.join) place _ = _
  rw [span_fst]
  rfl

/-- What holds of loaders that give something, with or without a note about a line or a column, holds of the loader of a position.
The line is only noted if the node then has no position. -/
theorem span_induction {P : {α : Type} → Load α → Prop} {members : List (String × Json)}
    (hpure : ∀ {α : Type} (a : α), P (Pure.pure a : Load α)) (hmap : ∀ {α β : Type} (f : α → β) {x : Load α}, P x → P (f <$> x))
    (hline : Json.position? members = none → P (note .lineNotNumber)) (hcolumn : P (note .columnNotNumber)) :
    P (span members) := by
  have column : P (column members) := by
    unfold Load.column
    split
    · exact hpure 1
    · split
      · exact hpure _
      · exact hmap _ hcolumn
  unfold Load.span
  split
  · exact hpure none
  · rename_i value hvalue
    split
    · exact hmap _ column
    · rename_i hnumber
      exact hmap _ (hline (by simp [Json.position?, hvalue, hnumber]))

end Load

/-! ## Honest loaders -/

namespace Load

variable {α β : Type}

/-- All that happens to the log is that errors are pushed, and there is at least one of them when nothing is given. -/
def Honest (x : Load α) : Prop :=
  ∀ place log, ∃ es, (x place log).2 = log.pushAll es ∧ ((x place log).1 = none → es ≠ [])

namespace Honest

/-- Errors are counted and never taken back. -/
theorem total_le {x : Load α} (hx : Honest x) (place : Place) (log : ErrorLog) : log.total ≤ (x place log).2.total := by
  obtain ⟨es, hlog, -⟩ := hx place log
  rw [hlog, ErrorLog.total_pushAll]
  omega

theorem pure (a : α) : Honest (Pure.pure a) :=
  fun _ _ => ⟨[], rfl, nofun⟩

theorem fail (cause : LoadCause) : Honest (fail cause : Load α) :=
  fun _ _ => ⟨[_], rfl, fun _ => List.cons_ne_nil _ _⟩

theorem note (cause : LoadCause) : Honest (note cause) :=
  fun _ _ => ⟨[_], rfl, nofun⟩

/-- What is given may be changed. -/
theorem map (f : α → β) {x : Load α} (hx : Honest x) : Honest (f <$> x) := by
  intro place log
  obtain ⟨es, hlog, hnone⟩ := hx place log
  exact ⟨es, hlog, fun h => hnone (Option.map_eq_none_iff.mp h)⟩

/-- The errors of two loaders side by side are those of the first and then those of the second. -/
theorem seq {f : Load (α → β)} {x : Load α} (hf : Honest f) (hx : Honest x) : Honest (f <*> x) := by
  intro place log
  obtain ⟨es, hlog, hnone⟩ := hf place log
  obtain ⟨es', hlog', hnone'⟩ := hx place (f place log).2
  refine ⟨es ++ es', ?_, fun h => ?_⟩
  · rw [ErrorLog.pushAll_append, ← hlog, ← hlog']
    rfl
  · change ((f place log).1.bind fun g => (x place (f place log).2).1.map g) = none at h
    cases hg : (f place log).1 with
    | none => exact List.append_ne_nil_of_left_ne_nil (hnone hg) es'
    | some g =>
      rw [hg] at h
      exact List.append_ne_nil_of_right_ne_nil es (hnone' (Option.map_eq_none_iff.mp h))

/-- Going into a part of the document changes the place of errors only. -/
theorem within (segment : Segment) {x : Load α} (hx : Honest x) : Honest (within segment x) :=
  fun _ => hx _

theorem below (span : Option Span) {x : Load α} (hx : Honest x) : Honest (below span x) :=
  fun _ => hx _

/-- A position is always given, with notes about lines and columns that are no numbers. -/
theorem span (members : List (String × Json)) : Honest (span members) :=
  span_induction pure map (fun _ => note _) (note _)

/-- A node is honest if its form is at each position. -/
theorem node (members : List (String × Json)) {x : Option Span → Load α} (hx : ∀ span, Honest (x span)) :
    Honest (node members x) := by
  intro place log
  obtain ⟨es, hlog, -⟩ := span members place log
  obtain ⟨es', hlog', hnone⟩ := below _ (hx (Load.span members place log).1.join) place (Load.span members place log).2
  refine ⟨es ++ es', ?_, fun h => List.append_ne_nil_of_right_ne_nil es (hnone h)⟩
  rw [ErrorLog.pushAll_append, ← hlog, ← hlog']
  rfl

/-- The instructions of an array that can be loaded are given, whatever is wrong with the others. -/
theorem stmts {r : NodeLoader} (hr : ∀ doc, Honest (r.stmt doc)) (i : Nat) (items : List Json) : Honest (r.stmts i items) := by
  intro place log
  induction items generalizing i log with
  | nil => exact ⟨[], rfl, nofun⟩
  | cons item rest ih =>
    rw [NodeLoader.stmts]
    split
    · exact ⟨[], rfl, nofun⟩
    · obtain ⟨es, hlog, -⟩ := within (.index i) (hr item) place log
      obtain ⟨es', hlog', hnone⟩ := ih (i + 1) (Load.within (.index i) (r.stmt item) place log).2
      refine ⟨es ++ es', ?_, fun h => ?_⟩
      · rw [ErrorLog.pushAll_append, ← hlog, ← hlog']
      · exact List.append_ne_nil_of_right_ne_nil es (hnone (Option.map_eq_none_iff.mp h))

/-- The ways of putting loaders together keep honest ones honest. -/
theorem closed : Closed Honest :=
  ⟨pure, fail, map, seq, within, node, stmts⟩

end Honest

end Load

end NodeScript
