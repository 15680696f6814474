import NodeScript.Proofs.Load.Honest
import NodeScript.Proofs.Load.Translation
import NodeScript.Run.Session

/-!
# Loading is exact

The loader goes on past what is wrong, leaves instructions out and stops when its log is full; and still it accepts exactly the
documents that fit the schema, and gives exactly what they stand for. The relation that the proof follows through all loaders is
`Load.Exact x t`: on a log that has room, the loader `x` gives what the reading `t` says and leaves the log alone, or `t` says
nothing and an error is noted.
-/

namespace NodeScript

namespace Json

/-- A member is nested less deep than its object. -/
theorem depth_lt_of_mem_members {members : List (String × Json)} {m : String × Json} (h : m ∈ members) :
    m.2.depth < (object members).depth := by
  have hle : m.2.depth ≤ depthMembers members := by
    induction members with
    | nil => cases h
    | cons first rest ih =>
      rw [depthMembers]
      rcases List.mem_cons.mp h with rfl | h
      · exact Nat.le_max_left _ _
      · exact Nat.le_trans (ih h) (Nat.le_max_right _ _)
  rw [depth]
  omega

/-- A member that is found is nested less deep than its object. -/
theorem depth_lt_of_member? {name : String} {members : List (String × Json)} {value : Json}
    (h : member? name members = some value) : value.depth < (object members).depth := by
  obtain ⟨m, hm, rfl⟩ := exists_mem_of_member? h
  exact depth_lt_of_mem_members hm

/-- An item is nested less deep than its array. -/
theorem depth_lt_of_mem {items : List Json} {item : Json} (h : item ∈ items) : item.depth < (array items).depth := by
  have hle : item.depth ≤ depthItems items := by
    induction items with
    | nil => cases h
    | cons first rest ih =>
      rw [depthItems]
      rcases List.mem_cons.mp h with rfl | h
      · exact Nat.le_max_left _ _
      · exact Nat.le_trans (ih h) (Nat.le_max_right _ _)
  rw [depth]
  omega

/-- In the place of a text a document stands for the text that it is. -/
theorem read_text_eq_string? (doc : Json) : doc.read .text = doc.string? := by
  cases doc <;> rfl

/-- In the place of a coordinate a document stands for the number that it is. -/
theorem read_coordinate (doc : Json) : doc.read .coordinate = doc.coordinate? := by
  cases doc <;> rfl

end Json

namespace Load

variable {α β : Type}

/-- An honest loader that, on a log with room, does what a reading says. -/
structure Exact (x : Load α) (t : Option α) : Prop where
  honest : Honest x
  accepts : ∀ a, t = some a → ∀ place log, log.isFull = false → x place log = (some a, log)
  rejects : t = none → ∀ place log, log.isFull = false → log.total < (x place log).2.total

namespace Exact

/-! ## Ways of putting loaders together -/

/-- To give something reads as that. -/
theorem pure (a : α) : Exact (Pure.pure a) (some a) := by
  refine ⟨.pure a, fun b hb place log _ => ?_, nofun⟩
  cases hb
  rfl

theorem fail (cause : LoadCause) : Exact (fail cause : Load α) none :=
  ⟨.fail cause, nofun, fun _ _ _ _ => Nat.lt_succ_self _⟩

theorem note (f : Unit → α) (cause : LoadCause) : Exact (f <$> note cause) none :=
  ⟨(Honest.note cause).map f, nofun, fun _ _ _ _ => Nat.lt_succ_self _⟩

/-- What is given may be changed, by the loader and by the reading. -/
theorem map (f : α → β) {x : Load α} {t : Option α} (hx : Exact x t) : Exact (f <$> x) (f <$> t) := by
  refine ⟨hx.honest.map f, fun b hb place log hroom => ?_, fun ht place log hroom => ?_⟩
  · obtain ⟨a, ha, rfl⟩ := Option.map_eq_some_iff.mp hb
    show ((x place log).1.map f, (x place log).2) = _
    rw [hx.accepts a ha place log hroom]
    rfl
  · exact hx.rejects (Option.map_eq_none_iff.mp ht) place log hroom

/-- Two loaders side by side read as two readings side by side. -/
theorem seq {f : Load (α → β)} {g : Option (α → β)} {x : Load α} {t : Option α} (hf : Exact f g) (hx : Exact x t) :
    Exact (f <*> x) (g <*> t) := by
  have happly (place : Place) (log : ErrorLog) : (f <*> x) place log =
      ((f place log).1.bind fun g => (x place (f place log).2).1.map g, (x place (f place log).2).2) := rfl
  refine ⟨hf.honest.seq hx.honest, fun b hb place log hroom => ?_, fun hnone place log hroom => ?_⟩
  · cases g with
    | none => cases hb
    | some g =>
      obtain ⟨a, ha, rfl⟩ := Option.map_eq_some_iff.mp hb
      rw [happly, hf.accepts g rfl place log hroom, hx.accepts a ha place log hroom]
      rfl
  · rw [happly]
    cases g with
    | none => exact Nat.lt_of_lt_of_le (hf.rejects rfl place log hroom) (hx.honest.total_le place _)
    | some g =>
      have ht : t = none := Option.map_eq_none_iff.mp hnone
      rw [hf.accepts g rfl place log hroom]
      exact hx.rejects ht place log hroom

theorem within (segment : Segment) {x : Load α} {t : Option α} (hx : Exact x t) : Exact (within segment x) t :=
  ⟨hx.honest.within segment, fun a ha _ => hx.accepts a ha _, fun ht _ => hx.rejects ht _⟩

/-- The position above a part does not matter to what it stands for. -/
theorem below (span : Option Span) {x : Load α} {t : Option α} (hx : Exact x t) : Exact (below span x) t :=
  ⟨hx.honest.below span, fun a ha _ => hx.accepts a ha _, fun ht _ => hx.rejects ht _⟩

/-- A list is read from its head and its rest. -/
theorem mapM_cons_eq_seq (t : α → Option β) (a : α) (rest : List α) :
    (a :: rest).mapM t = List.cons <$> t a <*> rest.mapM t := by
  rw [List.mapM_cons]
  cases t a with
  | none => rfl
  | some b => cases rest.mapM t <;> rfl

/-- The items of an array read one by one, and one that stands for nothing spoils them all. -/
theorem items {x : Json → Load α} {t : Json → Option α} {docs : List Json} (h : ∀ doc ∈ docs, Exact (x doc) (t doc)) (i : Nat) :
    Exact (items x i docs) (docs.mapM t) := by
  induction docs generalizing i with
  | nil => exact pure []
  | cons doc rest ih =>
    rw [mapM_cons_eq_seq]
    exact seq (map _ (within _ (h doc (.head _)))) (ih (fun doc hd => h doc (.tail _ hd)) (i + 1))

/-- The members of an object read one by one under their names. -/
theorem named {x : Json → Load α} {t : Json → Option α} {members : List (String × Json)}
    (h : ∀ m ∈ members, Exact (x m.2) (t m.2)) :
    Exact (named x members) (members.mapM fun m => (fun a => (m.1, a)) <$> t m.2) := by
  induction members with
  | nil => exact pure []
  | cons m rest ih =>
    have hcons (tail : Option (List (String × α))) : List.cons <$> ((fun a => (m.1, a)) <$> t m.2) <*> tail =
        (fun a rest => (m.1, a) :: rest) <$> t m.2 <*> tail := by
      cases t m.2 <;> rfl
    rw [mapM_cons_eq_seq, hcons]
    exact seq (map _ (within _ (h m (.head _)))) (ih fun m hm => h m (.tail _ hm))

/-- The instructions of an array are given when all of them can be loaded, and then none is left out. -/
theorem stmts {r : NodeLoader} {t : Json → Option (Stmt Unit)} {docs : List Json} (honest : ∀ doc, Honest (r.stmt doc))
    (h : ∀ doc ∈ docs, Exact (r.stmt doc) (t doc)) (i : Nat) : Exact (r.stmts i docs) (docs.mapM t) := by
  refine ⟨.stmts honest i docs, fun code hcode place log hroom => ?_, fun hnone place log hroom => ?_⟩
  · induction docs generalizing i code with
    | nil =>
      cases hcode
      rfl
    | cons doc rest ih =>
      simp only [List.mapM_cons, Option.bind_eq_bind, Option.bind_eq_some_iff, Option.pure_def, Option.some.injEq] at hcode
      obtain ⟨s, hs, code, hrest, rfl⟩ := hcode
      have hdoc := (within (.index i) (h doc (.head _))).accepts s hs place log hroom
      rw [NodeLoader.stmts, hroom, hdoc]
      simp only [Bool.false_eq_true, if_false, ih (fun doc hd => h doc (.tail _ hd)) (i + 1) code hrest]
      rfl
  · induction docs generalizing i with
    | nil => cases hnone
    | cons doc rest ih =>
      rw [NodeLoader.stmts, hroom]
      simp only [Bool.false_eq_true, if_false]
      have hdoc := within (.index i) (h doc (.head _))
      cases hs : t doc with
      | none => exact Nat.lt_of_lt_of_le (hdoc.rejects hs place log hroom) (Honest.total_le (.stmts honest _ _) place _)
      | some s =>
        rw [hdoc.accepts s hs place log hroom]
        rw [mapM_cons_eq_seq, hs] at hnone
        exact ih (fun doc hd => h doc (.tail _ hd)) (i + 1) (Option.map_eq_none_iff.mp hnone)

/-! ## Positions and fields -/

section

open Json

variable {members : List (String × Json)} {n : Nat}

/-- A node is read after its position; a position that is none is an error, and the node is read all the same. -/
theorem node_of_span {x : Option Span → Load α} {t : Option Span → Option α} {spanned : Option (Option Span)}
    (hspan : Exact (span members) spanned) (hx : ∀ span, Exact (x span) (t span)) : Exact (node members x) (spanned.bind t) := by
  have happly (place : Place) (log : ErrorLog) : node members x place log =
      Load.below (span members place log).1.join (x (span members place log).1.join) place (span members place log).2 := rfl
  refine ⟨.node members fun span => (hx span).honest, fun a ha place log hroom => ?_, fun hnone place log hroom => ?_⟩
  · obtain ⟨span, hs, ha⟩ := Option.bind_eq_some_iff.mp ha
    rw [happly, hspan.accepts span hs place log hroom]
    exact (below span (hx span)).accepts a ha place log hroom
  · rw [happly]
    cases spanned with
    | none => exact Nat.lt_of_lt_of_le (hspan.rejects rfl place log hroom) (((hx _).honest.below _).total_le place _)
    | some span =>
      rw [hspan.accepts span rfl place log hroom]
      exact (below span (hx span)).rejects hnone place log hroom

/-- A field that has to be there reads as its value does; when it is missing the object stands for nothing. -/
theorem field {tag name : String} (role : Role) {x : Json → Load role.Tree} (hd : (Json.object members).depth ≤ n)
    (h : ∀ value, value.depth < n → Exact (x value) (value.read role)) :
    Exact (Load.field tag name x members) (Reading.field (readMembers members) name role) := by
  unfold Load.field Reading.field
  rw [lookup_readMembers]
  split
  · rename_i hnone
    rw [hnone]
    exact fail _
  · rename_i value hvalue
    rw [hvalue]
    exact within _ (h value (Nat.lt_of_lt_of_le (depth_lt_of_member? hvalue) hd))

/-- A field that may be missing reads as its value does. -/
theorem field? {name : String} (role : Role) {x : Json → Load role.Tree} (hd : (Json.object members).depth ≤ n)
    (h : ∀ value, value.depth < n → Exact (x value) (value.read role)) :
    Exact (Load.field? name x members) (Reading.field? (readMembers members) name role) := by
  unfold Load.field? Reading.field?
  rw [lookup_readMembers]
  split
  · rename_i hnone
    rw [hnone]
    exact pure none
  · rename_i value hvalue
    rw [hvalue]
    exact map some (within _ (h value (Nat.lt_of_lt_of_le (depth_lt_of_member? hvalue) hd)))

/-- A column is a coordinate, and the first one when it is missing. -/
theorem column : Exact (Load.column members) (Reading.column (readMembers members)) := by
  unfold Load.column Reading.column Reading.field?
  rw [lookup_readMembers]
  split
  · rename_i hnone
    rw [hnone]
    exact pure 1
  · rename_i value hvalue
    rw [hvalue]
    simp only [Option.map_some, read_coordinate]
    split
    · rename_i c hc
      rw [hc]
      exact pure c
    · rename_i hc
      rw [hc]
      exact note _ _

/-- A position is a line and a column; without a line there is none. -/
theorem span : Exact (Load.span members) (Reading.span (readMembers members)) := by
  unfold Load.span Reading.span Reading.field?
  rw [lookup_readMembers]
  split
  · rename_i hnone
    rw [hnone]
    exact pure none
  · rename_i value hvalue
    rw [hvalue]
    simp only [Option.map_some, read_coordinate]
    split
    · rename_i line hline
      rw [hline]
      exact map _ column
    · rename_i hline
      rw [hline]
      exact note _ _

/-- A text reads as itself. -/
theorem text (name : String) (doc : Json) : Exact (Load.text name doc) (doc.read .text) := by
  cases doc with
  | string s => exact pure s
  | _ => exact fail _

/-- The parameters of a function are texts, all of them. -/
theorem params (doc : Json) : Exact (NodeLoader.params doc) (doc.read .params) := by
  cases doc with
  | array docs =>
    simp only [NodeLoader.params, read_params, read_text_eq_string?]
    split
    · rename_i names hnames
      rw [hnames]
      exact pure names
    · rename_i hnames
      rw [hnames]
      exact fail _
  | _ => exact fail _

end

end Exact

/-! ## One level more -/

/-- A loader of nodes that is exact on documents that are nested less than `n` deep. -/
structure ExactBelow (n : Nat) (r : NodeLoader) : Prop where
  honest : r.All Honest
  expr : ∀ doc, doc.depth < n → Exact (r.expr doc) (doc.read .expr)
  stmt : ∀ doc, doc.depth < n → Exact (r.stmt doc) (doc.read .stmt)

namespace ExactBelow

open Json

variable {n : Nat} {r : NodeLoader} {members : List (String × Json)}

/-- The instructions of a block, where no instruction is nested deeper than the loader goes. -/
theorem stmts (h : ExactBelow n r) {items : List Json} (hd : (Json.array items).depth ≤ n) :
    Exact (r.stmts 0 items) ((Json.array items).read .block) := by
  rw [read_block]
  exact .stmts h.honest.stmt (fun item hmem => h.stmt item (Nat.lt_of_lt_of_le (depth_lt_of_mem hmem) hd)) 0

/-- A block that is nested less deep than the loader goes. -/
theorem block (h : ExactBelow n r) (doc : Json) (hd : doc.depth < n) : Exact (r.block doc) (doc.read .block) := by
  cases doc with
  | array items => exact h.stmts (Nat.le_of_lt hd)
  | _ => exact .fail _

/-- An array of expressions. -/
theorem exprs (h : ExactBelow n r) (name : String) (doc : Json) (hd : doc.depth < n) :
    Exact (array name r.expr doc) (doc.read .exprs) := by
  cases doc with
  | array docs =>
    rw [read_exprs]
    exact .items (fun doc hmem => h.expr doc (Nat.lt_trans (depth_lt_of_mem hmem) hd)) 0
  | _ => exact .fail _

/-- The arguments that are given by name. -/
theorem named (h : ExactBelow n r) (name : String) (doc : Json) (hd : doc.depth < n) :
    Exact (object name r.expr doc) (doc.read .named) := by
  cases doc with
  | object members =>
    rw [read_named]
    exact .named (t := fun value => value.read .expr) fun m hmem => h.expr m.2 (Nat.lt_trans (depth_lt_of_mem_members hmem) hd)
  | _ => exact .fail _

/-- An array of expressions that counts as empty when it is missing. -/
theorem exprsField (h : ExactBelow n r) (hd : (Json.object members).depth ≤ n) (name : String) :
    Exact (arrayField name r.expr members) ((·.getD []) <$> Reading.field? (readMembers members) name .exprs) :=
  .map _ (.field? .exprs hd (h.exprs name))

/-- A case of a switch: an object with a condition and a block. -/
theorem switchCase (h : ExactBelow n r) (doc : Json) (hd : doc.depth ≤ n) : Exact (r.switchCase doc) (doc.read .case) := by
  cases doc with
  | object members =>
    exact .node_of_span .span fun _ => .seq (.map _ (.field .expr hd h.expr)) (.field .block hd h.block)
  | _ => exact .fail _

/-- The cases of a switch. -/
theorem cases (h : ExactBelow n r) (name : String) (doc : Json) (hd : doc.depth < n) :
    Exact (array name r.switchCase doc) (doc.read .cases) := by
  cases doc with
  | array docs =>
    rw [read_cases]
    exact .items (fun doc hmem => h.switchCase doc (Nat.le_of_lt (Nat.lt_trans (depth_lt_of_mem hmem) hd))) 0
  | _ => exact .fail _

/-- An expression of one level more, tag by tag. -/
theorem exprForm (h : ExactBelow n r) (hd : (Json.object members).depth ≤ n) (tag : ExprTag) (span : Option Span) :
    Exact (r.exprForm members tag span) (Reading.exprForm (readMembers members) tag span) := by
  have expr (name : String) : Exact (field tag.text name r.expr members) (Reading.field (readMembers members) name .expr) :=
    .field .expr hd h.expr
  cases tag with
  | convert goal => exact .map _ (expr _)
  | binary op => exact .seq (.map _ (expr _)) (expr _)
  | not => exact .map _ (expr _)
  | len => exact .map _ (expr _)
  | typeOf => exact .map _ (expr _)
  | getVar => exact .map _ (.field .text hd fun value _ => .text _ value)
  | list => exact .map _ (h.exprsField hd _)
  | range => exact .seq (.map _ (expr _)) (expr _)
  | subscript => exact .seq (.map _ (expr _)) (expr _)
  | join => exact .seq (.map _ (expr _)) (expr _)
  | input => exact .map _ (.field? .expr hd h.expr)
  | func => exact .seq (.map _ (.field .params hd fun value _ => .params value)) (.field .block hd h.block)
  | call => exact .seq (.seq (.map _ (expr _)) (h.exprsField hd _)) (.field? .named hd (h.named _))

/-- An instruction of one level more, tag by tag. -/
theorem stmtForm (h : ExactBelow n r) (hd : (Json.object members).depth ≤ n) (tag : StmtTag) (span : Option Span) :
    Exact (r.stmtForm members tag span) (Reading.stmtForm (readMembers members) tag span) := by
  have expr (name : String) : Exact (field tag.text name r.expr members) (Reading.field (readMembers members) name .expr) :=
    .field .expr hd h.expr
  have code (name : String) : Exact (field tag.text name r.block members) (Reading.field (readMembers members) name .block) :=
    .field .block hd h.block
  have name (name : String) : Exact (field tag.text name (text name) members) (Reading.field (readMembers members) name .text) :=
    .field .text hd fun value _ => .text _ value
  have code? (name : String) : Exact (field? name r.block members) (Reading.field? (readMembers members) name .block) :=
    .field? .block hd h.block
  cases tag with
  | setVar => exact .seq (.map _ (name _)) (expr _)
  | compound op => exact .seq (.map _ (expr _)) (expr _)
  | append => exact .seq (.map _ (expr _)) (expr _)
  | insert => exact .seq (.seq (.map _ (expr _)) (expr _)) (expr _)
  | remove => exact .seq (.map _ (expr _)) (expr _)
  | print => exact .map _ (expr _)
  | cond => exact .seq (.seq (.map _ (expr _)) (code _)) (code? _)
  | switch =>
    simp only [NodeLoader.stmtForm, Reading.stmtForm, Reading.field, lookup_readMembers]
    split
    · rename_i hnone
      rw [hnone]
      exact .fail _
    · rename_i cases hcases
      rw [hcases]
      have hdepth := Nat.lt_of_lt_of_le (depth_lt_of_member? hcases) hd
      exact .seq (.map _ (.within _ (h.cases _ cases hdepth))) (code? _)
  | loop => exact .seq (.seq (.map _ (name _)) (expr _)) (code _)
  | ret => exact .map _ (.field? .expr hd h.expr)

/-- A node is read by its tag; without one there is nothing to read. -/
theorem tagged {α : Type} {x : List (String × Json) → String → Load α} {t : String → Option α}
    (hx : ∀ tag, HasTag members tag → Exact (x members tag) (t tag)) :
    Exact (NodeLoader.tagged (.object members) x) ((Reading.field (readMembers members) "type" .text).bind t) := by
  simp only [NodeLoader.tagged, Reading.field, lookup_readMembers]
  split
  · rename_i tag htag
    rw [htag]
    exact hx tag htag
  · rename_i got hne hgot
    rw [hgot]
    have hread : got.read .text = none := by
      rw [read_text_eq_string?]
      cases got with
      | string s => exact (hne s rfl).elim
      | _ => rfl
    simp only [Option.map_some, Option.bind_some, hread, Option.bind_none]
    exact .fail _
  · rename_i hnone
    rw [hnone]
    exact .fail _

/-- An expression of one level more: a literal, or a node by its tag. -/
theorem nextExpr (h : ExactBelow n r) (doc : Json) (hd : doc.depth ≤ n) : Exact (r.nextExpr doc) (doc.read .expr) := by
  cases doc with
  | bool | string | float => exact .pure _
  | int k =>
    simp only [NodeLoader.nextExpr, Json.read, Reading.ofInt]
    split
    · exact .pure _
    · exact .fail _
  | null | array => exact .fail _
  | object members =>
    unfold NodeLoader.nextExpr
    refine tagged fun tag _ => ?_
    cases ExprTag.ofText? tag with
    | none => exact .fail _
    | some known => exact .node_of_span .span (h.exprForm hd known)

/-- An instruction of one level more: a node by its tag, which may be that of an expression. -/
theorem nextStmt (h : ExactBelow n r) (doc : Json) (hd : doc.depth ≤ n) : Exact (r.nextStmt doc) (doc.read .stmt) := by
  cases doc with
  | object members =>
    refine tagged fun tag htag => ?_
    cases StmtTag.ofText? tag with
    | some known => exact .node_of_span .span (h.stmtForm hd known)
    | none =>
      dsimp only
      split
      · exact .map _ (h.nextExpr _ hd)
      · rename_i hunknown
        have hnode : Reading.exprNode (readMembers members) = none := by
          simp [Reading.exprNode, field_type.mpr htag, Option.not_isSome_iff_eq_none.mp hunknown]
        rw [hnode]
        exact .fail _
  | _ => exact .fail _

/-- One level more makes a loader exact one level deeper. -/
theorem next (h : ExactBelow n r) (honest : r.next.All Honest) : ExactBelow (n + 1) r.next :=
  ⟨honest, fun doc hd => h.nextExpr doc (Nat.le_of_lt_succ hd), fun doc hd => h.nextStmt doc (Nat.le_of_lt_succ hd)⟩

/-- The loader of each level is exact on documents that are nested less deep. -/
theorem loader (n : Nat) : ExactBelow n (nodeLoader n) := by
  induction n with
  | zero => exact ⟨Honest.closed.loader 0, nofun, nofun⟩
  | succ n ih => exact ih.next (Honest.closed.loader (n + 1))

end ExactBelow

end Load

/-! ## Programs -/

namespace Program

variable {capacity : Option Nat}

/-- What a load notes is pushed on an empty log. -/
theorem log_loadWith (capacity : Option Nat) (doc : Json) :
    ∃ es, (loadWith capacity doc).log = (ErrorLog.empty capacity).pushAll es := by
  cases doc with
  | array items =>
    obtain ⟨es, hlog, -⟩ := Load.Honest.stmts (Load.Honest.closed.loader (Json.array items).depth).stmt 0 items ⟨[], none⟩
      (.empty capacity)
    exact ⟨es, hlog⟩
  | _ => exact ⟨[_], rfl⟩

/-- A document that reads as a block gives that block, and no error. -/
theorem loadWith_of_read_eq_some (hroom : (ErrorLog.empty capacity).isFull = false) {doc : Json} {program : Program}
    (h : doc.read .block = some program) : loadWith capacity doc = ⟨some program, .empty capacity⟩ := by
  cases doc with
  | array items =>
    have hstmts := ((Load.ExactBelow.loader _).stmts (Nat.le_refl _)).accepts program h ⟨[], none⟩ (.empty capacity) hroom
    simp only [loadWith, hstmts]
    rfl
  | _ => cases h

/-- A document that does not read as a block has an error, and gives no program. -/
theorem loadWith_of_read_eq_none (hroom : (ErrorLog.empty capacity).isFull = false) {doc : Json} (h : doc.read .block = none) :
    (loadWith capacity doc).program = none ∧ 0 < (loadWith capacity doc).log.total := by
  cases doc with
  | array items =>
    have htotal := ((Load.ExactBelow.loader _).stmts (Nat.le_refl _)).rejects h ⟨[], none⟩ (.empty capacity) hroom
    exact ⟨if_pos (decide_eq_true htotal), htotal⟩
  | _ => exact ⟨rfl, Nat.zero_lt_one⟩

/-- A document is accepted with a program exactly when it reads as that program. -/
theorem ofJson_eq_ok_iff (doc : Json) (program : Program) : ofJson doc = .ok program ↔ doc.read .block = some program := by
  unfold ofJson LoadResult.toExcept
  cases h : doc.read .block with
  | none =>
    rw [(loadWith_of_read_eq_none rfl h).1]
    exact ⟨nofun, nofun⟩
  | some p =>
    rw [loadWith_of_read_eq_some rfl h]
    simp [ErrorLog.hasErrors, ErrorLog.empty]

/-- There is no program exactly when there is an error. -/
theorem program_loadWith_eq_none_iff (hroom : (ErrorLog.empty capacity).isFull = false) (doc : Json) :
    (loadWith capacity doc).program = none ↔ 0 < (loadWith capacity doc).log.total := by
  cases h : doc.read .block with
  | none =>
    obtain ⟨hprogram, htotal⟩ := loadWith_of_read_eq_none hroom h
    exact ⟨fun _ => htotal, fun _ => hprogram⟩
  | some program =>
    rw [loadWith_of_read_eq_some hroom h]
    exact ⟨nofun, nofun⟩

/-- A document that is refused has an error that is kept. -/
theorem errors_ne_nil_of_ofJson_eq_error {doc : Json} {log : ErrorLog} (h : ofJson doc = .error log) : log.errors ≠ [] := by
  cases hread : doc.read .block with
  | some program =>
    rw [(ofJson_eq_ok_iff doc program).mpr hread] at h
    cases h
  | none =>
    obtain ⟨es, hlog⟩ := log_loadWith (some ErrorLog.limit) doc
    have hroom : (ErrorLog.empty (some ErrorLog.limit)).isFull = false := rfl
    obtain ⟨hprogram, htotal⟩ := loadWith_of_read_eq_none hroom hread
    have heq : (loadWith (some ErrorLog.limit) doc).log = log := by
      simpa [ofJson, LoadResult.toExcept, hprogram] using h
    rw [← heq, hlog]
    refine ErrorLog.errors_pushAll_ne_nil (by simp [ErrorLog.empty, ErrorLog.limit]) (.inr ?_)
    rintro rfl
    rw [hlog] at htotal
    cases htotal

/-- A text that is refused has an error that is kept. -/
theorem errors_ne_nil_of_ofText_eq_error {source : String} {log : ErrorLog} (h : ofText source = .error log) :
    log.errors ≠ [] := by
  unfold ofText at h
  split at h
  · exact errors_ne_nil_of_ofJson_eq_error h
  · cases h
    exact List.cons_ne_nil _ _

end Program

/-- The failure of a log with an error is that of its first one. -/
theorem Failure.ofLog_eq {log : ErrorLog} (h : log.errors ≠ []) :
    ∃ e rest, log.errors = e :: rest ∧ Failure.ofLog log = .ofLoadError e := by
  obtain ⟨e, rest, herrors⟩ := List.exists_cons_of_ne_nil h
  exact ⟨e, rest, herrors, by simp [Failure.ofLog, herrors]⟩

/-- Loading is exact. A document is accepted exactly when it fits the schema, and gives exactly the tree that it stands for. No
loader, at any level, gives nothing without having noted an error; there is no program exactly when there is an error; and a
document or a text that is refused has an error whose failure it ends with. -/
theorem load_exact :
    (∀ doc, (∃ program, Program.ofJson doc = .ok program) ↔ Conforms .block doc) ∧
    (∀ doc program, Program.ofJson doc = .ok program ↔ doc.read .block = some program) ∧
    (∀ n, (nodeLoader n).All Load.Honest) ∧
    (∀ doc, (Program.loadWith (some ErrorLog.limit) doc).program = none ↔
      0 < (Program.loadWith (some ErrorLog.limit) doc).log.total) ∧
    (∀ doc log, Program.ofJson doc = .error log → ∃ e rest, log.errors = e :: rest ∧ Failure.ofLog log = .ofLoadError e) ∧
    (∀ source log, Program.ofText source = .error log →
      ∃ e rest, log.errors = e :: rest ∧ Failure.ofLog log = .ofLoadError e) := by
  refine ⟨fun doc => ?_, Program.ofJson_eq_ok_iff, Load.Honest.closed.loader, Program.program_loadWith_eq_none_iff rfl,
    fun doc log h => ?_, fun source log h => ?_⟩
  · rw [Json.conforms_iff_isSome_read, Option.isSome_iff_exists]
    exact exists_congr fun program => Program.ofJson_eq_ok_iff doc program
  · exact Failure.ofLog_eq (Program.errors_ne_nil_of_ofJson_eq_error h)
  · exact Failure.ofLog_eq (Program.errors_ne_nil_of_ofText_eq_error h)

/-- A program that prints a number, with its position. -/
def printDoc : Json :=
  .array [.object [("type", .string "print"), ("value", .int 1), ("line", .int 3)]]

/-- The program that prints a number is accepted, and one with `null` for an instruction is refused with an error to show. -/
theorem load_exact_printDoc : (∃ program, Program.ofJson printDoc = .ok program) ∧
    ∃ log, Program.ofJson (.array [.null]) = .error log ∧
      ∃ e rest, log.errors = e :: rest ∧ Failure.ofLog log = .ofLoadError e :=
  ⟨(load_exact.1 printDoc).mpr (by decide), _, rfl, load_exact.2.2.2.2.1 (.array [.null]) _ rfl⟩

end NodeScript
