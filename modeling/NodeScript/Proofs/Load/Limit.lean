import NodeScript.Proofs.Load.Exact

/-!
# The limit only cuts the log off

The same document loaded twice, once into a log that keeps so many errors and once into a log that keeps them all. Up to the limit
both loads do the same. After it they part: the first still goes through the fields, lists and cases of the node that it is in,
but skips the instructions of every block, so what it counts from there on is only some of what the second finds. `ErrorLog.CutAt`
is what the two logs have in common all the way.
-/

namespace NodeScript

namespace ErrorLog

/-- A log that keeps `k` errors, beside the log of the same load that keeps them all. -/
structure CutAt (k : Nat) (short full : ErrorLog) : Prop where
  capacity : short.capacity = some k
  unlimited : full.capacity = none
  errors : short.errors = full.errors.take k
  counted : full.total = full.errors.length
  total_le : short.total ≤ full.total
  le_total : min k full.total ≤ short.total

/-- A log without a capacity is never full. -/
theorem isFull_of_capacity_eq_none {log : ErrorLog} (h : log.capacity = none) : log.isFull = false := by
  rw [isFull, h]
  rfl

/-- A log without a capacity keeps every error. -/
theorem errors_push_of_capacity_eq_none {log : ErrorLog} (h : log.capacity = none) (e : LoadError) :
    (log.push e).errors = log.errors ++ [e] := by
  simp [push, isFull_of_capacity_eq_none h]

namespace CutAt

variable {k : Nat} {short full : ErrorLog}

/-- At first both logs are empty. -/
theorem empty (k : Nat) : CutAt k (.empty (some k)) (.empty none) where
  capacity := rfl
  unlimited := rfl
  errors := List.take_nil.symm
  counted := rfl
  total_le := Nat.le_refl 0
  le_total := Nat.min_le_right k 0

/-- The short log is full when there were as many errors as it keeps. -/
theorem isFull_iff (h : CutAt k short full) : short.isFull = true ↔ k ≤ full.total := by
  have hlength : short.errors.length = min k full.total := by
    rw [h.errors, List.length_take, h.counted]
  simp only [isFull, h.capacity, Option.any_some, decide_eq_true_eq, hlength]
  omega

/-- An error that both loads find. -/
theorem push (h : CutAt k short full) (e : LoadError) : CutAt k (short.push e) (full.push e) := by
  have hfull := errors_push_of_capacity_eq_none h.unlimited e
  refine ⟨h.capacity, h.unlimited, ?_, ?_, Nat.succ_le_succ h.total_le, ?_⟩
  · rw [hfull]
    by_cases hk : k ≤ full.total
    · have hkept : (short.push e).errors = short.errors := if_pos (h.isFull_iff.mpr hk)
      rw [hkept, h.errors, List.take_append_of_le_length (h.counted ▸ hk)]
    · have hkept : (short.push e).errors = short.errors ++ [e] := if_neg (mt h.isFull_iff.mp hk)
      have hroom : (full.errors ++ [e]).length ≤ k := by
        rw [List.length_append, List.length_singleton, ← h.counted]
        omega
      rw [hkept, h.errors, List.take_of_length_le (h.counted ▸ Nat.le_of_not_le hk), List.take_of_length_le hroom]
  · rw [hfull, List.length_append, ← h.counted]
    rfl
  · have := h.le_total
    simp only [ErrorLog.push]
    omega

/-- An error that only the load without a limit finds, because the other one has already stopped. -/
theorem push_full (h : CutAt k short full) (hk : k ≤ full.total) (e : LoadError) : CutAt k short (full.push e) := by
  have hfull := errors_push_of_capacity_eq_none h.unlimited e
  refine ⟨h.capacity, h.unlimited, ?_, ?_, Nat.le_succ_of_le h.total_le, ?_⟩
  · rw [hfull, List.take_append_of_le_length (h.counted ▸ hk), h.errors]
  · rw [hfull, List.length_append, ← h.counted]
    rfl
  · have := h.le_total
    simp only [ErrorLog.push]
    omega

/-- When the short log is full, further errors of the whole load do not count for it. -/
theorem pushAll_full (h : CutAt k short full) (hk : k ≤ full.total) (es : List LoadError) : CutAt k short (full.pushAll es) := by
  induction es generalizing full with
  | nil => exact h
  | cons e rest ih => exact ih (h.push_full hk e) (Nat.le_succ_of_le hk)

end CutAt

end ErrorLog

namespace Load

variable {α β : Type}

/-- An honest loader that, on a log that is cut off and on the whole log, leaves two such logs. -/
structure CutsOff (k : Nat) (x : Load α) : Prop where
  honest : Honest x
  keeps : ∀ place {short full : ErrorLog}, short.CutAt k full → (x place short).2.CutAt k (x place full).2

namespace CutsOff

variable {k : Nat}

theorem pure (a : α) : CutsOff k (Pure.pure a) :=
  ⟨.pure a, fun _ _ _ h => h⟩

theorem fail (cause : LoadCause) : CutsOff k (fail cause : Load α) :=
  ⟨.fail cause, fun _ _ _ h => h.push _⟩

theorem note (cause : LoadCause) : CutsOff k (note cause) :=
  ⟨.note cause, fun _ _ _ h => h.push _⟩

theorem map (f : α → β) {x : Load α} (hx : CutsOff k x) : CutsOff k (f <$> x) :=
  ⟨hx.honest.map f, hx.keeps⟩

theorem seq {f : Load (α → β)} {x : Load α} (hf : CutsOff k f) (hx : CutsOff k x) : CutsOff k (f <*> x) :=
  ⟨hf.honest.seq hx.honest, fun place _ _ h => hx.keeps place (hf.keeps place h)⟩

theorem within (segment : Segment) {x : Load α} (hx : CutsOff k x) : CutsOff k (within segment x) :=
  ⟨hx.honest.within segment, fun _ _ _ h => hx.keeps _ h⟩

theorem span (members : List (String × Json)) : CutsOff k (span members) :=
  span_induction pure map (fun _ => note _) (note _)

/-- Both loads take a node at the same position. -/
theorem node (members : List (String × Json)) {x : Option Span → Load α} (hx : ∀ span, CutsOff k (x span)) :
    CutsOff k (node members x) := by
  refine ⟨.node members fun span => (hx span).honest, fun place short full h => ?_⟩
  rw [node_apply, node_apply]
  exact (hx _).keeps _ ((span members).keeps place h)

/-- Where the short log is full, its block ends, and the other load goes on alone. -/
theorem stmts {r : NodeLoader} (hr : ∀ doc, CutsOff k (r.stmt doc)) (i : Nat) (items : List Json) : CutsOff k (r.stmts i items) := by
  have honest (i : Nat) (items : List Json) : Honest (r.stmts i items) := .stmts (fun doc => (hr doc).honest) i items
  refine ⟨honest i items, fun place short full h => ?_⟩
  induction items generalizing i short full with
  | nil => exact h
  | cons item rest ih =>
    by_cases hfull : short.isFull = true
    · obtain ⟨es, hlog, -⟩ := honest i (item :: rest) place full
      rw [hlog, NodeLoader.stmts, if_pos hfull]
      exact h.pushAll_full (h.isFull_iff.mp hfull) es
    · have hopen : full.isFull = false := ErrorLog.isFull_of_capacity_eq_none h.unlimited
      rw [NodeLoader.stmts, NodeLoader.stmts, if_neg hfull, hopen]
      exact ih (i + 1) _ _ (((hr item).within (.index i)).keeps place h)

/-- The ways of putting loaders together keep what the two logs have in common. -/
theorem closed (k : Nat) : Closed (CutsOff k) :=
  ⟨pure, fail, map, seq, within, node, stmts⟩

end CutsOff

end Load

namespace Program

/-- The logs of the two loads of a document. -/
theorem cutAt_loadWith (k : Nat) (doc : Json) : (loadWith (some k) doc).log.CutAt k (loadWith none doc).log := by
  cases doc with
  | array items =>
    exact (Load.CutsOff.stmts ((Load.CutsOff.closed k).loader (Json.array items).depth).stmt 0 items).keeps ⟨[], none⟩ (.empty k)
  | _ => exact (ErrorLog.CutAt.empty k).push _

/-- What a document is accepted with does not depend on how many errors are kept, if any are. -/
theorem program_loadWith_eq {k k' : Option Nat} (hk : (ErrorLog.empty k).isFull = false)
    (hk' : (ErrorLog.empty k').isFull = false) (doc : Json) : (loadWith k doc).program = (loadWith k' doc).program := by
  cases h : doc.read .block with
  | some program => rw [loadWith_of_read_eq_some hk h, loadWith_of_read_eq_some hk' h]
  | none => rw [(loadWith_of_read_eq_none hk h).1, (loadWith_of_read_eq_none hk' h).1]

end Program

/-- What loading a document with room for `k` errors gives, beside what loading it gives when all errors are kept: the first `k` of
them are kept, all are counted up to `k` and from there on at least `k` and no more than there are, and the same documents are
accepted with the same programs. -/
structure LoadResult.Truncates (k : Nat) (short full : LoadResult) : Prop where
  counted : full.log.total = full.log.errors.length
  errors : short.log.errors = full.log.errors.take (min k full.log.errors.length)
  length : short.log.errors.length = min k short.log.total
  total_eq : full.log.errors.length ≤ k → short.log.total = full.log.errors.length
  total_between : k < full.log.errors.length → k ≤ short.log.total ∧ short.log.total ≤ full.log.errors.length
  program : short.program = full.program
  accepted : ∀ program, short.toExcept = .ok program ↔ full.toExcept = .ok program

/-- Results with the same program are accepted together, if both logs have errors or none has. -/
theorem LoadResult.toExcept_eq_ok_iff {short full : LoadResult} (hprogram : short.program = full.program)
    (herrors : short.log.hasErrors = full.log.hasErrors) (program : Program) :
    short.toExcept = .ok program ↔ full.toExcept = .ok program := by
  unfold toExcept
  rw [hprogram, herrors]
  cases full.program with
  | none => exact ⟨nofun, nofun⟩
  | some p => cases full.log.hasErrors <;> simp

/-- The limit of the log only cuts it off: with room for twenty errors a document loads as it does without a limit, up to what the
log leaves out after them. -/
theorem load_limit_truncates (doc : Json) :
    (Program.loadWith (some ErrorLog.limit) doc).Truncates 20 (Program.loadWith none doc) := by
  have hcut := Program.cutAt_loadWith 20 doc
  have hprogram : (Program.loadWith (some 20) doc).program = (Program.loadWith none doc).program :=
    Program.program_loadWith_eq rfl rfl doc
  have hcounted := hcut.counted
  have hle := hcut.total_le
  have hge := hcut.le_total
  have hlength : (Program.loadWith (some 20) doc).log.errors.length = min 20 (Program.loadWith none doc).log.errors.length := by
    rw [hcut.errors, List.length_take]
  have hsome : (Program.loadWith (some 20) doc).log.hasErrors = (Program.loadWith none doc).log.hasErrors := by
    simp only [ErrorLog.hasErrors, decide_eq_decide]
    omega
  change LoadResult.Truncates 20 (Program.loadWith (some 20) doc) (Program.loadWith none doc)
  refine ⟨hcounted, ?_, by omega, by omega, by omega, hprogram, LoadResult.toExcept_eq_ok_iff hprogram hsome⟩
  rw [hcut.errors]
  exact List.take_eq_take_min

/-- A list with more bad entries than the log keeps, and a bad instruction after it. -/
def crowdedDoc : Json :=
  .array [.object [("type", .string "list"), ("values", .array (List.replicate 25 .null))], .null]

/-- The list is read to its end, the instruction after it is not: 25 errors are counted where there are 26. -/
theorem load_limit_truncates_crowdedDoc :
    20 < (Program.loadWith none crowdedDoc).log.errors.length ∧
    (Program.loadWith (some ErrorLog.limit) crowdedDoc).log.total = 25 ∧
    20 ≤ (Program.loadWith (some ErrorLog.limit) crowdedDoc).log.total ∧
    (Program.loadWith (some ErrorLog.limit) crowdedDoc).log.total ≤ (Program.loadWith none crowdedDoc).log.errors.length :=
  ⟨by decide +kernel, by decide +kernel, (load_limit_truncates crowdedDoc).total_between (by decide +kernel)⟩

end NodeScript
