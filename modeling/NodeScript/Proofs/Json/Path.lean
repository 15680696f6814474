import NodeScript.Json.Reader
import NodeScript.Load.Error

/-!
# Paths in documents

What a path of keys and indices leads to, as a function (`Json.get?`) and as a relation (`Json.Resolves`). They differ only where
an object has a key twice: the function takes the first of its values, the relation any. The documents that texts hold have no such
objects (`Json.distinct_of_parse?`), and on them a path that resolves to a value leads there (`Json.Resolves.get?`).
-/

namespace NodeScript

namespace Json

/-- The value at the end of a path: an index leads into an array, a key into an object. -/
def get? : Json → Path → Option Json
  | doc, [] => some doc
  | .array items, .index i :: rest => items[i]?.bind fun item => item.get? rest
  | .object members, .key name :: rest => (member? name members).bind fun value => value.get? rest
  | _, _ :: _ => none

/-- A path leads from a document to a value in it. -/
inductive Resolves (root : Json) : Path → Json → Prop where
  | root : Resolves root [] root
  | item {path : Path} {items : List Json} {i : Nat} {item : Json} (above : Resolves root path (.array items))
      (hitem : items[i]? = some item) : Resolves root (path ++ [.index i]) item
  | member {path : Path} {members : List (String × Json)} {name : String} {value : Json}
      (above : Resolves root path (.object members)) (hmem : (name, value) ∈ members) : Resolves root (path ++ [.key name]) value

/-- No object in a document has a key twice. -/
inductive Distinct : Json → Prop where
  | null : Distinct .null
  | bool (b : Bool) : Distinct (.bool b)
  | int (n : Int) : Distinct (.int n)
  | float (x : Float) : Distinct (.float x)
  | string (s : String) : Distinct (.string s)
  | array {items : List Json} (all : ∀ item ∈ items, Distinct item) : Distinct (.array items)
  | object {members : List (String × Json)} (keys : (members.map Prod.fst).Nodup) (all : ∀ m ∈ members, Distinct m.2) :
      Distinct (.object members)

/-! ## Following a path -/

/-- A path that goes further is followed from where the first part leads. -/
theorem get?_append (doc : Json) (path path' : Path) : doc.get? (path ++ path') = (doc.get? path).bind fun v => v.get? path' := by
  induction path generalizing doc with
  | nil =>
    rw [List.nil_append, get?]
    rfl
  | cons segment rest ih =>
    cases doc with
    | array items =>
      cases segment with
      | index i => cases h : items[i]? <;> simp [get?, h, ih]
      | key name => rfl
    | object members =>
      cases segment with
      | index i => rfl
      | key name => cases h : member? name members <;> simp [get?, h, ih]
    | _ => cases segment <;> rfl

/-- Among distinct keys, the value of a key is found. -/
theorem member?_eq_of_mem {members : List (String × Json)} (hkeys : (members.map Prod.fst).Nodup) {name : String} {value : Json}
    (h : (name, value) ∈ members) : member? name members = some value := by
  obtain ⟨before, after, rfl⟩ := List.append_of_mem h
  refine List.lookup_eq_some_iff.mpr ⟨before, after, rfl, fun m hm => ?_⟩
  rw [List.map_append, List.map_cons, List.nodup_append] at hkeys
  simpa using (hkeys.2.2 m.1 (List.mem_map_of_mem hm) name (.head _)).symm

theorem member?_eq_none {members : List (String × Json)} {name : String} (h : name ∉ members.map Prod.fst) :
    member? name members = none := by
  rw [member?, List.lookup_eq_none_iff]
  intro m hm
  have hne : name ≠ m.1 := by
    rintro rfl
    exact h (List.mem_map_of_mem hm)
  simpa using hne

/-- In a document without repeated keys, a path that resolves to a value leads to it. -/
theorem Resolves.get? {root value : Json} {path : Path} (h : root.Resolves path value) (hroot : root.Distinct) :
    root.get? path = some value := by
  have both : root.get? path = some value ∧ value.Distinct := by
    induction h with
    | root => exact ⟨by rw [Json.get?], hroot⟩
    | item _ hitem ih =>
      obtain ⟨hget, hdistinct⟩ := ih
      cases hdistinct with
      | array all =>
        refine ⟨?_, all _ (List.mem_of_getElem? hitem)⟩
        simp [get?_append, hget, Json.get?, hitem]
    | member _ hmem ih =>
      obtain ⟨hget, hdistinct⟩ := ih
      cases hdistinct with
      | object keys all =>
        refine ⟨?_, all _ hmem⟩
        simp [get?_append, hget, Json.get?, member?_eq_of_mem keys hmem]
  exact both.1

/-! ## Documents of texts -/

/-- A property that a document has if its parts have it, given that the keys of an object are distinct, and that every number
has that can be written. -/
structure Composed (P : Json → Prop) : Prop where
  null : P .null
  bool : ∀ b, P (.bool b)
  number : ∀ {n : WrittenNumber} {doc : Json}, n.document? = some doc → P doc
  string : ∀ s, P (.string s)
  array : ∀ {items : List Json}, (∀ item ∈ items, P item) → P (.array items)
  object : ∀ {members : List (String × Json)}, (members.map Prod.fst).Nodup → (∀ m ∈ members, P m.2) → P (.object members)

section

variable {P : Json → Prop} {members : List (String × Json)}

/-- Setting a member keeps the keys distinct. -/
theorem nodup_setMember (keys : (members.map Prod.fst).Nodup) (name : String) (value : Json) :
    ((setMember members name value).map Prod.fst).Nodup := by
  unfold setMember
  split
  · rw [List.map_map, List.map_congr_left (g := Prod.fst)]
    · exact keys
    · intro m _
      simp only [Function.comp_apply]
      split <;> rfl
  · rename_i habsent
    rw [List.map_append, List.map_singleton]
    refine List.nodup_append.mpr ⟨keys, List.pairwise_singleton _ _, ?_⟩
    rintro key hkey _ hname rfl
    obtain ⟨m, hm, rfl⟩ := List.mem_map.mp hkey
    refine habsent (List.any_eq_true.mpr ⟨m, hm, ?_⟩)
    rw [List.mem_singleton.mp hname]
    exact beq_self_eq_true _

/-- After a member is set, the values are that one and those from before. -/
theorem forall_setMember (all : ∀ m ∈ members, P m.2) (name : String) {value : Json} (hvalue : P value) :
    ∀ m ∈ setMember members name value, P m.2 := by
  intro m hm
  unfold setMember at hm
  split at hm
  · obtain ⟨m', hm', rfl⟩ := List.mem_map.mp hm
    dsimp only
    split
    · exact hvalue
    · exact all m' hm'
  · rcases List.mem_append.mp hm with hm | hm
    · exact all m hm
    · rw [List.mem_singleton.mp hm]
      exact hvalue

end

end Json

namespace Written

variable {P : Json → Prop}

mutual

/-- A document that is written has the property; by induction on what is written. -/
theorem holds_document? (hP : Json.Composed P) {room : Nat} {w : Written} {doc : Json} (h : w.document? room = some doc) : P doc := by
  match w, room with
  | .null, _ =>
    cases h
    exact hP.null
  | .bool b, _ =>
    cases h
    exact hP.bool b
  | .number n, _ => exact hP.number h
  | .string text, _ =>
    obtain ⟨s, -, rfl⟩ := Option.map_eq_some_iff.mp h
    exact hP.string s
  | .array items, 0 | .object members, 0 => cases h
  | .array items, room + 1 =>
    obtain ⟨docs, hdocs, rfl⟩ := Option.map_eq_some_iff.mp h
    exact hP.array (holds_documents? hP hdocs)
  | .object members, room + 1 =>
    obtain ⟨members', hmembers, rfl⟩ := Option.map_eq_some_iff.mp h
    obtain ⟨keys, all⟩ := holds_members? hP hmembers List.nodup_nil nofun
    exact hP.object keys all

/-- Documents that are written in an array have the property. -/
theorem holds_documents? (hP : Json.Composed P) {room : Nat} {ws : List Written} {docs : List Json}
    (h : documents? room ws = some docs) : ∀ doc ∈ docs, P doc := by
  match ws with
  | [] =>
    cases h
    exact nofun
  | w :: rest =>
    obtain ⟨doc, hdoc, h⟩ := Option.bind_eq_some_iff.mp h
    obtain ⟨docs, hdocs, h⟩ := Option.bind_eq_some_iff.mp h
    cases h
    exact List.forall_mem_cons.mpr ⟨holds_document? hP hdoc, holds_documents? hP hdocs⟩

/-- The members of an object that is written have different names, and their values have the property. -/
theorem holds_members? (hP : Json.Composed P) {room : Nat} {ws : List (Option String × Written)} {before members : List (String × Json)}
    (h : members? room before ws = some members) (keys : (before.map Prod.fst).Nodup) (all : ∀ m ∈ before, P m.2) :
    (members.map Prod.fst).Nodup ∧ ∀ m ∈ members, P m.2 := by
  match ws with
  | [] =>
    cases h
    exact ⟨keys, all⟩
  | (name, w) :: rest =>
    obtain ⟨name, -, h⟩ := Option.bind_eq_some_iff.mp h
    obtain ⟨value, hvalue, h⟩ := Option.bind_eq_some_iff.mp h
    exact holds_members? hP h (Json.nodup_setMember keys name value) (Json.forall_setMember all name (holds_document? hP hvalue))

end

end Written

namespace Json

/-- What documents have if their parts have it holds of the document that a text holds. -/
theorem Composed.of_parse? {P : Json → Prop} (hP : Composed P) {source : String} {doc : Json} (h : parse? source = some doc) :
    P doc := by
  obtain ⟨w, -, hdoc⟩ := Option.bind_eq_some_iff.mp h
  exact Written.holds_document? hP hdoc

/-- A number has no keys. -/
theorem distinct_number {n : WrittenNumber} {doc : Json} (h : n.document? = some doc) : doc.Distinct := by
  unfold WrittenNumber.document? at h
  split at h
  · cases h
    exact .int _
  · split at h
    · cases h
      exact .float _
    · cases h

/-- The document that a text holds has no object with a key twice. -/
theorem distinct_of_parse? {source : String} {doc : Json} (h : parse? source = some doc) : doc.Distinct :=
  Composed.of_parse? ⟨.null, .bool, distinct_number, .string, .array, .object⟩ h

end Json

end NodeScript
