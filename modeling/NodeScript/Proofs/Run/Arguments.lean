import Mathlib.Data.List.Induction
import Mathlib.Data.List.Perm.Basic
import NodeScript.Proofs.Run.Scope

/-!
# The arguments of a call

A call binds the arguments that are given by name first, each of which takes its parameter away, and then the other arguments to
the parameters that are left. Here is what that comes to: which arguments a function takes (`Takes`), what the environment of its
body binds (`Env.BindsArguments`), and which argument is at fault when it does not take them (`FirstRefused`).
-/

namespace NodeScript

/-! ## Binding several names -/

namespace Env

theorem bindAll_cons (env : Env) (name : String) (s : SlotId) (rest : List (String × SlotId)) :
    env.bindAll ((name, s) :: rest) = (env.bind name s).bindAll rest := rfl

/-- Names that are not among those that are bound stand for what they stood for before. -/
theorem get?_bindAll_of_not_mem (env : Env) {bindings : List (String × SlotId)} {name : String}
    (h : name ∉ bindings.map Prod.fst) : (env.bindAll bindings).get? name = env.get? name := by
  induction bindings generalizing env with
  | nil => rfl
  | cons b rest ih =>
    simp only [List.map_cons, List.mem_cons, not_or] at h
    rw [bindAll_cons, ih _ h.2, get?_bind, if_neg h.1]

/-- Among different names, each is bound to its own slot. -/
theorem get?_bindAll_of_mem (env : Env) {bindings : List (String × SlotId)} (hnames : (bindings.map Prod.fst).Nodup)
    {b : String × SlotId} (hb : b ∈ bindings) : (env.bindAll bindings).get? b.1 = some b.2 := by
  induction bindings generalizing env with
  | nil => simp at hb
  | cons c rest ih =>
    simp only [List.map_cons, List.nodup_cons] at hnames
    rw [bindAll_cons]
    rcases List.mem_cons.mp hb with rfl | hb
    · rw [get?_bindAll_of_not_mem _ hnames.1, get?_bind, if_pos rfl]
    · exact ih _ hnames.2 hb

end Env

/-! ## Arguments that a function takes -/

/-- The parameters that are left when some are given by name, in the order in which they are declared. -/
def remaining (params : List String) (kwargs : List (String × SlotId)) : List String :=
  params.filter fun p => p ∉ kwargs.map Prod.fst

/-- Arguments by name that a function accepts: no name is given twice, and every name is a parameter. -/
structure Accepts (params : List String) (kwargs : List (String × SlotId)) : Prop where
  distinct : (kwargs.map Prod.fst).Nodup
  known : ∀ name ∈ kwargs.map Prod.fst, name ∈ params

/-- Arguments that a function takes: it accepts those given by name, and there are as many in all as there are parameters. -/
structure Takes (params : List String) (args : List SlotId) (kwargs : List (String × SlotId)) : Prop extends
    Accepts params kwargs where
  count : args.length + kwargs.length = params.length

/-- The first argument by name that a function refuses: the name is no parameter, or was given before. -/
def FirstRefused (params : List String) (kwargs : List (String × SlotId)) (name : String) : Prop :=
  ∃ before s after, kwargs = before ++ (name, s) :: after ∧ Accepts params before ∧
    (name ∉ params ∨ name ∈ before.map Prod.fst)

/-- The environment of a function's body: an argument by name is bound to its own parameter, the other arguments are bound in order
to the parameters that are left, and every name that is no parameter stands for what it stands for at the caller. -/
structure Env.BindsArguments (params : List String) (args : List SlotId) (kwargs : List (String × SlotId)) (env caller : Env) :
    Prop where
  named : ∀ b ∈ kwargs, env.get? b.1 = some b.2
  positional : (remaining params kwargs).map env.get? = args.map some
  other : ∀ name ∉ params, env.get? name = caller.get? name

variable {params : List String} {args : List SlotId} {kwargs : List (String × SlotId)}

instance : Decidable (Accepts params kwargs) :=
  decidable_of_iff ((kwargs.map Prod.fst).Nodup ∧ ∀ name ∈ kwargs.map Prod.fst, name ∈ params)
    ⟨fun h => ⟨h.1, h.2⟩, fun h => ⟨h.distinct, h.known⟩⟩

instance : Decidable (Takes params args kwargs) :=
  decidable_of_iff (Accepts params kwargs ∧ args.length + kwargs.length = params.length)
    ⟨fun h => ⟨h.1, h.2⟩, fun h => ⟨h.toAccepts, h.count⟩⟩

/-- The first argument by name takes its parameter away from the rest. -/
theorem remaining_cons (hparams : params.Nodup) (name : String) (s : SlotId) (rest : List (String × SlotId)) :
    remaining params ((name, s) :: rest) = remaining (params.erase name) rest := by
  unfold remaining
  rw [hparams.erase_eq_filter, List.filter_filter]
  apply List.filter_congr
  intro p _
  rw [Bool.eq_iff_iff]
  simp only [List.map_cons, List.mem_cons, not_or, decide_eq_true_eq, Bool.and_eq_true, bne_iff_ne]
  exact And.comm

/-- What is left of an accepted list of arguments is accepted by what is left of the parameters. -/
theorem Accepts.tail {name : String} {s : SlotId} {rest : List (String × SlotId)} (h : Accepts params ((name, s) :: rest)) :
    name ∈ params ∧ Accepts (params.erase name) rest := by
  obtain ⟨hdistinct, hknown⟩ := h
  simp only [List.map_cons, List.nodup_cons] at hdistinct
  refine ⟨hknown name (by simp), hdistinct.2, ?_⟩
  intro other hother
  have hne : other ≠ name := by
    rintro rfl
    exact hdistinct.1 hother
  exact (List.mem_erase_of_ne hne).mpr (hknown other (by simp [hother]))

/-- The parameters that are left and the arguments by name make up all parameters. -/
theorem Accepts.length_remaining (hparams : params.Nodup) (h : Accepts params kwargs) :
    (remaining params kwargs).length + kwargs.length = params.length := by
  induction kwargs generalizing params with
  | nil => simp [remaining]
  | cons b rest ih =>
    obtain ⟨name, s⟩ := b
    obtain ⟨hmem, hrest⟩ := h.tail
    have hlength := ih (hparams.erase name) hrest
    have hpos := List.length_pos_of_mem hmem
    rw [List.length_erase_of_mem hmem] at hlength
    rw [remaining_cons hparams, List.length_cons]
    omega

/-- A function either accepts the arguments by name, or there is a first one that it refuses. -/
theorem accepts_or_firstRefused (params : List String) (kwargs : List (String × SlotId)) :
    Accepts params kwargs ∨ ∃ name, FirstRefused params kwargs name := by
  induction kwargs using List.reverseRecOn with
  | nil => exact .inl ⟨by simp, by simp⟩
  | append_singleton before b ih =>
    obtain ⟨name, s⟩ := b
    rcases ih with haccepts | ⟨refused, before', t, after, rfl, hfirst⟩
    · by_cases hname : name ∉ params ∨ name ∈ before.map Prod.fst
      · exact .inr ⟨name, before, s, [], rfl, haccepts, hname⟩
      · simp only [not_or, not_not] at hname
        refine .inl ⟨?_, ?_⟩
        · rw [List.map_append, List.nodup_append]
          refine ⟨haccepts.distinct, by simp, ?_⟩
          rintro other hother _ hlast rfl
          simp only [List.map_cons, List.map_nil, List.mem_singleton] at hlast
          exact hname.2 (hlast ▸ hother)
        · intro other hother
          simp only [List.map_append, List.map_cons, List.map_nil, List.mem_append, List.mem_singleton] at hother
          rcases hother with hother | rfl
          · exact haccepts.known other hother
          · exact hname.1
    · exact .inr ⟨refused, before', t, after ++ [(name, s)], by simp, hfirst⟩

/-! ## What a call binds -/

namespace Interp

/-- Arguments that are accepted are bound one after the other, and leave the other parameters. -/
theorem bindNamed_of_accepts (hparams : params.Nodup) (h : Accepts params kwargs) (env : Env) :
    bindNamed kwargs params env = .ok (remaining params kwargs, env.bindAll kwargs) := by
  induction kwargs generalizing params env with
  | nil => simp [bindNamed, remaining, Env.bindAll]
  | cons b rest ih =>
    obtain ⟨name, s⟩ := b
    obtain ⟨hmem, hrest⟩ := h.tail
    have hcontains : params.contains name = true := by simpa using hmem
    rw [bindNamed, if_pos hcontains, ih (hparams.erase name) hrest, remaining_cons hparams, Env.bindAll_cons]

/-- Arguments by name are bound one after the other, up to the first that is refused. -/
theorem bindNamed_append (before after : List (String × SlotId)) (params : List String) (env : Env) :
    bindNamed (before ++ after) params env =
      (bindNamed before params env).bind fun left => bindNamed after left.1 left.2 := by
  induction before generalizing params env with
  | nil => rfl
  | cons b rest ih =>
    obtain ⟨name, s⟩ := b
    rw [List.cons_append, bindNamed, bindNamed]
    split
    · exact ih _ _
    · rfl

/-- The first argument that is refused is the one at fault. -/
theorem bindNamed_of_firstRefused (hparams : params.Nodup) {name : String} (h : FirstRefused params kwargs name) (env : Env) :
    bindNamed kwargs params env = .error (.unknownParameter name) := by
  obtain ⟨before, s, after, rfl, hbefore, hname⟩ := h
  have hleft : (remaining params before).contains name = false := by
    rcases hname with hname | hname
    · simp [remaining, hname]
    · simp only [remaining, List.contains_eq_mem, decide_eq_false_iff_not, List.mem_filter, decide_eq_true_eq, not_and, not_not]
      exact fun _ => hname
  rw [bindNamed_append, bindNamed_of_accepts hparams hbefore]
  show bindNamed ((name, s) :: after) (remaining params before) (env.bindAll before) = _
  rw [bindNamed, hleft, if_neg Bool.false_ne_true]

/-- When the arguments by name are accepted, the others have to be as many as the parameters that are left. -/
theorem callEnv_of_accepts {f : Func} (hparams : f.params.Nodup) (h : Accepts f.params kwargs) (heap : Heap)
    (args : List SlotId) (caller : Env) :
    callEnv heap f args kwargs caller =
      if (remaining f.params kwargs).length = args.length then
        .ok ((caller.bindAll kwargs).bindAll ((remaining f.params kwargs).zip args))
      else .error (.argumentCount (remaining f.params kwargs).length (args.map fun s => heap.describe (heap.get s))) := by
  rw [callEnv, bindNamed_of_accepts hparams h]
  rfl

/-- The first argument by name that is refused is the one at fault. -/
theorem callEnv_of_firstRefused {f : Func} (hparams : f.params.Nodup) {name : String}
    (h : FirstRefused f.params kwargs name) (heap : Heap) (args : List SlotId) (caller : Env) :
    callEnv heap f args kwargs caller = .error (.unknownParameter name) := by
  rw [callEnv, bindNamed_of_firstRefused hparams h]
  rfl

end Interp

/-- Arguments that a function takes are all bound, each to the parameter it is meant for. -/
theorem Takes.bindsArguments (hparams : params.Nodup) (h : Takes params args kwargs) (caller : Env) :
    ((caller.bindAll kwargs).bindAll ((remaining params kwargs).zip args)).BindsArguments params args kwargs caller := by
  have hlength : (remaining params kwargs).length = args.length := by
    have hleft := h.toAccepts.length_remaining hparams
    have hcount := h.count
    omega
  have hkeys : ((remaining params kwargs).zip args).map Prod.fst = remaining params kwargs :=
    List.map_fst_zip (Nat.le_of_eq hlength)
  have hslots : ((remaining params kwargs).zip args).map Prod.snd = args :=
    List.map_snd_zip (Nat.le_of_eq hlength.symm)
  have hdistinct : (((remaining params kwargs).zip args).map Prod.fst).Nodup := by
    rw [hkeys]
    exact hparams.filter _
  generalize hpairs : (remaining params kwargs).zip args = pairs at *
  refine ⟨?_, ?_, ?_⟩
  · intro b hb
    have hname : b.1 ∈ kwargs.map Prod.fst := List.mem_map_of_mem hb
    have hother : b.1 ∉ pairs.map Prod.fst := by
      rw [hkeys]
      simp [remaining, hname]
    rw [Env.get?_bindAll_of_not_mem _ hother, Env.get?_bindAll_of_mem _ h.distinct hb]
  · have hbound : ∀ b ∈ pairs, ((caller.bindAll kwargs).bindAll pairs).get? b.1 = some b.2 :=
      fun b hb => Env.get?_bindAll_of_mem _ hdistinct hb
    calc (remaining params kwargs).map ((caller.bindAll kwargs).bindAll pairs).get?
        = pairs.map fun b => ((caller.bindAll kwargs).bindAll pairs).get? b.1 := by
          rw [← hkeys, List.map_map]
          rfl
      _ = pairs.map fun b => some b.2 := List.map_congr_left hbound
      _ = args.map some := by
          rw [← hslots, List.map_map]
          rfl
  · intro name hname
    have hnamed : name ∉ kwargs.map Prod.fst := fun hmem => hname (h.known name hmem)
    have hother : name ∉ pairs.map Prod.fst := by
      rw [hkeys]
      exact fun hmem => hname (List.mem_of_mem_filter hmem)
    rw [Env.get?_bindAll_of_not_mem _ hother, Env.get?_bindAll_of_not_mem _ hnamed]

/-- The order of the arguments by name makes no difference to what is bound. -/
theorem Env.BindsArguments.get?_eq {kwargs' : List (String × SlotId)} {env env' caller : Env} (hperm : kwargs.Perm kwargs')
    (h : env.BindsArguments params args kwargs caller) (h' : env'.BindsArguments params args kwargs' caller) (name : String) :
    env'.get? name = env.get? name := by
  have hnames : ∀ p, p ∈ kwargs'.map Prod.fst ↔ p ∈ kwargs.map Prod.fst := fun p => (hperm.map Prod.fst).symm.mem_iff
  have hleft : remaining params kwargs' = remaining params kwargs := by
    simp only [remaining, hnames]
  by_cases hnamed : name ∈ kwargs.map Prod.fst
  · obtain ⟨b, hb, rfl⟩ := List.mem_map.mp hnamed
    rw [h.named b hb, h'.named b (hperm.mem_iff.mp hb)]
  · by_cases hparam : name ∈ params
    · have hmem : name ∈ remaining params kwargs := List.mem_filter.mpr ⟨hparam, by simpa using hnamed⟩
      have hmaps : (remaining params kwargs).map env'.get? = (remaining params kwargs).map env.get? := by
        rw [h.positional, ← hleft, h'.positional]
      exact List.map_inj_left.mp hmaps name hmem
    · rw [h.other name hparam, h'.other name hparam]

/-- The order of the arguments that are given by name does not matter to whether a function takes them. -/
theorem Takes.perm {kwargs' : List (String × SlotId)} (h : Takes params args kwargs) (hperm : kwargs.Perm kwargs') :
    Takes params args kwargs' := by
  have hnames := hperm.map Prod.fst
  refine ⟨⟨hnames.nodup_iff.mp h.distinct, ?_⟩, ?_⟩
  · intro name hname
    exact h.known name (hnames.mem_iff.mpr hname)
  · rw [← hperm.length_eq]
    exact h.count

/-! ## Calls -/

/-- A call that runs the body of its function. The body starts in an environment of its own, one call deeper, with the heap, the
input and the output of the caller. When it is over, the environment and the depth are those of the caller again, and the call gives
what the body returned, or a new slot with void; if the body has no result, neither has the call. -/
structure Interp.RunsBody (r : Interp) (f : Func) (env : Env) (m : Machine) (call : Exec SlotId) : Prop where
  returned : ∀ s m', r.block f.code ⟨env, m.heap, m.source, m.sink, m.depth + 1⟩ = .ok (.returned s) m' →
    call m = .ok s ⟨m.env, m'.heap, m'.source, m'.sink, m.depth⟩
  completed : ∀ m', r.block f.code ⟨env, m.heap, m.source, m.sink, m.depth + 1⟩ = .ok .completed m' →
    call m = Exec.alloc .void ⟨m.env, m'.heap, m'.source, m'.sink, m.depth⟩
  halted : ∀ halt m', r.block f.code ⟨env, m.heap, m.source, m.sink, m.depth + 1⟩ = .error halt m' →
    call m = .error halt ⟨m.env, m'.heap, m'.source, m'.sink, m.depth⟩

namespace Interp

variable {limit : Nat} {m : Machine} {f : Func}

/-- What a call does once its arguments are bound. -/
theorem RunsBody.of_eq {r : Interp} {env : Env} {call : Exec SlotId} (h : call m = r.runBody f env m) :
    r.RunsBody f env m call := by
  have hcall : call m = match enter env (r.block f.code) m with
      | .ok (.returned s) m₁ => .ok s m₁
      | .ok .completed m₁ => Exec.alloc .void m₁
      | .error halt m₁ => .error halt m₁ := by
    rw [h, runBody, Exec.bind_apply]
    rcases enter env (r.block f.code) m with ⟨_ | s, m₁⟩ | ⟨halt, m₁⟩ <;> rfl
  refine ⟨?_, ?_, ?_⟩
  · intro s m' hbody
    rw [hcall]
    simp only [enter, hbody]
  · intro m' hbody
    rw [hcall]
    simp only [enter, hbody]
  · intro halt m' hbody
    rw [hcall]
    simp only [enter, hbody]

/-- Below the limit, a call binds its arguments and runs the body, or fails in the state in which it was made. -/
theorem invoke_of_depth_lt (hdepth : m.depth < limit) (r : Interp) (f : Func) (args : List SlotId)
    (kwargs : List (String × SlotId)) :
    invoke limit r f args kwargs m = match callEnv m.heap f args kwargs m.env with
      | .ok env => r.runBody f env m
      | .error fault => .error (.failed ⟨fault, none⟩) m := by
  show (if limit ≤ m.depth then _ else _ : Exec SlotId) m = _
  rw [if_neg (Nat.not_le_of_lt hdepth), Exec.bind_apply]
  cases callEnv m.heap f args kwargs m.env <;> rfl

/-- A call with arguments that the function takes runs the body in an environment that binds them. -/
theorem invoke_of_takes (hdepth : m.depth < limit) (hparams : f.params.Nodup) (h : Takes f.params args kwargs) :
    ∃ env : Env, env.BindsArguments f.params args kwargs m.env ∧
      ∀ r : Interp, r.RunsBody f env m (invoke limit r f args kwargs) := by
  have hlength : (remaining f.params kwargs).length = args.length := by
    have hleft := h.toAccepts.length_remaining hparams
    have hcount := h.count
    omega
  refine ⟨_, h.bindsArguments hparams m.env, ?_⟩
  intro r
  apply RunsBody.of_eq
  rw [invoke_of_depth_lt hdepth, callEnv_of_accepts hparams h.toAccepts, if_pos hlength]

/-- A call with arguments that the function does not take fails, and nothing else happens. -/
theorem invoke_of_not_takes (hdepth : m.depth < limit) (hparams : f.params.Nodup) (h : ¬Takes f.params args kwargs) :
    ∃ fault, (∀ r, invoke limit r f args kwargs m = .error (.failed ⟨fault, none⟩) m) ∧
      ((∃ name, FirstRefused f.params kwargs name ∧ fault = .unknownParameter name) ∨
        Accepts f.params kwargs ∧ fault =
          .argumentCount (f.params.length - kwargs.length) (args.map fun s => m.heap.describe (m.heap.get s))) := by
  rcases accepts_or_firstRefused f.params kwargs with haccepts | ⟨name, hname⟩
  · have hleft := haccepts.length_remaining hparams
    have hlength : (remaining f.params kwargs).length ≠ args.length := by
      intro heq
      exact h ⟨haccepts, by omega⟩
    have hexpected : f.params.length - kwargs.length = (remaining f.params kwargs).length := by omega
    refine ⟨_, ?_, .inr ⟨haccepts, rfl⟩⟩
    intro r
    rw [invoke_of_depth_lt hdepth, callEnv_of_accepts hparams haccepts, if_neg hlength, hexpected]
  · refine ⟨_, ?_, .inl ⟨name, hname, rfl⟩⟩
    intro r
    rw [invoke_of_depth_lt hdepth, callEnv_of_firstRefused hparams hname]

end Interp

/-- What a call does with its arguments, below the limit and for a function whose parameters are all different. If the function
takes the arguments, then its body is run, with the caller's heap, input and output and one call deeper, in an environment that
binds each argument by name to its parameter, the other arguments in order to the parameters that are left, and nothing else anew;
and any other order of the arguments by name gives an environment that binds the same. If it does not take them, the call fails in
the state in which it was made, whatever the body would do: with the first name that is no parameter or was given before, and, if
there is none, with the number of parameters that the arguments by name leave. -/
theorem call_binds_arguments {limit : Nat} {m : Machine} {f : Func} (hdepth : m.depth < limit) (hparams : f.params.Nodup)
    (args : List SlotId) (kwargs : List (String × SlotId)) :
    (Takes f.params args kwargs → ∃ env : Env, env.BindsArguments f.params args kwargs m.env ∧
      (∀ r : Interp, r.RunsBody f env m (Interp.invoke limit r f args kwargs)) ∧
      ∀ kwargs', kwargs.Perm kwargs' → ∃ env' : Env, (∀ name, env'.get? name = env.get? name) ∧
        ∀ r : Interp, r.RunsBody f env' m (Interp.invoke limit r f args kwargs')) ∧
    (¬Takes f.params args kwargs → ∃ fault,
      (∀ r, Interp.invoke limit r f args kwargs m = .error (.failed ⟨fault, none⟩) m) ∧
      ((∃ name, FirstRefused f.params kwargs name ∧ fault = .unknownParameter name) ∨
        Accepts f.params kwargs ∧ fault =
          .argumentCount (f.params.length - kwargs.length) (args.map fun s => m.heap.describe (m.heap.get s)))) := by
  refine ⟨?_, Interp.invoke_of_not_takes hdepth hparams⟩
  intro htakes
  obtain ⟨env, hbinds, hruns⟩ := Interp.invoke_of_takes hdepth hparams htakes
  refine ⟨env, hbinds, hruns, ?_⟩
  intro kwargs' hperm
  obtain ⟨env', hbinds', hruns'⟩ := Interp.invoke_of_takes hdepth hparams (htakes.perm hperm)
  exact ⟨env', hbinds.get?_eq hperm hbinds', hruns'⟩

/-- A function of three parameters. -/
def threeParams : Func := ⟨0, ["a", "b", "c"], [.ret none (some (.getVar none "c"))]⟩

/-- A caller with a variable of its own and one with the name of a parameter. -/
def callerOfThree : Machine := ⟨⟨[("b", 0), ("z", 3)]⟩, ⟨#[.int 10, .int 11, .int 12, .int 13], #[]⟩, ⟨[]⟩, .unlimited, 0⟩

/-- The middle parameter is given by name, so the two arguments go to the ones around it; given by name twice, it is at fault. -/
theorem threeParams_binds_arguments :
    (∃ env : Env, env.get? "a" = some 1 ∧ env.get? "b" = some 0 ∧ env.get? "c" = some 2 ∧ env.get? "z" = some 3 ∧
      ∀ r : Interp, r.RunsBody threeParams env callerOfThree (Interp.invoke 1 r threeParams [1, 2] [("b", 0)])) ∧
    ∀ r, Interp.invoke 1 r threeParams [1] [("b", 0), ("b", 2)] callerOfThree =
      .error (.failed ⟨.unknownParameter "b", none⟩) callerOfThree := by
  have hdepth : callerOfThree.depth < 1 := by decide
  have hparams : threeParams.params.Nodup := by decide
  constructor
  · obtain ⟨env, hbinds, hruns, -⟩ := (call_binds_arguments hdepth hparams [1, 2] [("b", 0)]).1 (by decide)
    have hleft : remaining threeParams.params [("b", 0)] = ["a", "c"] := by decide
    have hpositional := hbinds.positional
    rw [hleft] at hpositional
    simp only [List.map_cons, List.map_nil, List.cons.injEq, and_true] at hpositional
    refine ⟨env, hpositional.1, hbinds.named ("b", 0) (by simp), hpositional.2, ?_, hruns⟩
    rw [hbinds.other "z" (by decide)]
    rfl
  · obtain ⟨fault, hfails, hfault⟩ := (call_binds_arguments hdepth hparams [1] [("b", 0), ("b", 2)]).2 (by decide)
    have hrefused : fault = .unknownParameter "b" := by
      cases hfails .exhausted
      rfl
    rw [← hrefused]
    exact hfails

end NodeScript
