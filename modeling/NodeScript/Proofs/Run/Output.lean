import NodeScript.Proofs.Run.Simulation

/-!
# An output that takes only so many bytes

A run with an output that takes `n` bytes in all does the same as with one that takes everything, until a write does not fit. That
write keeps the bytes that fit, and the run ends there: it fails with the message of the output, and nothing is done any more, except
that the calls that are open give their callers' environment back. Two facts make this up. What is written with the one output is a
beginning of what is written with the other (`FailStop`, a property of steps); and the state that a failed write leaves is the
state in which the run came to it (`Refused`, by a simulation of the two runs).
-/

namespace NodeScript

/-! ## Bytes -/

namespace ByteArray

/-- The first bytes of two rows are those of the first one, if that has as many. -/
theorem extract_append_of_le {a b : ByteArray} {n : Nat} (h : n ≤ a.size) : (a ++ b).extract 0 n = a.extract 0 n := by
  rw [ByteArray.extract_append, Nat.sub_eq_zero_of_le h, Nat.zero_sub]
  simp

theorem extract_of_size_le {a : ByteArray} {n : Nat} (h : a.size ≤ n) : a.extract 0 n = a := by
  ext1
  simp [h]

/-- More bytes than the first row has are that row and the beginning of the second one. -/
theorem extract_append_of_size_le {a b : ByteArray} {n : Nat} (h : a.size ≤ n) :
    (a ++ b).extract 0 n = a ++ b.extract 0 (n - a.size) := by
  rw [ByteArray.extract_append, extract_of_size_le h, Nat.zero_sub]

end ByteArray

/-! ## Outputs with and without a limit -/

namespace Sink

/-- An output that takes `n` bytes in all. A write that does not fit fails with the message. -/
def limited (n : Nat) (refusal : String) : Sink :=
  ⟨ByteArray.empty, some n, refusal, none⟩

/-- An output that never fails. -/
structure Endless (s : Sink) : Prop where
  room : s.room = none
  flushFault : s.flushFault = none

/-- The same bytes in an output that takes `n` bytes in all. -/
def capped (n : Nat) (refusal : String) (s : Sink) : Sink :=
  ⟨s.written, some (n - s.written.size), refusal, none⟩

variable {s : Sink} {n : Nat} {refusal text : String}

/-- An output that never fails takes the whole text. -/
theorem write_of_endless (h : s.Endless) (text : String) :
    s.write text = (none, { s with written := s.written ++ text.toUTF8 }) := by
  obtain ⟨written, room, message, flushFault⟩ := s
  obtain ⟨rfl, rfl⟩ := h
  rfl

/-- A text that fits is written, with a limit as without. -/
theorem write_capped_of_le (h : s.written.size + text.toUTF8.size ≤ n) :
    (s.capped n refusal).write text = (none, capped n refusal { s with written := s.written ++ text.toUTF8 }) := by
  have hfits : text.toUTF8.size ≤ n - s.written.size := by omega
  simp only [capped, write, if_pos hfits, ByteArray.size_append, Nat.sub_sub]

/-- Of a text that does not fit as much is written as fits, and the write fails. -/
theorem write_capped_of_lt (hs : s.written.size ≤ n) (h : n < s.written.size + text.toUTF8.size) :
    (s.capped n refusal).write text = (some refusal, ⟨(s.written ++ text.toUTF8).extract 0 n, some 0, refusal, none⟩) := by
  have hfits : ¬text.toUTF8.size ≤ n - s.written.size := by omega
  simp only [capped, write, if_neg hfits, ByteArray.extract_append_of_size_le hs]

end Sink

/-- The same state with an output that takes `n` bytes in all. -/
def Machine.capped (n : Nat) (refusal : String) (m : Machine) : Machine :=
  { m with sink := m.sink.capped n refusal }

/-! ## What is written -/

/-- What a step writes from the state `m`, where the output never fails, and what it writes when the output takes `n` bytes in all:
the same in the same way if all fits, and else the first `n` bytes, and then it fails. -/
structure FailStop (n : Nat) (refusal : String) {α : Type} (x : Exec α) (m : Machine) : Prop where
  endless : (x.after m).sink.Endless
  grows : ∃ more, (x.after m).sink.written = m.sink.written ++ more
  fits : (x.after m).sink.written.size ≤ n → x (m.capped n refusal) = Outcome.onState (Machine.capped n refusal) (x m)
  cut : m.sink.written.size ≤ n → n < (x.after m).sink.written.size → ∃ span m', x (m.capped n refusal) =
    .error (.failed ⟨.stream refusal, span⟩) m' ∧ m'.sink.written = (x.after m).sink.written.extract 0 n

namespace FailStop

variable {n : Nat} {refusal : String} {α β : Type} {x y : Exec α} {m : Machine}

/-- Nothing that is written is taken back. -/
theorem size_le (h : FailStop n refusal x m) : m.sink.written.size ≤ (x.after m).sink.written.size := by
  obtain ⟨more, hmore⟩ := h.grows
  rw [hmore, ByteArray.size_append]
  omega

/-- A step that writes nothing. -/
theorem of_silent (hm : m.sink.Endless) (hsink : (x.after m).sink = m.sink)
    (heq : x (m.capped n refusal) = Outcome.onState (Machine.capped n refusal) (x m)) : FailStop n refusal x m where
  endless := by
    rw [hsink]
    exact hm
  grows := ⟨ByteArray.empty, by rw [hsink, ByteArray.append_empty]⟩
  fits _ := heq
  cut hle hlt := by
    rw [hsink] at hlt
    omega

/-- A step that does the same as another one with both outputs. -/
theorem congr (hy : FailStop n refusal y m) (h : x m = y m) (hcapped : x (m.capped n refusal) = y (m.capped n refusal)) :
    FailStop n refusal x m := by
  have hafter : x.after m = y.after m := by
    unfold Exec.after
    rw [h]
  refine ⟨?_, ?_, ?_, ?_⟩
  · rw [hafter]
    exact hy.endless
  · rw [hafter]
    exact hy.grows
  · rw [hafter, hcapped, h]
    exact hy.fits
  · rw [hafter, hcapped]
    exact hy.cut

/-- One step after another. If the first one had too much to write, there is no second one; and what the second one writes comes
after it. -/
theorem bind {f : α → Exec β} (hx : FailStop n refusal x m)
    (hf : ∀ a m', m'.sink.Endless → FailStop n refusal (f a) m') : FailStop n refusal (x >>= f) m := by
  cases hxm : x m with
  | error e m₁ =>
    have hafter : (x >>= f).after m = x.after m := by
      unfold Exec.after
      rw [Exec.bind_apply, hxm]
    refine ⟨?_, ?_, fun hle => ?_, fun hm hlt => ?_⟩
    · rw [hafter]
      exact hx.endless
    · rw [hafter]
      exact hx.grows
    · rw [hafter] at hle
      rw [Exec.bind_apply, Exec.bind_apply, hx.fits hle, hxm]
      rfl
    · rw [hafter] at hlt ⊢
      obtain ⟨span, m', heq, hwritten⟩ := hx.cut hm hlt
      exact ⟨span, m', by rw [Exec.bind_apply, heq], hwritten⟩
  | ok a m₁ =>
    have hm₁ : x.after m = m₁ := by
      unfold Exec.after
      rw [hxm]
    have hendless := hx.endless
    have hcut := hx.cut
    have hfits := hx.fits
    obtain ⟨more, hmore⟩ := hx.grows
    rw [hm₁] at hendless hcut hfits hmore
    have hnext := hf a m₁ hendless
    have hafter : (x >>= f).after m = (f a).after m₁ := by
      unfold Exec.after
      rw [Exec.bind_apply, hxm]
    obtain ⟨more', hmore'⟩ := hnext.grows
    refine ⟨?_, ?_, fun hle => ?_, fun hm hlt => ?_⟩
    · rw [hafter]
      exact hnext.endless
    · refine ⟨more ++ more', ?_⟩
      rw [hafter, hmore', hmore, ByteArray.append_assoc]
    · rw [hafter] at hle
      have hsize := hnext.size_le
      rw [Exec.bind_apply, Exec.bind_apply, hfits (by omega), hxm]
      exact hnext.fits hle
    · rw [hafter] at hlt ⊢
      -- The first write that does not fit is in the first step, or else in what follows.
      by_cases hle : m₁.sink.written.size ≤ n
      · obtain ⟨span, m', heq, hwritten⟩ := hnext.cut hle hlt
        refine ⟨span, m', ?_, hwritten⟩
        rw [Exec.bind_apply, hfits hle, hxm]
        exact heq
      · obtain ⟨span, m', heq, hwritten⟩ := hcut hm (by omega)
        refine ⟨span, m', ?_, ?_⟩
        · rw [Exec.bind_apply, heq]
        · rw [hwritten, hmore', ByteArray.extract_append_of_le (by omega)]

/-- The position of a failure does not matter to what is written. -/
theorem located (hx : FailStop n refusal x m) (span : Option Span) : FailStop n refusal (Exec.located span x) m := by
  have hafter : (Exec.located span x).after m = x.after m := by
    unfold Exec.after Exec.located
    rcases x m with ⟨a, m'⟩ | ⟨e | _, m'⟩ <;> rfl
  refine ⟨?_, ?_, fun hle => ?_, fun hm hlt => ?_⟩
  · rw [hafter]
    exact hx.endless
  · rw [hafter]
    exact hx.grows
  · rw [hafter] at hle
    unfold Exec.located
    rw [hx.fits hle]
    rcases x m with ⟨a, m'⟩ | ⟨e | _, m'⟩ <;> rfl
  · rw [hafter] at hlt ⊢
    obtain ⟨inner, m', heq, hwritten⟩ := hx.cut hm hlt
    refine ⟨inner.or span, m', ?_, hwritten⟩
    unfold Exec.located
    rw [heq]
    rfl

/-- A write either fits or it does not; this is the only step where the two outputs differ. -/
theorem write (hm : m.sink.Endless) (text : String) : FailStop n refusal (Exec.write text) m := by
  obtain ⟨env, heap, source, sink, depth⟩ := m
  have hafter : (Exec.write text).after ⟨env, heap, source, sink, depth⟩ =
      ⟨env, heap, source, { sink with written := sink.written ++ text.toUTF8 }, depth⟩ := by
    unfold Exec.after Exec.write
    dsimp only
    rw [Sink.write_of_endless hm]
  refine ⟨?_, ⟨text.toUTF8, ?_⟩, fun hle => ?_, fun hs hlt => ?_⟩
  · rw [hafter]
    exact ⟨hm.room, hm.flushFault⟩
  · rw [hafter]
  · rw [hafter, ByteArray.size_append] at hle
    unfold Exec.write Machine.capped
    dsimp only
    rw [Sink.write_of_endless hm, Sink.write_capped_of_le hle]
    rfl
  · rw [hafter] at hlt ⊢
    rw [ByteArray.size_append] at hlt
    refine ⟨none, ⟨env, heap, source, ⟨(sink.written ++ text.toUTF8).extract 0 n, some 0, refusal, none⟩, depth⟩, ?_, rfl⟩
    unfold Exec.write Machine.capped
    dsimp only
    rw [Sink.write_capped_of_lt hs hlt]
    rfl

theorem flush (hm : m.sink.Endless) : FailStop n refusal Exec.flush m := by
  have hflush : Exec.flush m = .ok () m := by
    unfold Exec.flush
    rw [hm.flushFault]
  refine of_silent hm ?_ ?_
  · unfold Exec.after
    rw [hflush]
  · rw [hflush]
    rfl

/-- Reading a line writes nothing. -/
theorem readLine (hm : m.sink.Endless) : FailStop n refusal Exec.readLine m := by
  refine of_silent hm ?_ ?_
  · unfold Exec.after Exec.readLine
    cases m.source.line? <;> rfl
  · unfold Exec.readLine Machine.capped
    dsimp only
    cases m.source.line? <;> rfl

/-- A step in an environment of its own, one call deeper. -/
theorem enter {env : Env} (hx : FailStop n refusal x { m with env, depth := m.depth + 1 }) :
    FailStop n refusal (Interp.enter env x) m := by
  have hafter : ((Interp.enter env x).after m).sink = (x.after { m with env, depth := m.depth + 1 }).sink := by
    unfold Exec.after
    rw [Interp.enter_apply]
    cases x { m with env, depth := m.depth + 1 } <;> rfl
  refine ⟨?_, ?_, fun hle => ?_, fun hm hlt => ?_⟩
  · rw [hafter]
    exact hx.endless
  · rw [hafter]
    exact hx.grows
  · rw [hafter] at hle
    have heq : x { m.capped n refusal with env, depth := m.depth + 1 } = _ := hx.fits hle
    rw [Interp.enter_apply, Interp.enter_apply]
    show Outcome.leave _ (x { m.capped n refusal with env, depth := m.depth + 1 }) = _
    rw [heq]
    cases x { m with env, depth := m.depth + 1 } <;> rfl
  · rw [hafter] at hlt ⊢
    obtain ⟨span, m', heq, hwritten⟩ := hx.cut hm hlt
    refine ⟨span, { m' with env := m.env, depth := m.depth }, ?_, hwritten⟩
    replace heq : x { m.capped n refusal with env, depth := m.depth + 1 } = _ := heq
    rw [Interp.enter_apply]
    show Outcome.leave _ (x { m.capped n refusal with env, depth := m.depth + 1 }) = _
    rw [heq]
    rfl

end FailStop

/-- Steps that write a beginning of what they write with an output that never fails. -/
def StepRule.failStop (n : Nat) (refusal : String) : StepRule where
  eval x := ∀ m : Machine, m.sink.Endless → FailStop n refusal x m
  exec _ x := ∀ m : Machine, m.sink.Endless → FailStop n refusal x m
  pure _ _ hm := .of_silent hm rfl rfl
  halt _ _ hm := .of_silent hm rfl rfl
  bind hx hf m hm := (hx m hm).bind hf
  located span hx m hm := (hx m hm).located span
  looking h m hm := by
    obtain ⟨y, hy, heq⟩ := h m
    exact (hy m hm).congr (heq m.source m.sink) (heq m.source (m.sink.capped n refusal))
  change _ _ hm := .of_silent hm rfl rfl
  write text _ hm := .write hm text
  flush _ hm := .flush hm
  readLine _ hm := .readLine hm
  enter _ hx _ hm := .enter (hx _ hm)
  exec_of_eval _ hx := hx
  exec_mono hx _ := hx
  exec_bind hx hf m hm := (hx m hm).bind hf
  exec_located span hx m hm := (hx m hm).located span
  bindName _ _ _ hm := .of_silent hm rfl rfl

/-- A whole program writes a beginning of what it writes without a limit, the flush at its end included. -/
theorem program_failStop (n : Nat) (refusal : String) (limit fuel : Nat) (code : Block FuncId) {m : Machine}
    (hm : m.sink.Endless) : FailStop n refusal ((interp limit fuel).program code) m := by
  refine (((StepRule.failStop n refusal).interp_holds limit fuel).block code m hm).bind fun flow m' hm' => ?_
  cases flow with
  | completed => exact .flush hm'
  | returned s => exact .of_silent hm' rfl rfl

/-! ## Where the run stops -/

/-- `Refused limit w m m'`: a run of the work `w` from the state `m` comes to a write that its output refuses, and `m'` is the state
that this write leaves, with the environments and depths of the callers back for the calls that were open. -/
inductive Refused (limit : Nat) : Work → Machine → Machine → Prop where
  | write {w : Work} {m m₁ : Machine} {text message : String} {sink : Sink} (fuel : Nat)
      (hw : Writes (interp limit fuel) w m text m₁) (hs : m₁.sink.write text = (some message, sink)) :
      Refused limit w m { m₁ with sink }
  | inside {w w₁ : Work} {m m₁ m' : Machine} (fuel : Nat) (hl : Leads limit (interp limit fuel) w m w₁ m₁)
      (hw : w.isInvoke = false) (h : Refused limit w₁ m₁ m') : Refused limit w m m'
  | called {f : Func} {args : List SlotId} {kwargs : List (String × SlotId)} {env : Env} {m m' : Machine} (hd : m.depth < limit)
      (he : Interp.callEnv m.heap f args kwargs m.env = .ok env)
      (h : Refused limit (.block f.code) { m with env, depth := m.depth + 1 } m') :
      Refused limit (.invoke f args kwargs) m { m' with env := m.env, depth := m.depth }

/-- The first outcome is the second one with an output that takes `n` bytes in all, and all that was written fits. -/
structure Outcome.InStep (n : Nat) (refusal : String) {α : Type} (res res' : Outcome α) : Prop where
  endless : res'.state.sink.Endless
  size_le : res'.state.sink.written.size ≤ n
  eq : res = res'.onState (Machine.capped n refusal)

namespace Outcome.InStep

variable {n : Nat} {refusal : String} {α : Type} {res res' : Outcome α} {m : Machine}

/-- Steps that leave the output alone are in step. -/
theorem of_plain {x : Exec α} (hx : x.Plain) (hm : m.sink.Endless) (hsize : m.sink.written.size ≤ n) :
    Outcome.InStep n refusal (x (m.capped n refusal)) (x m) := by
  have hself := hx.streams m m.source m.sink
  have hcapped : x (m.capped n refusal) = _ := hx.streams m m.source (m.sink.capped n refusal)
  rw [hcapped]
  cases hxm : x m with
  | ok a m' =>
    rw [hxm] at hself
    have hm' : m' = { m' with source := m.source, sink := m.sink } := by injection hself
    rw [hm']
    exact ⟨hm, hsize, rfl⟩
  | error e m' =>
    rw [hxm] at hself
    have hm' : m' = { m' with source := m.source, sink := m.sink } := by injection hself
    rw [hm']
    exact ⟨hm, hsize, rfl⟩

theorem fault (f : Fault) (hm : m.sink.Endless) (hsize : m.sink.written.size ≤ n) :
    Outcome.InStep n refusal ((Exec.fault f : Exec α) (m.capped n refusal)) ((Exec.fault f : Exec α) m) :=
  ⟨hm, hsize, rfl⟩

/-- A flush is in step: neither output fails. -/
theorem flush (hm : m.sink.Endless) (hsize : m.sink.written.size ≤ n) :
    Outcome.InStep n refusal (Exec.flush (m.capped n refusal)) (Exec.flush m) := by
  have hflush : Exec.flush m = .ok () m := by
    unfold Exec.flush
    rw [hm.flushFault]
  rw [hflush]
  exact ⟨hm, hsize, rfl⟩

/-- Reading a line is in step. -/
theorem readLine (hm : m.sink.Endless) (hsize : m.sink.written.size ≤ n) :
    Outcome.InStep n refusal (Exec.readLine (m.capped n refusal)) (Exec.readLine m) := by
  unfold Exec.readLine Machine.capped
  dsimp only
  cases m.source.line? <;> exact ⟨hm, hsize, rfl⟩

/-- The same position is given to both failures. -/
theorem located (h : Outcome.InStep n refusal res res') {x x' : Exec α} {m' : Machine} (hx : x m = res) (hx' : x' m' = res')
    (span : Option Span) : Outcome.InStep n refusal (Exec.located span x m) (Exec.located span x' m') := by
  unfold Exec.located
  rw [hx, hx', h.eq]
  have hendless := h.endless
  have hsize := h.size_le
  rcases res' with ⟨a, m₁⟩ | ⟨e | _, m₁⟩ <;> exact ⟨hendless, hsize, rfl⟩

/-- The same environment and depth come back on both sides. -/
theorem leave (h : Outcome.InStep n refusal res res') (m : Machine) :
    Outcome.InStep n refusal (res.leave m) (res'.leave m) := by
  rw [h.eq]
  have hendless := h.endless
  have hsize := h.size_le
  cases res' <;> exact ⟨hendless, hsize, rfl⟩

end Outcome.InStep

/-- Two runs, the first one with an output that takes `n` bytes in all and the second one with an output that never fails: they are
in step, or the first one stopped at a write that was refused. -/
@[reducible] def Simulation.capped (limit n : Nat) (refusal : String) : Simulation limit limit where
  streams source sink source' sink' :=
    source = source' ∧ sink = sink'.capped n refusal ∧ sink'.Endless ∧ sink'.written.size ≤ n
  rel w m _ res res' := res.InStep n refusal res' ∨
    ∃ span m', res = .error (.failed ⟨.stream refusal, span⟩) m' ∧ Refused limit w m m'
  limit_le := Nat.le_refl _
  plain := by
    rintro α x w m ⟨env, heap, source, _, depth⟩ _ sink ⟨rfl, rfl, hm, hsize⟩ hx
    exact .inl (.of_plain (m := ⟨env, heap, source, sink, depth⟩) hx hm hsize)
  flush := by
    rintro w m ⟨env, heap, source, _, depth⟩ _ sink ⟨rfl, rfl, hm, hsize⟩
    exact .inl (.flush (m := ⟨env, heap, source, sink, depth⟩) hm hsize)
  readLine := by
    rintro w m ⟨env, heap, source, _, depth⟩ _ sink ⟨rfl, rfl, hm, hsize⟩
    exact .inl (.readLine (m := ⟨env, heap, source, sink, depth⟩) hm hsize)
  bind := by
    rintro α β x x' f f' w m m₁ m₁' (hstep | ⟨span, m', heq, hrefused⟩) hf
    · have heq := hstep.eq
      have hendless := hstep.endless
      have hsize := hstep.size_le
      rw [Exec.bind_apply, Exec.bind_apply]
      cases hx' : x' m₁' with
      | ok a m₂ =>
        rw [hx'] at heq hendless hsize
        rw [heq]
        exact hf a (m₂.capped n refusal) m₂.source m₂.sink heq ⟨rfl, rfl, hendless, hsize⟩
      | error e m₂ =>
        rw [hx'] at heq hendless hsize
        rw [heq]
        exact .inl ⟨hendless, hsize, rfl⟩
    · rw [Exec.bind_apply, heq]
      exact .inr ⟨span, m', rfl, hrefused⟩
  located := by
    rintro α x x' w m m₁ m₁' span - (hstep | ⟨inner, m', heq, hrefused⟩)
    · exact .inl (hstep.located rfl rfl span)
    · refine .inr ⟨inner.or span, m', ?_, hrefused⟩
      unfold Exec.located
      rw [heq]
      rfl
  ret := by
    rintro ⟨env, heap, source, _, depth⟩ span value _ sink - ⟨rfl, rfl, hm, hsize⟩
    exact .inl (.fault (m := ⟨env, heap, source, sink, depth⟩) _ hm hsize)
  exhausted := by
    rintro α x w ⟨env, heap, source, _, depth⟩ _ sink - ⟨rfl, rfl, hm, hsize⟩ heq
    rw [heq rfl]
    exact .inl (.fault (m := ⟨env, heap, source, sink, depth⟩) _ hm hsize)

/-- The relation goes with the interpreter: a write that is refused inside a part of the work is refused in the work, and outside
the calls that are open. -/
theorem tracks_capped (limit n : Nat) (refusal : String) (fuel : Nat) :
    (Simulation.capped limit n refusal).Tracks (interp limit fuel) where
  part := by
    rintro α res res' w w₁ m m₁ hl hw (hstep | ⟨span, m', heq, hrefused⟩)
    · exact .inl hstep
    · exact .inr ⟨span, m', heq, .inside fuel hl hw hrefused⟩
  call := by
    rintro α res res' m f args kwargs env hd he (hstep | ⟨span, m', heq, hrefused⟩)
    · exact .inl (hstep.leave m)
    · refine .inr ⟨span, { m' with env := m.env, depth := m.depth }, ?_, .called hd he hrefused⟩
      rw [heq]
      rfl
  write := by
    rintro w m ⟨env, heap, source, _, depth⟩ text _ sink hw ⟨rfl, rfl, hm, hsize⟩
    have hfull : Exec.write text ⟨env, heap, source, sink, depth⟩ =
        .ok () ⟨env, heap, source, { sink with written := sink.written ++ text.toUTF8 }, depth⟩ := by
      unfold Exec.write
      dsimp only
      rw [Sink.write_of_endless hm]
    by_cases hle : sink.written.size + text.toUTF8.size ≤ n
    · refine .inl ⟨?_, ?_, ?_⟩
      · rw [hfull]
        exact ⟨hm.room, hm.flushFault⟩
      · rw [hfull]
        show (sink.written ++ text.toUTF8).size ≤ n
        rw [ByteArray.size_append]
        exact hle
      · rw [hfull]
        unfold Exec.write
        dsimp only
        rw [Sink.write_capped_of_le hle]
        rfl
    · have hwrite : (sink.capped n refusal).write text = _ := Sink.write_capped_of_lt hsize (Nat.lt_of_not_le hle)
      refine .inr ⟨none, _, ?_, .write fuel hw hwrite⟩
      unfold Exec.write
      dsimp only
      rw [hwrite]
      rfl

/-- Whole programs are in step, or the first one stopped at a write that was refused. -/
theorem program_capped (limit n : Nat) (refusal : String) (fuel : Nat) (code : Block FuncId) {m : Machine} (hm : m.sink.Endless)
    (hsize : m.sink.written.size ≤ n) :
    (Simulation.capped limit n refusal).rel (.block code) (m.capped n refusal) ((interp limit fuel).program code (m.capped n refusal))
      ((interp limit fuel).program code m) := by
  let S := Simulation.capped limit n refusal
  have hrelates := S.interp_relates (tracks_capped limit n refusal) fuel
  have hblock := hrelates.block (tracks_capped limit n refusal fuel) (m := m.capped n refusal) ⟨rfl, rfl, hm, hsize⟩ code
  refine S.bind hblock fun flow m₁ _ sink _ hs => ?_
  cases flow with
  | completed => exact S.flush hs
  | returned s =>
    obtain ⟨env, heap, source, _, depth⟩ := m₁
    obtain ⟨rfl, rfl, hm₁, hsize₁⟩ := hs
    exact .inl (.fault (m := ⟨env, heap, source, sink, depth⟩) _ hm₁ hsize₁)

/-! ## Whole programs -/

/-- How a step ended, and the state it reached, as a pair. -/
def Outcome.pair {α : Type} : Outcome α → Except Halt α × Machine
  | .ok a m => (.ok a, m)
  | .error e m => (.error e, m)

/-- The state of an outcome is the second part of the pair. -/
theorem Outcome.state_eq_of_pair {α : Type} {res : Outcome α} {result : Except Halt α} {m : Machine} (h : res.pair = (result, m)) :
    res.state = m := by
  cases res <;>
  · cases h
    rfl

theorem Outcome.pair_onState {α : Type} (g : Machine → Machine) (res : Outcome α) :
    (res.onState g).pair = (res.pair.1, g res.pair.2) := by
  cases res <;> rfl

/-- A run is what the interpreter makes of the numbered program from the start. -/
theorem Program.runWith_eq_pair (program : Program) (fuel : Nat) (config : Config) (source : Source) (sink : Sink) :
    program.runWith fuel config source sink =
      Outcome.pair ((interp config.callLimit fuel).program (Program.number program 0).1 (.start source sink)) := by
  rw [Program.runWith_eq]
  cases (interp config.callLimit fuel).program (Program.number program 0).1 (.start source sink) <;> rfl

/-- A program with an output that takes `n` bytes in all, for any program, input and limits. What it writes is the first `n` bytes of
what it writes with an output that never fails, or all of it if that is less. If all fits, it ends in the same way and in the same
state, the room in the output apart. Otherwise it fails with the message of the output at the first write that does not fit, and
the state it leaves is that of this write: nothing that comes after has any effect. -/
theorem limited_output (program : Program) (fuel : Nat) (config : Config) (source : Source) (n : Nat) (refusal : String)
    (result : Except Halt Unit) (m : Machine) (hrun : program.runWith fuel config source .unlimited = (result, m)) :
    ∃ result' m', program.runWith fuel config source (.limited n refusal) = (result', m') ∧
      m'.sink.written = m.sink.written.extract 0 (min n m.sink.written.size) ∧
      (m.sink.written.size ≤ n → result' = result ∧ m' = m.capped n refusal) ∧
      (n < m.sink.written.size → (∃ span, result' = .error (.failed ⟨.stream refusal, span⟩)) ∧
        Refused config.callLimit (.block (Program.number program 0).1) (.start source (.limited n refusal)) m') := by
  have hendless : (Machine.start source .unlimited).sink.Endless := ⟨rfl, rfl⟩
  have hempty : (Machine.start source .unlimited).sink.written.size ≤ n := Nat.zero_le n
  have hcapped : (Machine.start source .unlimited).capped n refusal = .start source (.limited n refusal) := rfl
  have hstop := program_failStop n refusal config.callLimit fuel (Program.number program 0).1 hendless
  have hstep := program_capped config.callLimit n refusal fuel (Program.number program 0).1 hendless hempty
  rw [Program.runWith_eq_pair] at hrun ⊢
  have hafter : ((interp config.callLimit fuel).program (Program.number program 0).1).after (.start source .unlimited) = m :=
    Outcome.state_eq_of_pair hrun
  have hfits := hstop.fits
  have hcut := hstop.cut hempty
  rw [hafter, hcapped] at hfits hcut
  by_cases hle : m.sink.written.size ≤ n
  · refine ⟨result, m.capped n refusal, ?_, ?_, fun _ => ⟨rfl, rfl⟩, fun hlt => absurd hlt (Nat.not_lt.mpr hle)⟩
    · rw [hfits hle, Outcome.pair_onState, hrun]
    · rw [Nat.min_eq_right hle, ByteArray.extract_zero_size]
      rfl
  · have hlt : n < m.sink.written.size := Nat.lt_of_not_le hle
    obtain ⟨span, m', heq, hwritten⟩ := hcut hlt
    refine ⟨.error (.failed ⟨.stream refusal, span⟩), m', ?_, ?_, fun h => absurd h hle, fun _ => ⟨⟨span, rfl⟩, ?_⟩⟩
    · rw [heq]
      rfl
    · rw [Nat.min_eq_left (Nat.le_of_lt hlt)]
      exact hwritten
    · -- The two runs did not stay in step, since more was written than fits.
      rcases hstep with hstep | ⟨span', m₁, heq', hrefused⟩
      · have hsize := hstep.size_le
        rw [Outcome.state_eq_of_pair hrun] at hsize
        exact absurd hsize hle
      · rw [hcapped, heq] at heq'
        cases heq'
        exact hrefused

/-- A function prints a text, binds a name and prints again; what calls it prints after it. -/
def printingInCall : Program :=
  [.setVar none "f" (.func none () [] [.print none (.literal none (.string "ab")), .setVar none "x" (.literal none (.int 1)),
      .print (some ⟨4, 2⟩) (.literal none (.string "cd"))]),
    .expr none (.call none (.getVar none "f") [] []),
    .print none (.literal none (.string "ef"))]

/-- Four of nine bytes fit, and the run stops at the second print, inside the call. -/
theorem printingInCall_limited_output :
    ∃ m m', printingInCall.runWith 9 .standard ⟨[]⟩ .unlimited = (.ok (), m) ∧ m.sink.written.size = 9 ∧
      printingInCall.runWith 9 .standard ⟨[]⟩ (.limited 4 "full") = (.error (.failed ⟨.stream "full", some ⟨4, 2⟩⟩), m') ∧
      m'.sink.written = m.sink.written.extract 0 4 ∧
      Refused 1000 (.block (Program.number printingInCall 0).1) (.start ⟨[]⟩ (.limited 4 "full")) m' := by
  have hrun : printingInCall.runWith 9 .standard ⟨[]⟩ .unlimited =
      (.ok (), (printingInCall.runWith 9 .standard ⟨[]⟩ .unlimited).2) := rfl
  have hsize : (printingInCall.runWith 9 .standard ⟨[]⟩ .unlimited).2.sink.written.size = 9 := by decide
  have hfull : (printingInCall.runWith 9 .standard ⟨[]⟩ (.limited 4 "full")).1 =
      .error (.failed ⟨.stream "full", some ⟨4, 2⟩⟩) := rfl
  obtain ⟨result', m', hrun', hwritten, -, hcut⟩ :=
    limited_output printingInCall 9 .standard ⟨[]⟩ 4 "full" _ _ hrun
  rw [hrun'] at hfull
  rw [hsize] at hwritten hcut
  refine ⟨_, m', hrun, hsize, ?_, hwritten, (hcut (by decide)).2⟩
  rw [hrun', ← hfull]

end NodeScript
