import Mathlib.Logic.Function.Iterate
import NodeScript.Proofs.Run.Simulation
import NodeScript.Proofs.Text.LineEnd

/-!
# Reading line by line

A read takes the bytes up to the next line feed off the input, or all that there are (`Source.takes`). What a run does in between
does not depend on the input: there is one dialogue (`Dialogue`), which asks for a line each time it comes to an `input`, and the
run is that dialogue whoever gives the answers (`program_converses`). To say who does, `input` takes its line from a reader
(`interpFrom`); with the reader that goes through the input line by line this is the interpreter itself (`interpFrom_lines`). So
each `input` gets the line after the one before, wherever in a program they stand (`input_reads_each_line_once`).
-/

namespace NodeScript

/-! ## Bytes of texts -/

namespace Text

/-- The bytes of a text. -/
def bytes (text : String) : List UInt8 :=
  text.toUTF8.data.toList

/-- The bytes of a text are those of its characters, one after the other. -/
theorem bytes_eq (text : String) : bytes text = text.toList.flatMap String.utf8EncodeChar := by
  rw [bytes, String.toUTF8_eq_toByteArray, ← String.utf8Encode_toList, List.utf8Encode, List.data_toByteArray]

/-- Bytes are decoded to a text exactly if they are the bytes of it. -/
theorem fromUTF8?_eq_some_iff (bs : List UInt8) (text : String) :
    String.fromUTF8? ⟨bs.toArray⟩ = some text ↔ bs = bytes text := by
  unfold String.fromUTF8?
  constructor
  · intro h
    split at h
    · obtain rfl := Option.some.inj h
      rfl
    · cases h
  · rintro rfl
    exact dif_pos text.isValidUTF8

/-- Only a line feed has its byte. -/
theorem mem_encode_iff (c : Char) : 10 ∈ String.utf8EncodeChar c ↔ c = '\n' := by
  constructor
  · intro h
    have hbyte : ∀ n < 256, 10 = UInt8.ofNat n → n = 10 := by
      intro n hn hten
      have hnat := congrArg UInt8.toNat hten
      rw [UInt8.toNat_ofNat', Nat.mod_eq_of_lt hn] at hnat
      exact hnat.symm
    have hval : c.val.toNat = 10 := by
      unfold String.utf8EncodeChar at h
      dsimp only at h
      -- the bytes of a character beyond 127 are all beyond 127
      split_ifs at h <;> simp only [List.mem_cons, List.not_mem_nil, or_false] at h
      · exact hbyte _ (by omega) h
      · rcases h with h | h <;> have hten := hbyte _ (by omega) h <;> omega
      · rcases h with h | h | h <;> have hten := hbyte _ (by omega) h <;> omega
      · rcases h with h | h | h | h <;> have hten := hbyte _ (by omega) h <;> omega
    exact Char.ext (UInt32.toNat_inj.mp hval)
  · rintro rfl
    decide

/-- A text has the byte of a line feed only where it has a line feed. -/
theorem mem_bytes_iff (text : String) : 10 ∈ bytes text ↔ '\n' ∈ text.toList := by
  simp [bytes_eq, List.mem_flatMap, mem_encode_iff]

end Text

/-! ## Lines of an input -/

namespace Source

open Text

/-- The next line of an input is what is up to its next line feed, with it, or all that there is. -/
theorem rest_eq (s : Source) :
    s.rest = s.chunk ++ s.advance.rest ∧
      ((∃ body, s.chunk = body ++ [10] ∧ 10 ∉ body) ∨ 10 ∉ s.chunk ∧ s.advance.rest = []) := by
  have hbody : 10 ∉ s.rest.takeWhile (· ≠ 10) := by
    intro hmem
    have hne := List.all_eq_true.mp List.all_takeWhile _ hmem
    simp at hne
  refine ⟨?_, ?_⟩
  · rw [chunk, advance, List.append_assoc, List.take_append_drop, List.takeWhile_append_dropWhile]
  · cases hdrop : s.rest.dropWhile (· ≠ 10) with
    | nil =>
      refine .inr ⟨?_, by rw [advance, hdrop, List.drop_nil]⟩
      rw [chunk, hdrop, List.take_nil, List.append_nil]
      exact hbody
    | cons b more =>
      have hb : b = 10 := by
        have hnot := List.head?_dropWhile_not (fun b : UInt8 => b ≠ 10) s.rest
        rw [hdrop] at hnot
        simpa using hnot
      refine .inl ⟨s.rest.takeWhile (· ≠ 10), ?_, hbody⟩
      rw [chunk, hdrop, hb]
      rfl

/-- The bytes of a text end with that of a line feed only if the text does. -/
theorem exists_concat_of_bytes {text : String} {body : List UInt8} (h : bytes text = body ++ [10]) :
    ∃ line, text.toList = line ++ ['\n'] ∧ line.flatMap String.utf8EncodeChar = body := by
  rw [bytes_eq] at h
  rcases List.eq_nil_or_concat text.toList with hnil | ⟨line, c, hconcat⟩
  · rw [hnil] at h
    simp at h
  · rw [List.concat_eq_append] at hconcat
    rw [hconcat, List.flatMap_append, List.flatMap_singleton] at h
    have hc : c = '\n' := by
      have hne : String.utf8EncodeChar c ≠ [] := List.ne_nil_of_length_pos (by
        rw [String.length_utf8EncodeChar]
        exact c.utf8Size_pos)
      have hlast := congrArg List.getLast? h
      rw [List.getLast?_append_of_ne_nil _ hne, List.getLast?_concat] at hlast
      exact (mem_encode_iff c).mp (List.mem_of_getLast? hlast)
    subst hc
    exact ⟨line, hconcat, List.append_cancel_right h⟩

/-- What is read of a line that is a text: the text without a line feed at its end and without a carriage return before that. -/
theorem exists_line? {s : Source} {text : String} (h : s.chunk = bytes text) :
    ∃ line, s.line? = some line ∧ '\n' ∉ line.toList ∧
      (text = line ++ "\r\n" ∨ text = line ++ "\n" ∧ line.toList.getLast? ≠ some '\r' ∨ text = line) := by
  have hline : s.line? = some (String.ofList (dropLineEnd text.toList)) := by
    rw [line?, (fromUTF8?_eq_some_iff _ _).mpr h]
    rfl
  refine ⟨_, hline, ?_⟩
  rw [String.toList_ofList]
  rcases s.rest_eq.2 with ⟨body, hchunk, hbody⟩ | ⟨hchunk, -⟩
  · obtain ⟨line, htext, hbytes⟩ := exists_concat_of_bytes (h.symm.trans hchunk)
    have hopen : '\n' ∉ line := by
      intro hmem
      refine hbody (hbytes ▸ List.mem_flatMap.mpr ⟨_, hmem, ?_⟩)
      decide
    rw [htext, dropLineEnd_line]
    refine ⟨not_mem_dropReturn hopen, ?_⟩
    by_cases hreturn : line.getLast? = some '\r'
    · obtain ⟨before, rfl⟩ := List.getLast?_eq_some_iff.mp hreturn
      exact .inl (String.toList_inj.mp (by simp [htext, dropReturn]))
    · rw [dropReturn, if_neg hreturn]
      exact .inr (.inl ⟨String.toList_inj.mp (by simp [htext]), hreturn⟩)
  · have hopen : '\n' ∉ text.toList := by rwa [← mem_bytes_iff, ← h]
    rw [dropLineEnd_of_not_mem hopen, String.ofList_toList]
    exact ⟨hopen, .inr (.inr rfl)⟩

/-- `s.Takes chunk answer after`: a read takes the bytes `chunk` off the input `s`, gives the answer, and leaves `after`. -/
structure Takes (s : Source) (chunk : List UInt8) (answer : Option String) (after : Source) : Prop where
  rest_eq : s.rest = chunk ++ after.rest
  ends : (∃ body, chunk = body ++ [10] ∧ 10 ∉ body) ∨ 10 ∉ chunk ∧ after.rest = []
  text : ∀ text, chunk = bytes text → ∃ line, answer = some line ∧ '\n' ∉ line.toList ∧
    (text = line ++ "\r\n" ∨ text = line ++ "\n" ∧ line.toList.getLast? ≠ some '\r' ∨ text = line)
  notText : (∀ text, chunk ≠ bytes text) → answer = none

/-- A read takes the next line, gives what that stands for, and leaves the rest. -/
theorem takes (s : Source) : s.Takes s.chunk s.line? s.advance where
  rest_eq := s.rest_eq.1
  ends := s.rest_eq.2
  text _ := exists_line?
  notText h := by
    have hbytes : String.fromUTF8? ⟨s.chunk.toArray⟩ = none :=
      Option.eq_none_iff_forall_ne_some.mpr fun text htext => h text ((fromUTF8?_eq_some_iff _ _).mp htext)
    rw [line?, hbytes]
    rfl

/-- What is left after so many lines. -/
theorem rest_iterate (n : Nat) (s : Source) :
    (List.range n).flatMap (fun k => (advance^[k] s).chunk) ++ (advance^[n] s).rest = s.rest := by
  induction n with
  | zero => simp
  | succ n ih =>
    have hline := (advance^[n] s).rest_eq.1
    rw [List.range_succ, List.flatMap_append, List.flatMap_singleton, Function.iterate_succ_apply', List.append_assoc, ← hline]
    exact ih

end Source

/-! ## Where lines come from -/

/-- Where `input` gets its lines from: what it is answered next, which is nothing if that is not text, and what is left then. -/
structure Reader where
  answer : Source → Option String
  rest : Source → Source

namespace Reader

/-- The lines of the input, one after the other. -/
def lines : Reader := ⟨Source.line?, Source.advance⟩

/-- Takes an answer. -/
def read (reader : Reader) : Exec String := fun m =>
  match reader.answer m.source with
  | some text => .ok text { m with source := reader.rest m.source }
  | none => Exec.fault (.stream Source.notText) { m with source := reader.rest m.source }

end Reader

namespace Interp

/-- What `input` does before it reads: it writes the prompt, if there is one, and flushes the output. -/
def prompt (r : Interp) : Option (Expr FuncId) → Exec Unit
  | none => Exec.flush
  | some e => do
    let v ← r.expr e
    let text ← Exec.lift v.scalarText
    Exec.write text
    Exec.flush

/-- An `input` that takes its line from a reader. -/
def inputFrom (reader : Reader) (r : Interp) (prompt : Option (Expr FuncId)) : Exec Value := do
  r.prompt prompt
  let line ← reader.read
  return .string line

/-- The interpreter of one level more, but for `input`, which takes its line from a reader. -/
def nextFrom (reader : Reader) (limit fuel : Nat) (r : Interp) : Interp where
  expr
    | .input span prompt => Exec.located span (r.inputFrom reader prompt)
    | e => (next limit fuel r).expr e
  slot
    | .input span prompt => do
      let v ← Exec.located span (r.inputFrom reader prompt)
      Exec.alloc v
    | e => (next limit fuel r).slot e
  stmt := (next limit fuel r).stmt

/-- The `input` of an interpreter takes its line from the reader that goes through the input. -/
theorem input_eq_inputFrom_lines (r : Interp) (prompt : Option (Expr FuncId)) : r.input prompt = r.inputFrom .lines prompt := by
  cases prompt with
  | none => rfl
  | some e =>
    unfold input inputFrom Interp.prompt
    simp only [bind_assoc]
    rfl

/-- With that reader the interpreter of one level more is the usual one. -/
theorem nextFrom_lines (limit fuel : Nat) (r : Interp) : nextFrom .lines limit fuel r = next limit fuel r := by
  unfold nextFrom
  congr 1
  · funext e
    cases e with
    | input span prompt => exact congrArg (Exec.located span) (r.input_eq_inputFrom_lines prompt).symm
    | _ => rfl
  · funext e
    cases e with
    | input span prompt =>
      show (Exec.located span (r.inputFrom .lines prompt) >>= Exec.alloc) = Exec.located span (r.input prompt) >>= Exec.alloc
      rw [r.input_eq_inputFrom_lines]
    | _ => rfl

end Interp

/-- The interpreter whose `input` takes its lines from a reader. -/
def interpFrom (reader : Reader) (limit : Nat) : Nat → Interp
  | 0 => .exhausted
  | fuel + 1 => Interp.nextFrom reader limit fuel (interpFrom reader limit fuel)

/-- With the reader that goes through the input line by line there is nothing new. -/
theorem interpFrom_lines (limit fuel : Nat) : interpFrom .lines limit fuel = interp limit fuel := by
  induction fuel with
  | zero => rfl
  | succ fuel ih => rw [interpFrom, ih, Interp.nextFrom_lines, interp]

/-! ## Dialogues -/

/-- The state of a run apart from its input. -/
structure Scene where
  env : Env
  heap : Heap
  sink : Sink
  depth : Nat

/-- The state with an input. -/
def Scene.on (scene : Scene) (source : Source) : Machine :=
  ⟨scene.env, scene.heap, source, scene.sink, scene.depth⟩

/-- The outcome with a result in a state. -/
def Outcome.of {α : Type} : Except Halt α → Machine → Outcome α
  | .ok a, m => .ok a m
  | .error e, m => .error e m

/-- What is done between one line that is read and the next: it comes to its end, or it asks for a line and goes on as the answer
has it. -/
inductive Dialogue (α : Type) where
  | done (result : Except Halt α) (scene : Scene)
  | ask (next : Option String → Dialogue α)

namespace Dialogue

variable {α β : Type} {reader : Reader}

/-- How a dialogue ends when a reader answers it. -/
def run (reader : Reader) : Dialogue α → Source → Outcome α
  | .done result scene, source => .of result (scene.on source)
  | .ask next, source => (next (reader.answer source)).run reader (reader.rest source)

/-- How often a dialogue asks when a reader answers it. -/
def asks (reader : Reader) : Dialogue α → Source → Nat
  | .done _ _, _ => 0
  | .ask next, source => (next (reader.answer source)).asks reader (reader.rest source) + 1

/-- As many lines are gone as were asked for. -/
theorem source_run (reader : Reader) (d : Dialogue α) (source : Source) :
    (d.run reader source).state.source = reader.rest^[d.asks reader source] source := by
  induction d generalizing source with
  | done result scene => cases result <;> rfl
  | ask next ih =>
    rw [run, asks, Function.iterate_succ_apply]
    exact ih _ _

/-- A dialogue that goes on where another one ends. -/
def andThen (f : Except Halt α → Scene → Dialogue β) : Dialogue α → Dialogue β
  | .done result scene => f result scene
  | .ask next => .ask fun answer => (next answer).andThen f

/-- A dialogue that goes on ends as what it goes on with does. -/
theorem run_andThen {f : Except Halt α → Scene → Dialogue β} {g : Outcome α → Outcome β}
    (h : ∀ result scene source, (f result scene).run reader source = g (.of result (scene.on source))) (d : Dialogue α)
    (source : Source) : (d.andThen f).run reader source = g (d.run reader source) := by
  induction d generalizing source with
  | done result scene => exact h result scene source
  | ask next ih => exact ih _ _

/-- Goes on from a result, if there is one. -/
def onResult (f : α → Scene → Dialogue β) : Except Halt α → Scene → Dialogue β
  | .ok a, scene => f a scene
  | .error e, scene => .done (.error e) scene

/-- Gives a failure a position. -/
def onFailure (span : Option Span) : Except Halt α → Scene → Dialogue α
  | .error (.failed f), scene => .done (.error (.failed (f.located span))) scene
  | result, scene => .done result scene

/-- The end of an answer: the line, or the failure that it is not text. -/
def onAnswer (scene : Scene) : Option String → Dialogue String
  | some line => .done (.ok line) scene
  | none => .done (.error (.failed ⟨.stream Source.notText, none⟩)) scene

end Dialogue

open Dialogue

/-- The steps, one for each reader, are one dialogue. -/
def Converses {α : Type} (x : Reader → Exec α) : Prop :=
  ∀ scene : Scene, ∃ d : Dialogue α, ∀ reader source, x reader (scene.on source) = d.run reader source

namespace Converses

variable {α β : Type}

/-- One dialogue after another is a dialogue: it goes on from the result, if there is one. -/
theorem bind {x : Reader → Exec α} {f : Reader → α → Exec β} (hx : Converses x) (hf : ∀ a, Converses fun reader => f reader a) :
    Converses fun reader => x reader >>= f reader := by
  intro scene
  obtain ⟨d, hd⟩ := hx scene
  choose g hg using hf
  refine ⟨d.andThen (onResult g), fun reader source => ?_⟩
  have hstep : (x reader >>= f reader) (scene.on source) =
      ((fun _ => d.run reader source) >>= f reader : Exec β) (scene.on source) := by
    rw [Exec.bind_apply, hd]
    exact (Exec.bind_apply (fun _ => d.run reader source) (f reader) (scene.on source)).symm
  refine hstep.trans (run_andThen (g := fun out => ((fun _ => out) >>= f reader : Exec β) (scene.on source))
    (fun result scene source => ?_) d source).symm
  cases result with
  | ok a => exact (hg a scene reader source).symm
  | error e => rfl

/-- A dialogue inside a node gives its position to a failure. -/
theorem located {x : Reader → Exec α} (span : Option Span) (hx : Converses x) :
    Converses fun reader => Exec.located span (x reader) := by
  intro scene
  obtain ⟨d, hd⟩ := hx scene
  refine ⟨d.andThen (onFailure span), fun reader source => ?_⟩
  have hstep : Exec.located span (x reader) (scene.on source) =
      Exec.located span (fun _ => d.run reader source) (scene.on source) := by
    unfold Exec.located
    rw [hd]
  refine hstep.trans (run_andThen (g := fun out => Exec.located span (fun _ => out) (scene.on source))
    (fun result scene source => ?_) d source).symm
  rcases result with (_ | _) | _ <;> rfl

/-- A dialogue in an environment of its own gives the caller's back at its end. -/
theorem enter {x : Reader → Exec α} (env : Env) (hx : Converses x) : Converses fun reader => Interp.enter env (x reader) := by
  intro scene
  obtain ⟨d, hd⟩ := hx { scene with env, depth := scene.depth + 1 }
  refine ⟨d.andThen fun result inner => .done result { inner with env := scene.env, depth := scene.depth },
    fun reader source => ?_⟩
  show Interp.enter env (x reader) (scene.on source) = _
  rw [Interp.enter_apply]
  refine (congrArg _ (hd reader source)).trans (run_andThen (fun result inner source' => ?_) d source).symm
  cases result <;> rfl

/-- Writing asks for nothing. -/
theorem write (text : String) : Converses fun _ => Exec.write text := by
  intro scene
  rcases hwrite : scene.sink.write text with ⟨_ | message, sink⟩
  · exact ⟨.done (.ok ()) { scene with sink }, fun _ _ => by simp only [Exec.write, Scene.on, hwrite]; rfl⟩
  · exact ⟨.done (.error (.failed ⟨.stream message, none⟩)) { scene with sink },
      fun _ _ => by simp only [Exec.write, Scene.on, hwrite]; rfl⟩

theorem flush : Converses fun _ => Exec.flush := by
  intro scene
  cases hflush : scene.sink.flushFault with
  | none => exact ⟨.done (.ok ()) scene, fun _ _ => by simp only [Exec.flush, Scene.on, hflush]; rfl⟩
  | some message =>
    exact ⟨.done (.error (.failed ⟨.stream message, none⟩)) scene, fun _ _ => by simp only [Exec.flush, Scene.on, hflush]; rfl⟩

/-- To read is to ask once. -/
theorem read : Converses Reader.read := by
  intro scene
  refine ⟨.ask (onAnswer scene), fun reader source => ?_⟩
  rw [run]
  cases hanswer : reader.answer source with
  | none => simp only [Reader.read, Scene.on, hanswer]; rfl
  | some line => simp only [Reader.read, Scene.on, hanswer]; rfl

end Converses

/-- Whatever is put together from dialogues is one. -/
def FamilyRule.dialogue : FamilyRule Reader where
  eval := Converses
  exec _ := Converses
  pure a scene := ⟨.done (.ok a) scene, fun _ _ => rfl⟩
  halt e scene := ⟨.done (.error e) scene, fun _ _ => rfl⟩
  bind := .bind
  located := .located
  looking h scene := by
    obtain ⟨y, hy, heq⟩ := h (scene.on ⟨[]⟩)
    obtain ⟨d, hd⟩ := hy scene
    exact ⟨d, fun reader source => (heq reader source scene.sink).trans (hd reader source)⟩
  change f scene := ⟨.done (.ok (f scene.heap).1) { scene with heap := (f scene.heap).2 }, fun _ _ => rfl⟩
  write := .write
  flush := .flush
  enter := .enter
  exec_of_eval _ hx := hx
  exec_mono hx _ := hx
  exec_bind := .bind
  exec_located := .located
  bindName name s scene := ⟨.done (.ok ()) { scene with env := scene.env.bind name s }, fun _ _ => rfl⟩

namespace FamilyRule

variable {r : Reader → Interp}

/-- An `input` is a dialogue: the prompt, one question, and the line as its result. -/
theorem Holds.inputFrom (hr : dialogue.Holds r) (prompt : Option (Expr FuncId)) :
    Converses fun reader => (r reader).inputFrom reader prompt := by
  refine .bind ?_ fun _ => .bind .read fun line => dialogue.pure _
  cases prompt with
  | none => exact .flush
  | some e => exact (hr.expr e).bind fun v => .bind (dialogue.lift _) fun text => .bind (.write text) fun _ => .flush

/-- The interpreters of one level more, one for each reader, are dialogues. -/
theorem Holds.nextFrom (hr : dialogue.Holds r) (limit fuel : Nat) :
    dialogue.Holds fun reader => Interp.nextFrom reader limit fuel (r reader) where
  expr e := by
    have hform h := Converses.located e.span (hr.exprForm limit e h)
    cases e with
    | input span prompt => exact .located span (hr.inputFrom prompt)
    | _ => exact hform (by rintro _ _ ⟨⟩)
  slot e := by
    have hslot := hr.nextSlot limit e
    cases e with
    | input span prompt => exact .bind (.located span (hr.inputFrom prompt)) fun v => dialogue.alloc v
    | _ => exact hslot (by rintro _ _ ⟨⟩)
  stmt s := .located s.span (hr.stmtForm fuel s)

end FamilyRule

/-- The interpreters of every level, one for each reader, are dialogues. -/
theorem interpFrom_converses (limit fuel : Nat) : FamilyRule.dialogue.Holds fun reader => interpFrom reader limit fuel := by
  induction fuel with
  | zero => exact ⟨fun _ => FamilyRule.dialogue.halt _, fun _ => FamilyRule.dialogue.halt _, fun _ => FamilyRule.dialogue.halt _⟩
  | succ fuel ih => exact ih.nextFrom limit fuel

/-- A whole program is one dialogue, whoever answers. -/
theorem program_converses (limit fuel : Nat) (code : Block FuncId) :
    Converses fun reader => (interpFrom reader limit fuel).program code := by
  refine .bind ((interpFrom_converses limit fuel).block code) fun flow => ?_
  cases flow with
  | completed => exact .flush
  | returned s => exact FamilyRule.dialogue.fault _

/-! ## What `input` does -/

/-- An `input` that gets past its prompt takes one line, and gives it, or fails where it stands if the line is not text. -/
theorem expr_input (limit fuel : Nat) (span : Option Span) (prompt : Option (Expr FuncId)) (m : Machine) :
    (interp limit (fuel + 1)).expr (.input span prompt) m =
      match Exec.located span ((interp limit fuel).prompt prompt) m with
      | .error e m' => .error e m'
      | .ok _ m' => match m'.source.line? with
        | some line => .ok (.string line) { m' with source := m'.source.advance }
        | none => .error (.failed ⟨.stream Source.notText, span⟩) { m' with source := m'.source.advance } := by
  show Exec.located span ((interp limit fuel).input prompt) m = _
  rw [Interp.input_eq_inputFrom_lines]
  unfold Interp.inputFrom Exec.located
  rw [Exec.bind_apply]
  cases (interp limit fuel).prompt prompt m with
  | error e m' => cases e <;> rfl
  | ok u m' =>
    simp only [Exec.bind_apply, Reader.read, Reader.lines]
    cases m'.source.line? <;> rfl

/-- Input is read line by line, and each line once. A read takes the bytes up to the next line feed, or to the end, and leaves
the rest; it gives their text without a line feed at the end and a carriage return right before that, and nothing if they are no
text; at the end it gives the empty text and leaves all as it is. An `input` that gets past its prompt reads once, and gives the
line, or fails if there was none. All else leaves the input alone: what a program does is one dialogue that asks at every `input`
and nowhere else, whatever reader answers there. Where the input itself does, by its lines, as many lines are gone in the end as
were asked for, and they are what is missing from the input, byte for byte. -/
theorem input_reads_each_line_once (limit : Nat) :
    (∀ s : Source, s.Takes s.chunk s.line? s.advance) ∧
    (∀ s : Source, s.rest = [] → s.line? = some "" ∧ s.advance = s) ∧
    (∀ fuel span prompt m, (interp limit (fuel + 1)).expr (.input span prompt) m =
      match Exec.located span ((interp limit fuel).prompt prompt) m with
      | .error e m' => .error e m'
      | .ok _ m' => match m'.source.line? with
        | some line => .ok (.string line) { m' with source := m'.source.advance }
        | none => .error (.failed ⟨.stream Source.notText, span⟩) { m' with source := m'.source.advance }) ∧
    (∀ fuel code (scene : Scene), ∃ d : Dialogue Unit,
      (∀ reader source, (interpFrom reader limit fuel).program code (scene.on source) = d.run reader source) ∧
      (∀ source, (interp limit fuel).program code (scene.on source) = d.run .lines source ∧
        (d.run .lines source).state.source = Source.advance^[d.asks .lines source] source ∧
        source.rest = (List.range (d.asks .lines source)).flatMap (fun k => (Source.advance^[k] source).chunk) ++
          (d.run .lines source).state.source.rest)) := by
  refine ⟨Source.takes, ?_, expr_input limit, ?_⟩
  · rintro ⟨_⟩ rfl
    exact ⟨by decide, rfl⟩
  · intro fuel code scene
    obtain ⟨d, hd⟩ := program_converses limit fuel code scene
    refine ⟨d, hd, fun source => ⟨?_, d.source_run .lines source, ?_⟩⟩
    · rw [← interpFrom_lines]
      exact hd .lines source
    · rw [d.source_run .lines source]
      exact (Source.rest_iterate _ source).symm

/-- Two lines with one between them that is not text, and no line feed at the end. -/
def brokenBetween : Source := ⟨[97, 13, 10, 255, 10, 98]⟩

/-- The line that is not text is read and gone, and behind the last line there are empty ones. -/
theorem brokenBetween_read_to_the_end :
    (∃ line, brokenBetween.line? = some line ∧ '\n' ∉ line.toList) ∧ brokenBetween.advance.line? = none ∧
    brokenBetween.advance.advance.chunk = Text.bytes "b" ∧ (Source.advance^[3] brokenBetween).line? = some "" := by
  obtain ⟨hread, hend, -⟩ := input_reads_each_line_once 0
  obtain ⟨line, hline, hopen, -⟩ := (hread brokenBetween).text "a\r\n" (by decide)
  have hbroken : ∀ text, brokenBetween.advance.chunk ≠ Text.bytes text := by
    intro text htext
    have hnone : String.fromUTF8? ⟨brokenBetween.advance.chunk.toArray⟩ = none := by decide
    rw [(Text.fromUTF8?_eq_some_iff _ _).mpr htext] at hnone
    cases hnone
  exact ⟨⟨line, hline, hopen⟩, (hread _).notText hbroken, by decide, (hend _ (by decide)).1⟩

end NodeScript
