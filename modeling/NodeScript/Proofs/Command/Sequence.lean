import NodeScript.Command
import NodeScript.Proofs.Run.Output

/-!
# Running files one after another

To run several files is to run each of them alone, from an empty environment, on what those before it left of the input, up to the
first that fails. What is written is one output after another (`runFiles_append`), and with a reader that notes every path it is
asked for (`reading`) no file after the first that fails is even read. A report holds a text and an output holds bytes, so this rests
on a property of steps: an output that takes everything only ever gets whole texts (`AddsText`).
-/

namespace NodeScript

/-! ## Outputs that hold a text -/

/-- The output takes everything, and what is written is the text. -/
structure Sink.Holds (s : Sink) (text : String) : Prop where
  room : s.room = none
  written : s.written = text.toUTF8

/-- A text that is written comes behind what was written before. -/
theorem Sink.Holds.write {s : Sink} {text : String} (h : s.Holds text) (more : String) : (s.write more).2.Holds (text ++ more) := by
  obtain ⟨written, room, refusal, flushFault⟩ := s
  obtain ⟨rfl, rfl⟩ := h
  refine ⟨rfl, ?_⟩
  show text.toUTF8 ++ more.toUTF8 = (text ++ more).toUTF8
  simp

/-- Bytes that are those of a text are shown as that text. -/
theorem Sink.text_of_written {s : Sink} {text : String} (h : s.written = text.toUTF8) : s.text = text := by
  have hvalid : text.toUTF8.IsValidUTF8 := text.isValidUTF8
  unfold Sink.text String.fromUTF8?
  rw [h, dif_pos hvalid]
  rfl

/-- Where the output holds a text, it holds that text with more behind it afterwards. -/
def AddsText (m m' : Machine) : Prop :=
  ∀ text, m.sink.Holds text → ∃ more, m'.sink.Holds (text ++ more)

theorem AddsText.of_sink_eq {m m' : Machine} (h : m'.sink = m.sink) : AddsText m m' := by
  intro text htext
  exact ⟨"", by rw [h, String.append_empty]; exact htext⟩

instance : IsPreorder Machine AddsText where
  refl _ := .of_sink_eq rfl
  trans _ _ _ h h' := by
    intro text htext
    obtain ⟨more, hmore⟩ := h text htext
    obtain ⟨most, hmost⟩ := h' _ hmore
    exact ⟨more ++ most, by rw [← String.append_assoc]; exact hmost⟩

namespace Exec

/-- Writing adds the text to an output that takes everything. -/
theorem write_addsText (more : String) : Keeps AddsText (write more) := by
  rintro ⟨env, heap, source, sink, depth⟩ text htext
  have hwrite := htext.write more
  unfold after write
  dsimp only
  rcases hw : sink.write more with ⟨_ | message, sink'⟩ <;>
  · rw [hw] at hwrite
    exact ⟨more, hwrite⟩

/-- Reading a line adds nothing. -/
theorem readLine_addsText : Keeps AddsText readLine := by
  intro m
  unfold after readLine
  cases m.source.line? <;> exact .of_sink_eq rfl

/-- A step in an environment of its own adds to the same output. -/
theorem enter_addsText {α : Type} {x : Exec α} (hx : Keeps AddsText x) (env : Env) : Keeps AddsText (Interp.enter env x) := by
  rintro ⟨callerEnv, heap, source, sink, depth⟩
  have h := hx ⟨env, heap, source, sink, depth + 1⟩
  unfold after at h ⊢
  unfold Interp.enter
  dsimp only
  cases hres : x ⟨env, heap, source, sink, depth + 1⟩ <;>
  · rw [hres] at h
    exact h

end Exec

open Exec

/-- Every step adds text to an output that holds a text. -/
def StepRule.text : StepRule where
  eval := Keeps AddsText
  exec _ := Keeps AddsText
  pure := .pure
  halt := .throw
  bind hx hf := hx.bind hf
  located span hx := hx.located span
  looking h m := by
    obtain ⟨y, hy, heq⟩ := h m
    unfold after
    rw [heq m.source m.sink]
    exact hy m
  change _ _ := .of_sink_eq rfl
  write := write_addsText
  flush := .flush
  readLine := readLine_addsText
  enter env hx := enter_addsText hx env
  exec_of_eval _ hx := hx
  exec_mono hx _ := hx
  exec_bind hx hf := hx.bind hf
  exec_located span hx := hx.located span
  bindName _ _ _ := .of_sink_eq rfl

/-- A whole program adds text, the flush at its end included. -/
theorem program_addsText (limit fuel : Nat) (code : Block FuncId) : Keeps AddsText ((interp limit fuel).program code) := by
  refine Keeps.bind ((StepRule.text.interp_holds limit fuel).block code) fun flow => ?_
  cases flow with
  | completed => exact .flush
  | returned s => exact .throw _

/-- What a program writes to an output that takes everything is a text. -/
theorem Program.run_holds {program : Program} {config : Config} {input : Source} {result : Except Halt Unit} {m : Machine}
    (h : program.run config input .unlimited = (result, m)) : ∃ text, m.sink.Holds text := by
  unfold Program.run at h
  rw [Program.runWith_eq_pair] at h
  have hadds := program_addsText config.callLimit runFuel (Program.number program 0).1 (.start input .unlimited) "" ⟨rfl, rfl⟩
  obtain ⟨text, htext⟩ := hadds
  rw [← Outcome.state_eq_of_pair h]
  exact ⟨_, htext⟩

/-! ## Files run alone -/

/-- A file holds a program that runs to its end, on its own, from an empty environment: on `input` it writes `output`, and leaves
`rest` unread. -/
def Completes (files : Files) (config : Config) (path : String) (input : Source) (output : String) (rest : Source) : Prop :=
  ∃ text program m, files.readText path = .ok text ∧ Program.ofText text = .ok program ∧
    program.run config input .unlimited = (.ok (), m) ∧ m.sink.written = output.toUTF8 ∧ m.source = rest

/-- A file fails on its own, after it has written `output`. -/
inductive Fails (files : Files) (config : Config) (path : String) (input : Source) : String → Prop where
  | unreadable {e : FileFault} (hread : files.readText path = .error e) : Fails files config path input ""
  | malformed {text : String} {log : ErrorLog} (hread : files.readText path = .ok text) (hload : Program.ofText text = .error log) :
    Fails files config path input ""
  | halted {text : String} {program : Program} {halt : Halt} {m : Machine} {output : String}
    (hread : files.readText path = .ok text) (hload : Program.ofText text = .ok program)
    (hrun : program.run config input .unlimited = (.error halt, m)) (hwritten : m.sink.written = output.toUTF8) :
    Fails files config path input output

/-- Files run to their ends, each alone and each on what the one before it left of the input: they write `outputs`, and leave the
last input unread. -/
inductive CompletesAll (files : Files) (config : Config) : List String → Source → List String → Source → Prop where
  | nil (input : Source) : CompletesAll files config [] input [] input
  | cons {path output : String} {rest outputs : List String} {input middle last : Source}
    (hfirst : Completes files config path input output middle) (hrest : CompletesAll files config rest middle outputs last) :
    CompletesAll files config (path :: rest) input (output :: outputs) last

/-- The file `path` is the first one that fails: those `before` it run to their ends and write `outputs`, and it fails on what they
leave of the input, after it has written `output`. -/
def StopsAt (files : Files) (config : Config) (paths : List String) (input : Source) (before : List String) (path : String)
    (outputs : List String) (output : String) : Prop :=
  ∃ after middle, paths = before ++ path :: after ∧ CompletesAll files config before input outputs middle ∧
    Fails files config path middle output

section

variable {files : Files} {config : Config} {parsed : Bool}

/-- A file runs to its end or fails. -/
theorem completes_or_fails (files : Files) (config : Config) (path : String) (input : Source) :
    (∃ output rest, Completes files config path input output rest) ∨ ∃ output, Fails files config path input output := by
  cases hread : files.readText path with
  | error e => exact .inr ⟨_, .unreadable hread⟩
  | ok text => cases hload : Program.ofText text with
    | error log => exact .inr ⟨_, .malformed hread hload⟩
    | ok program =>
      rcases hrun : program.run config input .unlimited with ⟨result, m⟩
      obtain ⟨output, houtput⟩ := Program.run_holds hrun
      cases result with
      | error halt => exact .inr ⟨output, .halted hread hload hrun houtput.written⟩
      | ok _ => exact .inl ⟨output, m.source, text, program, m, hread, hload, hrun, houtput.written, rfl⟩

/-- All files run to their ends, or there is a first one that fails. -/
theorem completesAll_or_stopsAt (files : Files) (config : Config) (paths : List String) (input : Source) :
    (∃ outputs last, CompletesAll files config paths input outputs last) ∨
      ∃ before path outputs output, StopsAt files config paths input before path outputs output := by
  induction paths generalizing input with
  | nil => exact .inl ⟨[], input, .nil input⟩
  | cons path rest ih =>
    rcases completes_or_fails files config path input with ⟨output, middle, hfirst⟩ | ⟨output, hfails⟩
    · rcases ih middle with ⟨outputs, last, hrest⟩ | ⟨before, path', outputs, output', after, middle', hsplit, hbefore, hfails⟩
      · exact .inl ⟨_, _, .cons hfirst hrest⟩
      · refine .inr ⟨path :: before, path', output :: outputs, output', after, middle', ?_, .cons hfirst hbefore, hfails⟩
        rw [hsplit, List.cons_append]
    · exact .inr ⟨[], path, [], output, rest, input, rfl, .nil input, hfails⟩

/-! ## Files run in sequence -/

/-- Reads files, and notes the path of each one. -/
def reading (files : Files) (path : String) : StateM (List String) (Except FileFault String) := do
  modify (· ++ [path])
  return files.readText path

namespace Command

theorem Report.after_empty : Report.after "" "" = id := by
  funext r
  simp [Report.after]

/-- A report after two outputs comes after the second one, and then after the first one. -/
theorem Report.after_comp_after (stdout stderr stdout' stderr' : String) :
    Report.after stdout stderr ∘ Report.after stdout' stderr' = Report.after (stdout ++ stdout') (stderr ++ stderr') := by
  funext r
  simp [Report.after, String.append_assoc]

/-- What is done with the first file, in terms of its text. -/
theorem runFiles_cons_run (files : Files) (config : Config) (parsed : Bool) (path : String) (rest : List String) (input : Source)
    (noted : List String) : (runFiles (reading files) config parsed (path :: rest) input).run noted =
      match files.readText path with
      | .error e => (unreadable path e, noted ++ [path])
      | .ok text => match Program.ofText text with
        | .error log => (⟨1, "", errorLines path log⟩, noted ++ [path])
        | .ok program =>
          let dump := if parsed then (Program.dump program).pretty 0 ++ "\n" else ""
          match program.run config input .unlimited with
          | (.ok _, m) =>
            Prod.map (Report.after m.sink.text dump) id
              ((runFiles (reading files) config parsed rest m.source).run (noted ++ [path]))
          | (.error halt, m) => (⟨1, m.sink.text, dump ++ path ++ ": " ++ halt.message ++ "\n"⟩, noted ++ [path]) := by
  have hnote : (reading files path).run noted = pure (files.readText path, noted ++ [path]) := rfl
  rw [runFiles, StateT.run_bind, hnote, pure_bind]
  cases files.readText path with
  | error e => rfl
  | ok text =>
    dsimp only
    cases Program.ofText text with
    | error log => rfl
    | ok program =>
      dsimp only
      rcases program.run config input .unlimited with ⟨_ | _, m⟩ <;> rfl

section

variable {path output : String} {input middle : Source}

/-- A file that runs to its end comes first, and the rest goes on from what it leaves of the input. -/
theorem runFiles_cons_of_completes (h : Completes files config path input output middle) (parsed : Bool)
    (rest noted : List String) : ∃ dump, (runFiles (reading files) config parsed (path :: rest) input).run noted =
      Prod.map (Report.after output dump) id ((runFiles (reading files) config parsed rest middle).run (noted ++ [path])) := by
  obtain ⟨text, program, m, hread, hload, hrun, hwritten, rfl⟩ := h
  refine ⟨if parsed then (Program.dump program).pretty 0 ++ "\n" else "", ?_⟩
  simp only [runFiles_cons_run, hread, hload, hrun, Sink.text_of_written hwritten]

/-- A file that fails is the last that is read. -/
theorem runFiles_cons_of_fails (h : Fails files config path input output) (parsed : Bool) (rest noted : List String) :
    ∃ stderr, (runFiles (reading files) config parsed (path :: rest) input).run noted = (⟨1, output, stderr⟩, noted ++ [path]) := by
  rw [runFiles_cons_run]
  cases h with
  | unreadable hread =>
    simp only [hread]
    exact ⟨_, rfl⟩
  | malformed hread hload =>
    simp only [hread, hload]
    exact ⟨_, rfl⟩
  | halted hread hload hrun hwritten =>
    simp only [hread, hload, hrun, Sink.text_of_written hwritten]
    exact ⟨_, rfl⟩

end

/-- Files that run to their ends come first, and the others go on from what they leave of the input. -/
theorem runFiles_append {before outputs : List String} {input middle : Source}
    (h : CompletesAll files config before input outputs middle) (parsed : Bool) (after noted : List String) :
    ∃ dumps, (runFiles (reading files) config parsed (before ++ after) input).run noted =
      Prod.map (Report.after (String.join outputs) dumps) id
        ((runFiles (reading files) config parsed after middle).run (noted ++ before)) := by
  induction h generalizing noted with
  | nil input =>
    refine ⟨"", ?_⟩
    rw [String.join_nil, Report.after_empty, Prod.map_id, List.nil_append, List.append_nil]
    rfl
  | @cons path output rest outputs _ middle last hfirst hrest ih =>
    obtain ⟨dump, hdump⟩ := runFiles_cons_of_completes hfirst parsed (rest ++ after) noted
    obtain ⟨dumps, hdumps⟩ := ih (noted ++ [path])
    refine ⟨dump ++ dumps, ?_⟩
    rw [List.cons_append, hdump, hdumps, Prod.map_map, Report.after_comp_after, String.join_cons, List.append_assoc]
    rfl

/-- Where all files run to their ends, all are read, and the outputs follow each other. -/
theorem runFiles_of_completesAll {paths outputs : List String} {input last : Source}
    (h : CompletesAll files config paths input outputs last) (parsed : Bool) :
    ∃ stderr, (runFiles (reading files) config parsed paths input).run [] = (⟨0, String.join outputs, stderr⟩, paths) := by
  obtain ⟨dumps, hdumps⟩ := runFiles_append h parsed [] []
  refine ⟨dumps, ?_⟩
  rw [List.append_nil, List.nil_append] at hdumps
  rw [hdumps]
  show (Report.after (String.join outputs) dumps .success, paths) = _
  simp [Report.after, Report.success]

/-- Where a file fails, it is the last that is read, and its output is the last. -/
theorem runFiles_of_stopsAt {paths before outputs : List String} {path output : String} {input : Source}
    (h : StopsAt files config paths input before path outputs output) (parsed : Bool) :
    ∃ stderr, (runFiles (reading files) config parsed paths input).run [] =
      (⟨1, String.join outputs ++ output, stderr⟩, before ++ [path]) := by
  obtain ⟨after, middle, rfl, hbefore, hfails⟩ := h
  obtain ⟨dumps, hdumps⟩ := runFiles_append hbefore parsed (path :: after) []
  obtain ⟨stderr, hstderr⟩ := runFiles_cons_of_fails hfails parsed after ([] ++ before)
  refine ⟨dumps ++ stderr, ?_⟩
  rw [hdumps, hstderr]
  rfl

/-- Noting what is read changes nothing else. -/
theorem runFiles_reading (files : Files) (config : Config) (parsed : Bool) (paths : List String) (input : Source)
    (noted : List String) : ((runFiles (reading files) config parsed paths input).run noted).1 =
      Id.run (runFiles (fun path => pure (files.readText path)) config parsed paths input) := by
  induction paths generalizing input noted with
  | nil => rfl
  | cons path rest ih =>
    rw [runFiles_cons_run, runFiles, Id.run_bind, Id.run_pure]
    cases files.readText path with
    | error e => rfl
    | ok text =>
      dsimp only
      cases Program.ofText text with
      | error log => rfl
      | ok program =>
        dsimp only
        rcases program.run config input .unlimited with ⟨_ | _, m⟩
        · rfl
        · dsimp only
          rw [Id.run_bind, ← ih m.source (noted ++ [path])]
          rfl

end Command

end

/-- To run files is sequential composition, for any files, limits and input. If there is a first file that cannot be read, is no
program, or fails when it runs, then the output is that of the files before it, each run alone from an empty environment on what its
predecessors left of the input, and then what it wrote before it failed; it is the last file that is read. Otherwise all files are
read, and the output is that of all of them. The code is 0 if and only if no file fails. -/
theorem runs_in_sequence (files : Files) (config : Config) (parsed : Bool) (paths : List String) (input : Source) :
    ∃ report noted, (Command.runFiles (reading files) config parsed paths input).run [] = (report, noted) ∧
      Command.perform files config input (.run paths parsed) = report ∧
      (report.code = 0 ↔ ¬∃ before path outputs output, StopsAt files config paths input before path outputs output) ∧
      ((∃ outputs last, CompletesAll files config paths input outputs last ∧ report.code = 0 ∧
          report.stdout = String.join outputs ∧ noted = paths) ∨
        ∃ before path outputs output, StopsAt files config paths input before path outputs output ∧ report.code = 1 ∧
          report.stdout = String.join outputs ++ output ∧ noted = before ++ [path]) := by
  have hperform := Command.runFiles_reading files config parsed paths input []
  rcases completesAll_or_stopsAt files config paths input with ⟨outputs, last, hall⟩ | ⟨before, path, outputs, output, hstop⟩
  · obtain ⟨stderr, hrun⟩ := Command.runFiles_of_completesAll hall parsed
    refine ⟨_, _, hrun, ?_, ⟨fun _ => ?_, fun _ => rfl⟩, .inl ⟨outputs, last, hall, rfl, rfl, rfl⟩⟩
    · rw [hrun] at hperform
      exact hperform.symm
    · -- A file that fails would give the code 1.
      rintro ⟨before, path, outputs', output, hstop⟩
      obtain ⟨stderr', hrun'⟩ := Command.runFiles_of_stopsAt hstop parsed
      rw [hrun] at hrun'
      exact absurd (congrArg (·.1.code) hrun') Nat.zero_ne_one
  · obtain ⟨stderr, hrun⟩ := Command.runFiles_of_stopsAt hstop parsed
    refine ⟨_, _, hrun, ?_, ⟨nofun, fun hnone => ?_⟩, .inr ⟨before, path, outputs, output, hstop, rfl, rfl, rfl⟩⟩
    · rw [hrun] at hperform
      exact hperform.symm
    · exact absurd ⟨before, path, outputs, output, hstop⟩ hnone

end NodeScript
