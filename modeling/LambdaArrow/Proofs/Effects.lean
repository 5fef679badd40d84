import LambdaArrow.Proofs.Files
import LambdaArrow.Proofs.Run
import LambdaArrow.Sandbox.Machine

/-! What a run of the command does to a machine. Up to the file everything may fail, and then nothing has
    been done but a report; from the file on the run is bound to have written and echoed:

        extension ─▶ read ─▶ compile ─▶ write ─▶ echo ─▶ start the runtime
            │          │        │         │                │
            ▼          ▼        ▼         ▼                ▼
           `Error: …` and code 1, no file, no output     `Error: …` and code 1, or the code of the program

    The log goes to the same stream as the report, in front of it. -/

namespace LambdaArrow

namespace Text

theorem toBytes_nil : toBytes [] = ByteArray.empty := rfl

theorem toBytes_append (first second : Text) : toBytes (first ++ second) = first.toBytes ++ second.toBytes := by
  simp [toBytes, String.ofList_append]

theorem ofBytes?_toBytes (text : Text) : ofBytes? text.toBytes = some text := by
  have hvalid : text.toBytes.IsValidUTF8 := (String.ofList text).isValidUTF8
  rw [ofBytes?, String.fromUTF8?, dif_pos hvalid]
  exact congrArg some String.toList_ofList

/-- There are no words in blanks alone. -/
theorem words_eq_nil_iff : ∀ {text : Text}, words text = [] ↔ ∀ c ∈ text, isBlank c
  | [] => by simp [words]
  | c :: cs => by
    have ih : words cs = [] ↔ ∀ c ∈ cs, isBlank c := words_eq_nil_iff
    by_cases hc : isBlank c
    · have hwords : words (c :: cs) = words cs := by simp [words, List.splitOnP_cons_eq_if_modifyHead, hc]
      rw [hwords, ih]
      simp [hc]
    · obtain ⟨piece, pieces, hpieces⟩ := List.exists_cons_of_ne_nil (List.splitOnP_ne_nil isBlank cs)
      have hwords : words (c :: cs) ≠ [] := by simp [words, List.splitOnP_cons_eq_if_modifyHead, hc, hpieces]
      simp [hwords, hc]

end Text

/-! ### Steps -/

namespace Machine

variable (machine : Machine) (first second : Text)

@[simp]
theorem report_nil : machine.report [] = machine := by
  simp [report, Text.toBytes_nil]

@[simp]
theorem report_report : (machine.report first).report second = machine.report (first ++ second) := by
  simp [report, Text.toBytes_append, ByteArray.append_assoc]

@[simp]
theorem print_nil : machine.print [] = machine := by
  simp [print, Text.toBytes_nil]

end Machine

namespace Action

/-- The programs that an action starts on a machine, with their arguments. -/
def started (launcher : Launcher) : Action → Machine → List (Text × List Text)
  | .exit _, _ => []
  | .print text next, machine => next.started launcher (machine.print text)
  | .report text next, machine => next.started launcher (machine.report text)
  | .note speaker entry next, machine => next.started launcher (machine.note speaker entry)
  | .read path next, machine => (next (machine.files.read path)).started launcher machine
  | .write path bytes next, machine =>
    let (result, after) := machine.write path bytes
    (next result).started launcher after
  | .launch program arguments next, machine =>
    let (result, after) := machine.launch launcher program arguments
    (program, arguments) :: (next result).started launcher after

/-- What an action comes to on a machine: the programs it starts, the exit code, and the machine after it. -/
def outcome (launcher : Launcher) (action : Action) (machine : Machine) :
    List (Text × List Text) × Nat × Machine :=
  (action.started launcher machine, action.perform launcher machine)

/-- Lines of a log for entries that are shown, each with its speaker. -/
def Logged (format : Log.Format) (last : Option Log.Level) (text : Text) : Prop :=
  ∃ entries : List (Text × Log.Entry), (∀ entry ∈ entries, entry.2.shown last) ∧
    text = entries.flatMap fun (speaker, entry) => format speaker entry

variable {format : Log.Format} {last : Option Log.Level}

theorem Logged.nil : Logged format last [] := ⟨[], by simp, rfl⟩

theorem Logged.append {first second : Text} (hfirst : Logged format last first)
    (hsecond : Logged format last second) : Logged format last (first ++ second) := by
  obtain ⟨entries, hentries, rfl⟩ := hfirst
  obtain ⟨more, hmore, rfl⟩ := hsecond
  refine ⟨entries ++ more, fun entry hentry => ?_, by simp⟩
  exact (List.mem_append.1 hentry).elim (hentries entry) (hmore entry)

/-- Where no level is shown the log is empty. -/
theorem Logged.eq_nil {text : Text} (h : Logged format none text) : text = [] := by
  obtain ⟨entries, hentries, rfl⟩ := h
  cases entries with
  | nil => rfl
  | cons entry rest => exact absurd (hentries entry List.mem_cons_self) (by simp [Log.Entry.shown])

/-- Logging reports lines of the log and goes on. -/
theorem exists_log (launcher : Launcher) (format : Log.Format) (last : Option Log.Level) (speaker : Text)
    (entries : List Log.Entry) : ∃ text, Logged format last text ∧
      ∀ (next : Action) (machine : Machine), machine.format = format →
        (log last speaker entries next).outcome launcher machine =
          next.outcome launcher (machine.report text) := by
  have hshown : ∀ entry ∈ entries.filter (·.shown last), entry.shown last := fun entry hentry =>
    (List.mem_filter.1 hentry).2
  unfold log
  generalize entries.filter (·.shown last) = shown at hshown ⊢
  induction shown with
  | nil => exact ⟨[], Logged.nil, fun next machine _ => by simp⟩
  | cons entry rest ih =>
    obtain ⟨text, htext, hnext⟩ := ih fun other hother => hshown other (List.mem_cons_of_mem entry hother)
    have hline : Logged format last (format speaker entry) :=
      ⟨[(speaker, entry)], by simpa using hshown entry List.mem_cons_self, by simp⟩
    refine ⟨format speaker entry ++ text, hline.append htext, fun next machine hformat => ?_⟩
    have hnote : machine.note speaker entry = machine.report (format speaker entry) := by
      rw [Machine.note, hformat]
    rw [← Machine.report_report, ← hnote]
    exact hnext next (machine.note speaker entry) hformat

end Action

namespace Machine

/-- The machine with a failure told on the stream of errors. -/
def tell (machine : Machine) (failure : Failure) : Machine :=
  machine.report ("Error: ".toList ++ failure.message ++ ['\n'])

end Machine

theorem Action.outcome_fail (launcher : Launcher) (failure : Failure) (machine : Machine) :
    (fail failure).outcome launcher machine = ([], 1, machine.tell failure) :=
  rfl

namespace Invocation

variable (invocation : Invocation) (today : Date) (files : FileTree)

/-! ### What can happen -/

/-- The input has the right name and holds the source. -/
structure Reads (source : Text) : Prop where
  extension : Path.extension? invocation.input = some Path.sourceExtension
  text : ∃ bytes, files.read invocation.input = .ok bytes ∧ Text.ofBytes? bytes = some source

/-- Why a run cannot write its output, with the first reason that applies. -/
inductive Fails : Failure → Prop where
  | extension (h : Path.extension? invocation.input ≠ some Path.sourceExtension) :
    Fails (.extension invocation.input)
  | read {fault : Fault} (hextension : Path.extension? invocation.input = some Path.sourceExtension)
    (h : files.read invocation.input = .error fault) : Fails (.read invocation.input fault)
  | notText {bytes : ByteArray}
    (hextension : Path.extension? invocation.input = some Path.sourceExtension)
    (hread : files.read invocation.input = .ok bytes) (h : Text.ofBytes? bytes = none) :
    Fails (.read invocation.input .notText)
  | compile {source : Text} {error : Error} (hread : invocation.Reads files source)
    (h : compileProgram today source = .error error) : Fails (.compile error)
  | write {source js : Text} {fault : Fault} (hread : invocation.Reads files source)
    (hcompile : compileProgram today source = .ok js)
    (h : files.write invocation.output js.toBytes = .error fault) :
    Fails (.write invocation.output fault)

/-- The source is read and compiled to `js`, and the output is written. -/
structure Writes (js : Text) (after : FileTree) : Prop where
  compile : ∃ source, invocation.Reads files source ∧ compileProgram today source = .ok js
  write : files.write invocation.output js.toBytes = .ok after

/-- How a run ends on a machine where the output is written and echoed: the programs that are started, the
    exit code, and the machine in the end. -/
inductive Ends (launcher : Launcher) (delivered : Machine) :
    List (Text × List Text) × Nat × Machine → Prop where
  | exit (h : invocation.run = false) : Ends launcher delivered ([], 0, delivered)
  | emptyRuntime (hrun : invocation.run = true) (h : ∀ c ∈ invocation.runtime, Text.isBlank c) :
    Ends launcher delivered ([], 1, delivered.tell .emptyRuntime)
  | notLaunched {program : Text} {arguments : List Text} {fault : Fault} (hrun : invocation.run = true)
    (hruntime : Text.words invocation.runtime = program :: arguments)
    (h : launcher delivered.files program (arguments ++ [invocation.output]) = .error fault) :
    Ends launcher delivered ([(program, arguments ++ [invocation.output])], 1,
      delivered.tell (.launch invocation.runtime fault))
  | launched {program : Text} {arguments : List Text} {finished : Finished}
    (hrun : invocation.run = true) (hruntime : Text.words invocation.runtime = program :: arguments)
    (h : launcher delivered.files program (arguments ++ [invocation.output]) = .ok finished) :
    Ends launcher delivered ([(program, arguments ++ [invocation.output])], finished.code.getD 1,
      { delivered with
        files := finished.files
        stdout := delivered.stdout ++ finished.stdout
        stderr := delivered.stderr ++ finished.stderr })

variable {invocation today files}

theorem fails_or_writes : (∃ failure, invocation.Fails today files failure) ∨
    ∃ js after, invocation.Writes today files js after := by
  by_cases hextension : Path.extension? invocation.input = some Path.sourceExtension
  · cases hread : files.read invocation.input with
    | error fault => exact Or.inl ⟨_, .read hextension hread⟩
    | ok bytes =>
      cases htext : Text.ofBytes? bytes with
      | none => exact Or.inl ⟨_, .notText hextension hread htext⟩
      | some source =>
        have hreads : invocation.Reads files source := ⟨hextension, bytes, hread, htext⟩
        cases hcompile : compileProgram today source with
        | error error => exact Or.inl ⟨_, .compile hreads hcompile⟩
        | ok js =>
          cases hwrite : files.write invocation.output js.toBytes with
          | error fault => exact Or.inl ⟨_, .write hreads hcompile hwrite⟩
          | ok after => exact Or.inr ⟨js, after, ⟨source, hreads, hcompile⟩, hwrite⟩
  · exact Or.inl ⟨_, .extension hextension⟩

/-! ### What a run does -/

variable (launcher : Launcher) (last : Option Log.Level)

theorem exists_ends_execute (hrun : invocation.run = true) (machine : Machine) :
    ∃ log, Action.Logged machine.format last log ∧ invocation.Ends launcher (machine.report log)
      ((invocation.execute last).outcome launcher machine) := by
  unfold execute
  split
  · rename_i hwords
    refine ⟨[], .nil, ?_⟩
    rw [Machine.report_nil]
    exact .emptyRuntime hrun (Text.words_eq_nil_iff.1 hwords)
  · rename_i program arguments hwords
    obtain ⟨log, hlog, hnext⟩ := Action.exists_log launcher machine.format last commandSpeaker
      [⟨.info, "running ".toList ++ invocation.output ++ " with ".toList ++ invocation.runtime⟩]
    refine ⟨log, hlog, ?_⟩
    rw [hnext _ machine rfl]
    cases hlaunch : launcher (machine.report log).files program (arguments ++ [invocation.output]) with
    | error fault =>
      simp only [Action.outcome, Action.started, Action.perform, Machine.launch, hlaunch]
      exact .notLaunched hrun hwords hlaunch
    | ok finished =>
      simp only [Action.outcome, Action.started, Action.perform, Machine.launch, hlaunch]
      exact .launched hrun hwords hlaunch

/-- What is printed of the compiled program. -/
def echo (invocation : Invocation) (js : Text) : Text := if invocation.quiet then [] else js

/-- A run on a machine that has the output written. -/
theorem exists_ends_deliver (js : Text) (machine : Machine) :
    ∃ log, Action.Logged machine.format last log ∧
      invocation.Ends launcher ((machine.print (invocation.echo js)).report log)
        ((invocation.deliver last js).outcome launcher machine) := by
  obtain ⟨first, hfirst, hnext⟩ := Action.exists_log launcher machine.format last commandSpeaker
    [⟨.info, "transpiled ".toList ++ invocation.input ++ " to ".toList ++ invocation.output⟩]
  have hfinish : ∀ printed : Machine, ∃ log, Action.Logged printed.format last log ∧
      invocation.Ends launcher (printed.report log)
        ((if invocation.run then invocation.execute last else .exit 0).outcome launcher printed) := by
    intro printed
    cases hrun : invocation.run with
    | false => exact ⟨[], .nil, by rw [Machine.report_nil]; exact .exit hrun⟩
    | true => exact exists_ends_execute launcher last hrun printed
  obtain ⟨second, hsecond, hends⟩ := hfinish ((machine.print (invocation.echo js)).report first)
  rw [Machine.report_report] at hends
  refine ⟨first ++ second, hfirst.append hsecond, ?_⟩
  unfold deliver
  rw [hnext _ machine rfl]
  unfold echo at hends ⊢
  split
  · rename_i hquiet
    rw [if_pos hquiet, Machine.print_nil] at hends
    rw [Machine.print_nil]
    exact hends
  · rename_i hquiet
    rw [if_neg hquiet] at hends
    exact hends

variable {source js : Text} {machine : Machine}

/-- A run goes on to build what it has read. -/
theorem outcome_action_of_reads (h : invocation.Reads machine.files source) :
    (invocation.action last today).outcome launcher machine =
      (invocation.build last today source).outcome launcher machine := by
  obtain ⟨hextension, bytes, hread, htext⟩ := h
  simp [action, hextension, Action.outcome, Action.perform, Action.started, hread, sourceOf, htext]

/-- The log of the compiler comes first, whatever the source compiles to. -/
theorem exists_outcome_build (today : Date) (source : Text) :
    ∃ log, Action.Logged machine.format last log ∧
    (∀ error, compileProgram today source = .error error →
      (invocation.build last today source).outcome launcher machine =
        ([], 1, (machine.report log).tell (.compile error))) ∧
    (∀ js fault, compileProgram today source = .ok js →
      machine.files.write invocation.output js.toBytes = .error fault →
        (invocation.build last today source).outcome launcher machine =
          ([], 1, (machine.report log).tell (.write invocation.output fault))) ∧
    ∀ js after, compileProgram today source = .ok js →
      machine.files.write invocation.output js.toBytes = .ok after →
        (invocation.build last today source).outcome launcher machine =
          (invocation.deliver last js).outcome launcher { machine.report log with files := after } := by
  obtain ⟨log, hlog, hnext⟩ := Action.exists_log launcher machine.format last compilerSpeaker
    ((Session.start today).compileProgram source).log
  have hfiles : (machine.report log).files = machine.files := rfl
  unfold compileProgram build
  rw [hnext _ machine rfl]
  refine ⟨log, hlog, fun error hcompile => ?_, fun js fault hcompile hwrite => ?_,
    fun js after hcompile hwrite => ?_⟩
  · rw [hcompile]
    exact Action.outcome_fail launcher (.compile error) (machine.report log)
  · simp only [hcompile, Action.outcome, Action.perform, Action.started, Machine.write, hfiles, hwrite]
    exact Action.outcome_fail launcher _ (machine.report log)
  · simp only [hcompile, Action.outcome, Action.perform, Action.started, Machine.write, hfiles, hwrite]

/-- A run that cannot write its output does nothing but tell why, behind the log. -/
theorem exists_outcome_of_fails {failure : Failure} (h : invocation.Fails today machine.files failure) :
    ∃ log, Action.Logged machine.format last log ∧
      (invocation.action last today).outcome launcher machine =
        ([], 1, (machine.report log).tell failure) := by
  cases h with
  | extension hextension =>
    refine ⟨[], .nil, ?_⟩
    rw [Machine.report_nil, action, if_neg hextension]
    exact Action.outcome_fail launcher _ machine
  | read hextension hread =>
    refine ⟨[], .nil, ?_⟩
    rw [Machine.report_nil, action, if_pos hextension]
    simp only [Action.outcome, Action.perform, Action.started, hread, sourceOf]
    exact Action.outcome_fail launcher _ machine
  | notText hextension hread htext =>
    refine ⟨[], .nil, ?_⟩
    rw [Machine.report_nil, action, if_pos hextension]
    simp only [Action.outcome, Action.perform, Action.started, hread, sourceOf, htext, Option.elim_none]
    exact Action.outcome_fail launcher _ machine
  | @compile source error hread hcompile =>
    obtain ⟨log, hlog, herror, -⟩ := exists_outcome_build launcher last today source
    rw [outcome_action_of_reads launcher last hread]
    exact ⟨log, hlog, herror error hcompile⟩
  | @write source js fault hread hcompile hwrite =>
    obtain ⟨log, hlog, -, hfault, -⟩ := exists_outcome_build launcher last today source
    rw [outcome_action_of_reads launcher last hread]
    exact ⟨log, hlog, hfault js fault hcompile hwrite⟩

/-- A run that can write its output has done so, and echoed it, when it ends. -/
theorem exists_ends_action {after : FileTree} (h : invocation.Writes today machine.files js after) :
    ∃ log, Action.Logged machine.format last log ∧ invocation.Ends launcher
      { machine with
        files := after
        stdout := machine.stdout ++ (invocation.echo js).toBytes
        stderr := machine.stderr ++ log.toBytes }
      ((invocation.action last today).outcome launcher machine) := by
  obtain ⟨⟨source, hread, hcompile⟩, hwrite⟩ := h
  obtain ⟨first, hfirst, -, -, hdeliver⟩ := exists_outcome_build launcher last today source
  obtain ⟨second, hsecond, hends⟩ :=
    exists_ends_deliver launcher last js { machine.report first with files := after }
  refine ⟨first ++ second, hfirst.append hsecond, ?_⟩
  rw [outcome_action_of_reads launcher last hread, hdeliver js after hcompile hwrite, Text.toBytes_append,
    ← ByteArray.append_assoc]
  exact hends

/-- CORRECT: a run either fails before it has written its output, or it writes it. If it fails, it exits with
    code 1, tells why on the stream of errors, and has neither printed nor started anything nor changed a
    file. Otherwise the output holds the compiled program and no other place is changed, the program is
    printed unless the run is quiet, and only then is the runtime started, whose code is the exit code. -/
theorem outcome_action (launcher : Launcher) (invocation : Invocation) (last : Option Log.Level)
    (today : Date) (machine : Machine) :
    (∀ failure, invocation.Fails today machine.files failure →
      ∃ log, Action.Logged machine.format last log ∧
        (invocation.action last today).outcome launcher machine =
          ([], 1, { machine with
            stderr := machine.stderr ++
              (log ++ ("Error: ".toList ++ failure.message ++ ['\n'])).toBytes })) ∧
    (∀ js after, invocation.Writes today machine.files js after →
      machine.files.Stores invocation.output js.toBytes after ∧
      ∃ log, Action.Logged machine.format last log ∧ invocation.Ends launcher
        { machine with
          files := after
          stdout := machine.stdout ++ (invocation.echo js).toBytes
          stderr := machine.stderr ++ log.toBytes }
        ((invocation.action last today).outcome launcher machine)) ∧
    ((∃ failure, invocation.Fails today machine.files failure) ∨
      ∃ js after, invocation.Writes today machine.files js after) := by
  refine ⟨fun failure hfails => ?_, fun js after hwrites => ⟨?_, ?_⟩, fails_or_writes⟩
  · obtain ⟨log, hlog, houtcome⟩ := exists_outcome_of_fails launcher last hfails
    rw [Machine.tell, Machine.report_report] at houtcome
    exact ⟨log, hlog, houtcome⟩
  · exact FileTree.stores_of_write hwrites.write
  · exact exists_ends_action launcher last hwrites

/-- The output is also the input, so the source gives way to what it compiles to. The program that is then
    started gets killed, which is code 1. Where the file is missing, cannot be read, or can be read and not be
    written, that is told and the file stays. -/
theorem outcome_action_same_path :
    let invocation : Invocation := ⟨"p.lc".toList, "p.lc".toList, true, true, "cat".toList⟩
    let launcher : Launcher := fun files _ _ => .ok ⟨none, files, ByteArray.empty, ByteArray.empty⟩
    let run := (invocation.action none ⟨2025, .february, 24⟩).outcome launcher
    let files := (FileTree.bare []).plant "p.lc".toList (Text.toBytes "x".toList)
    let hidden : Machine := .boot { files with
      refusal? := fun access _ => match access with | .read => some (.other "gone".toList) | _ => none }
    let sealed : Machine := .boot { files with
      refusal? := fun access _ => match access with | .write _ => some .denied | _ => none }
    (∃ js after, compileProgram ⟨2025, .february, 24⟩ "x".toList = .ok js ∧
      files.Stores "p.lc".toList js.toBytes after ∧ (run (.boot files)).2 = (1, .boot after)) ∧
    run (.boot (FileTree.bare [])) =
      ([], 1, (Machine.boot (FileTree.bare [])).tell (.read "p.lc".toList .notFound)) ∧
    run hidden = ([], 1, hidden.tell (.read "p.lc".toList (.other "gone".toList))) ∧
    run sealed = ([], 1, sealed.tell (.write "p.lc".toList .denied)) := by
  intro invocation launcher run files hidden sealed
  have htext : compileProgram ⟨2025, .february, 24⟩ "x".toList =
      .ok (Program.render ⟨⟨2025, .february, 24⟩, [⟨.statement, "x;".toList⟩]⟩) :=
    Session.text_eq_ok_iff.2 ⟨_, by cbv, rfl⟩
  -- a run that fails has an empty log here, so all that it leaves is the failure
  have hfails : ∀ machine failure, invocation.Fails ⟨2025, .february, 24⟩ machine.files failure →
      run machine = ([], 1, machine.tell failure) := by
    intro machine failure h
    obtain ⟨log, hlog, houtcome⟩ :=
      (outcome_action launcher invocation none ⟨2025, .february, 24⟩ machine).1 failure h
    cases hlog.eq_nil
    exact houtcome
  refine ⟨?_, hfails _ _ (.read (by cbv) (by cbv)), hfails _ _ (.read (by cbv) (by cbv)), hfails _ _ ?_⟩
  · have hreads : invocation.Reads files "x".toList := ⟨by cbv, _, by cbv, Text.ofBytes?_toBytes _⟩
    have hwrite : ∀ bytes, files.write "p.lc".toList bytes =
        .ok ((FileTree.bare []).plant "p.lc".toList bytes) := by
      intro bytes
      cbv
    obtain ⟨hstores, log, hlog, hends⟩ := (outcome_action launcher invocation none ⟨2025, .february, 24⟩
      (.boot files)).2.1 _ _ ⟨⟨_, hreads, htext⟩, hwrite _⟩
    refine ⟨_, _, htext, hstores, ?_⟩
    cases hlog.eq_nil
    change invocation.Ends launcher _ (run (.boot files)) at hends
    generalize run (.boot files) = result at hends ⊢
    cases hends with
    | exit hrun => cases hrun
    | emptyRuntime _ hblank => exact absurd (hblank 'c' (by simp [invocation])) (by decide)
    | notLaunched _ _ hlaunch => cases hlaunch
    | launched _ _ hlaunch =>
      cases hlaunch
      simp [Machine.boot, echo, Text.toBytes_nil, invocation]
  · have hreads : invocation.Reads sealed.files "x".toList :=
      ⟨by cbv, _, by cbv, Text.ofBytes?_toBytes _⟩
    have hwrite : ∀ bytes, sealed.files.write "p.lc".toList bytes = .error .denied := by
      intro bytes
      cbv
    exact .write hreads htext (hwrite _)

end Invocation

end LambdaArrow
