import Mathlib
import TreeScript.CommandLine.Run
import TreeScript.Proofs.Lockstep
import TreeScript.Proofs.Soundness
import TreeScript.Proofs.Stages
import TreeScript.Proofs.Trace

/-!
# Files run in turn

A run from the command line is told as a sequence of calls of `interpret` on one interpreter, one
call for each file that can be loaded: `Interprets`. The stages of a job and the notices of the
command line come to the same streams.
-/

namespace TreeScript

namespace Interpreter

def reporting (s : Interpreter) (reported : List String) : Interpreter := { s with reported }

theorem statementLockstep_reporting (reported : List String) :
    StatementLockstep fun s t => t = s.reporting reported where
  chain := by rintro s t rfl; rfl
  level := by rintro s t rfl; rfl
  maxDepth := by rintro s t rfl; rfl
  setChain := by rintro s t rfl chain; rfl
  setLevel := by rintro s t rfl level; rfl
  cause := by rintro s t rfl; rfl
  look := by rintro s t rfl; rfl
  printLine := by rintro s t rfl line; rfl

theorem execute_reporting [Machine] (program : List Stmt) (s : Interpreter)
    (reported : List String) :
    execute program (s.reporting reported) =
      ((execute program s).1, (execute program s).2.reporting reported) := by
  obtain ⟨houtcome, hstate⟩ := (statementLockstep_reporting reported).execute program s _ rfl
  exact Prod.ext houtcome hstate

theorem output_of_printed {s t : Interpreter} {lines : List String}
    (h : t.printed = lines.reverse ++ s.printed) :
    t.output = s.output ++ String.join (lines.map (· ++ "\n")) := by
  rw [output, h, List.reverse_append, List.reverse_reverse, List.map_append, String.join_append]
  rfl

theorem errors_report (s : Interpreter) (report : String) :
    Interpreter.errors { s with reported := report :: s.reported } =
      s.errors ++ (report ++ "\n") := by
  simp [errors, String.join_append]

end Interpreter

namespace CommandLine

/-- From an interpreter, the files at the given paths are run one after the other: what is written
to the two streams, and the interpreter at the end. -/
inductive Interprets [Machine] (fs : FileSystem) :
    Interpreter → List String → String → String → Interpreter → Prop where
  | nil {s} : Interprets fs s [] "" "" s
  | unloaded {s path rest e out err t} : Program.load fs path = .error e →
    Interprets fs s rest out err t →
    Interprets fs s (path :: rest) out ((e.message ++ "\n") ++ err) t
  | loaded {s path rest p s₁ out₁ err₁ out err t} : Program.load fs path = .ok p →
    Interpreter.interpret p.statements s = (.value (), s₁) → s₁.output = s.output ++ out₁ →
    s₁.errors = s.errors ++ err₁ → Interprets fs s₁ rest out err t →
    Interprets fs s (path :: rest) (out₁ ++ out) (err₁ ++ err) t

theorem Interprets.deterministic [Machine] {fs : FileSystem} {s t t' : Interpreter}
    {paths : List String} {out err out' err' : String} (h : Interprets fs s paths out err t)
    (h' : Interprets fs s paths out' err' t') : out = out' ∧ err = err' ∧ t = t' := by
  induction h generalizing out' err' with
  | nil =>
      cases h'
      exact ⟨rfl, rfl, rfl⟩
  | unloaded hload _ ih =>
      cases h' with
      | unloaded hload' hrest' =>
          obtain ⟨rfl, rfl, rfl⟩ := ih hrest'
          cases hload.symm.trans hload'
          exact ⟨rfl, rfl, rfl⟩
      | loaded hload' _ _ _ _ => cases hload.symm.trans hload'
  | loaded hload hrun hout herr _ ih =>
      cases h' with
      | unloaded hload' _ => cases hload.symm.trans hload'
      | loaded hload' hrun' hout' herr' hrest' =>
          cases hload.symm.trans hload'
          cases hrun.symm.trans hrun'
          obtain ⟨rfl, rfl, rfl⟩ := ih hrest'
          have heqout := (String.append_right_inj _).1 (hout.symm.trans hout')
          have heqerr := (String.append_right_inj _).1 (herr.symm.trans herr')
          exact ⟨by rw [heqout], by rw [heqerr], rfl⟩

/-! ## One file -/

section File

variable {fs : FileSystem} {path : String}

def contextOf (path : String) (source : Option RawText) :
    Except Program.LoadError Program → Pipeline.Context
  | .ok p => { file := path, source, program := some p }
  | .error e => { file := path, source, failures := [.load e] }

theorem context_decode (path : String) (text : RawText) :
    Pipeline.Context.decode { file := path, source := some text } =
      contextOf path (some text) (Program.ofText path text) := by
  have hboth (decoded : Except Program.LoadError Program) :
      (match decoded with
        | .ok p => ({ file := path, source := some text, program := some p } : Pipeline.Context)
        | .error e => Pipeline.Context.record { file := path, source := some text } (.load e)) =
      contextOf path (some text) decoded := by
    cases decoded <;> rfl
  unfold Pipeline.Context.decode
  exact hboth (Program.ofText path text)

theorem context_load (fs : FileSystem) (hpath : path ≠ "") :
    ∃ source, Pipeline.Context.load fs { file := path } =
      contextOf path source (Program.load fs path) := by
  have hempty : path.isEmpty = false := String.isEmpty_eq_false_iff.2 hpath
  unfold Pipeline.Context.load Program.load
  rw [hempty]
  cases hread : fs.read path with
  | error e => exact ⟨none, rfl⟩
  | ok text => exact ⟨some text, context_decode path text⟩

theorem runFile_of_error [Machine] (hpath : path ≠ "") {e : Program.LoadError}
    (hload : Program.load fs path = .error e) (s : Interpreter) :
    ∃ source, runFile fs s path = ⟨contextOf path source (.error e), s⟩ := by
  obtain ⟨source, hcontext⟩ := context_load fs hpath
  rw [hload] at hcontext
  refine ⟨source, ?_⟩
  change Pipeline.Job.execute ⟨Pipeline.Context.load fs { file := path }, s⟩ = _
  rw [hcontext]
  rfl

theorem runFile_of_ok [Machine] (hpath : path ≠ "") {p : Program}
    (hload : Program.load fs path = .ok p) (s : Interpreter) :
    ∃ source, runFile fs s path =
      Pipeline.Job.start ⟨contextOf path source (.ok p), s⟩ p := by
  obtain ⟨source, hcontext⟩ := context_load fs hpath
  rw [hload] at hcontext
  refine ⟨source, ?_⟩
  change Pipeline.Job.execute ⟨Pipeline.Context.load fs { file := path }, s⟩ = _
  rw [hcontext]
  rfl

end File

/-- Reading the file comes to an end, with a program or without. -/
def Ends (fs : FileSystem) (path : String) : Prop :=
  ∀ e, Program.load fs path = .error e → e.isEndless = false

theorem Ends.of_ok {fs : FileSystem} {path : String} {p : Program}
    (h : Program.load fs path = .ok p) : Ends fs path := by
  intro e he
  cases h.symm.trans he

theorem next_of_ends [Machine] {fs : FileSystem} {path : String} (hpath : path ≠ "")
    (hend : Ends fs path) (trace : Bool) {p : Progress} (hp : p.overflowed = false) :
    Progress.next fs trace p path = p.complete trace (runFile fs p.interpreter path) := by
  have hcontext : (runFile fs p.interpreter path).context.isEndless = false := by
    cases hload : Program.load fs path with
    | error e =>
        obtain ⟨source, hjob⟩ := runFile_of_error hpath hload p.interpreter
        rw [hjob]
        exact (Bool.or_false _).trans (hend e hload)
    | ok program =>
        obtain ⟨source, hjob⟩ := runFile_of_ok hpath hload p.interpreter
        rw [hjob]
        unfold Pipeline.Job.start
        split <;> rfl
  simp only [Progress.next, hp, hcontext, Bool.false_eq_true, if_false]

theorem next_of_endless [Machine] {fs : FileSystem} {path : String} (hpath : path ≠ "")
    {e : Program.LoadError} (hload : Program.load fs path = .error e) (he : e.isEndless = true)
    (trace : Bool) {p : Progress} (hp : p.overflowed = false) :
    Progress.next fs trace p path = p.overflow trace path := by
  obtain ⟨source, hjob⟩ := runFile_of_error hpath hload p.interpreter
  have hcontext : (runFile fs p.interpreter path).context.isEndless = true := by
    rw [hjob]
    exact (Bool.or_false _).trans he
  simp only [Progress.next, hp, hcontext, Bool.false_eq_true, if_false, if_true]

theorem foldl_next_of_overflowed [Machine] (fs : FileSystem) (trace : Bool) (paths : List String)
    {p : Progress} (hp : p.overflowed = true) : paths.foldl (Progress.next fs trace) p = p := by
  induction paths with
  | nil => rfl
  | cons path rest ih =>
      have hnext : Progress.next fs trace p path = p := if_pos hp
      rw [List.foldl_cons, hnext, ih]

theorem noticesOf_untraced (job : Pipeline.Job) :
    noticesOf false job =
      job.context.failures.map .failure ++ job.context.stop.toList.map .stop := by
  simp only [noticesOf, Bool.false_eq_true, if_false, List.nil_append]
  split <;> exact List.append_nil _

def plainText (notices : List Notice) : String := String.join (notices.map (Notice.render false))

theorem plainText_append (notices later : List Notice) :
    plainText (notices ++ later) = plainText notices ++ plainText later := by
  rw [plainText, List.map_append, String.join_append]
  rfl

theorem plainText_singleton (notice : Notice) :
    plainText [notice] = Notice.render false notice := by
  rw [plainText, List.map_singleton, String.join_cons, String.join_nil, String.append_empty]

theorem sound_load [Machine] {fs : FileSystem} {path : String} {p : Program}
    (h : Program.load fs path = .ok p) : Run.Sound (Interpreter.execute p.statements) := by
  obtain ⟨text, -, h⟩ := Program.bind_eq_ok h
  obtain ⟨statements, hdecode, h⟩ := Program.bind_eq_ok h
  cases h
  exact Interpreter.sound_execute
    (Program.wellFormed_decode_text (Program.mapError_eq_ok hdecode))

/-- A file that loads is run as `interpret` runs it: the same is printed, the same is said to have
gone wrong, and the interpreters differ at most in their reports. -/
theorem runFile_interprets [Machine] {fs : FileSystem} {path : String} (hpath : path ≠ "")
    {p : Program} (hload : Program.load fs path = .ok p) (s : Interpreter) :
    ∃ s₁ out err, Interpreter.interpret p.statements s = (.value (), s₁) ∧
      s₁.output = s.output ++ out ∧ s₁.errors = s.errors ++ err ∧
      (runFile fs (s.reporting []) path).interpreter = s₁.reporting [] ∧
      plainText (noticesOf false (runFile fs (s.reporting []) path)) = err := by
  obtain ⟨source, hjob⟩ := runFile_of_ok hpath hload (s.reporting [])
  have hwrites := Interpreter.Writes.traceClosed.execute p.statements s
  have hrun := Interpreter.execute_reporting p.statements s []
  have hout := Interpreter.output_of_printed hwrites.printed
  rw [noticesOf_untraced, hjob]
  unfold Pipeline.Job.start
  rw [hrun]
  rcases hexecute : Interpreter.execute p.statements s with ⟨outcome, t⟩
  rw [hexecute] at hwrites hout
  have hsame : t.errors = s.errors := by
    rw [Interpreter.errors, hwrites.reported]
    rfl
  cases outcome with
  | value a =>
      refine ⟨t, _, "", ?_, hout, ?_, rfl, rfl⟩
      · rw [Interpreter.interpret, hexecute]
      · rw [hsame, String.append_empty]
  | error e =>
      refine ⟨{ t with reported := e.report :: t.reported }, _, e.report ++ "\n", ?_, hout, ?_, rfl,
        ?_⟩
      · rw [Interpreter.interpret, hexecute]
      · rw [Interpreter.errors_report, hsame]
      · exact plainText_singleton (.stop (.error e))
  | fault f => exact ((sound_load hload s).1 f (by rw [hexecute])).elim

/-! ## All files -/

/-- The files are run as `interpret` runs them, from interpreters that differ in their reports. -/
theorem foldl_interprets [Machine] (fs : FileSystem) (paths : List String)
    (hpaths : ∀ path ∈ paths, path ≠ "") (hends : ∀ path ∈ paths, Ends fs path)
    {s : Interpreter} {p : Progress} (hp : p.interpreter = s.reporting [])
    (hover : p.overflowed = false) :
    ∃ out err t, Interprets fs s paths out err t ∧
      (paths.foldl (Progress.next fs false) p).interpreter = t.reporting [] ∧
      t.output = s.output ++ out ∧
      plainText (paths.foldl (Progress.next fs false) p).notices = plainText p.notices ++ err := by
  induction paths generalizing s p with
  | nil =>
      refine ⟨"", "", s, .nil, hp, ?_, ?_⟩
      · rw [String.append_empty]
      · rw [String.append_empty]
        rfl
  | cons path rest ih =>
      obtain ⟨hpath, hpaths⟩ := List.forall_mem_cons.1 hpaths
      obtain ⟨hend, hends⟩ := List.forall_mem_cons.1 hends
      rw [List.foldl_cons, next_of_ends hpath hend false hover]
      cases hload : Program.load fs path with
      | error e =>
          obtain ⟨source, hjob⟩ := runFile_of_error hpath hload p.interpreter
          rw [hjob]
          have hnotices : plainText (p.complete false
              ⟨contextOf path source (.error e), p.interpreter⟩).notices =
                plainText p.notices ++ (e.message ++ "\n") := by
            rw [Progress.complete, plainText_append, noticesOf_untraced]
            exact congrArg _ (plainText_singleton (.failure (.load e)))
          obtain ⟨out, err, t, hrun, hinterpreter, hout, herr⟩ := ih hpaths hends (s := s)
            (p := p.complete false ⟨contextOf path source (.error e), p.interpreter⟩) hp hover
          refine ⟨out, _, t, .unloaded hload hrun, hinterpreter, hout, ?_⟩
          rw [herr, hnotices, String.append_assoc]
      | ok program =>
          obtain ⟨s₁, out₁, err₁, hinterpret, hout₁, herr₁, hjob, htext⟩ :=
            runFile_interprets hpath hload s
          rw [hp]
          have hnotices : plainText (p.complete false (runFile fs (s.reporting []) path)).notices =
              plainText p.notices ++ err₁ := by
            rw [Progress.complete, plainText_append, htext]
          obtain ⟨out, err, t, hrun, hinterpreter, hout, herr⟩ := ih hpaths hends (s := s₁)
            (p := p.complete false (runFile fs (s.reporting []) path)) hjob hover
          refine ⟨_, _, t, .loaded hload hinterpret hout₁ herr₁ hrun, hinterpreter, ?_, ?_⟩
          · rw [hout, hout₁, String.append_assoc]
          · rw [herr, hnotices, String.append_assoc]

theorem ne_empty_of_extension {path : String} (h : (Program.extension? path).isSome) :
    path ≠ "" := by
  rintro rfl
  revert h
  decide

theorem run_eq_runFiles [Machine] {env : Environment} {args paths : List String} {options : Options}
    {settings : Settings} (hparse : Request.parse {} args = .run options paths)
    (hsome : paths ≠ []) (hextensions : ∀ path ∈ paths, (Program.extension? path).isSome)
    (hsettings : settingsOf env.files options.settingsPath = .ok settings) :
    run env args = runFiles env settings options.verbose paths := by
  have hempty : paths.isEmpty = false := List.isEmpty_eq_false_iff.2 hsome
  have hfind : (paths.find? fun path => (Program.extension? path).isNone) = none := by
    rw [List.find?_eq_none]
    intro path hpath
    have hextension := hextensions path hpath
    simp [Option.isSome_iff_ne_none.1 hextension]
  unfold run
  rw [hparse]
  simp only [hempty, Bool.false_eq_true, if_false, hfind, hsettings]

/-- If reading all files ends, a run from the command line without traces and colours writes what
one interpreter writes that interprets the files in turn, and the errors of the files that cannot
be loaded in between. Such a file leaves the interpreter as it was. -/
theorem run_interprets [Machine] {env : Environment} {args paths : List String} {options : Options}
    {settings : Settings} (hparse : Request.parse {} args = .run options paths)
    (hsome : paths ≠ []) (hextensions : ∀ path ∈ paths, (Program.extension? path).isSome)
    (hends : ∀ path ∈ paths, Ends env.files path)
    (hsettings : settingsOf env.files options.settingsPath = .ok settings)
    (htrace : settings.trace = false) (hverbose : options.verbose = false)
    (hcolor : settings.useColor env.plain env.stream = false) :
    (∀ out err,
      (∃ t, Interprets env.files { Interpreter.new with maxDepth := settings.maxDepth } paths
        out err t) ↔ out = (run env args).output ∧ err = (run env args).errorText) ∧
    ∀ path ∈ paths, ∀ e, Program.load env.files path = .error e →
      ∀ s, (runFile env.files s path).interpreter = s := by
  have hpaths : ∀ path ∈ paths, path ≠ "" :=
    fun path hpath => ne_empty_of_extension (hextensions path hpath)
  have hrun := run_eq_runFiles hparse hsome hextensions hsettings
  constructor
  · obtain ⟨out, err, t, hinterprets, hinterpreter, hout, herr⟩ :=
      foldl_interprets env.files paths hpaths hends
        (p := { interpreter := { Interpreter.new with maxDepth := settings.maxDepth } })
        (s := { Interpreter.new with maxDepth := settings.maxDepth }) rfl rfl
    have htraces : (settings.trace || options.verbose) = false := by
      rw [htrace, hverbose, Bool.or_self]
    have houtput : (run env args).output = out := by
      rw [hrun, runFiles, htraces, hinterpreter]
      exact hout.trans String.empty_append
    have herrors : (run env args).errorText = err := by
      rw [hrun, runFiles, htraces, Report.errorText, hcolor]
      exact herr.trans String.empty_append
    intro out' err'
    rw [houtput, herrors]
    constructor
    · rintro ⟨t', hinterprets'⟩
      obtain ⟨rfl, rfl, -⟩ := hinterprets.deterministic hinterprets'
      exact ⟨rfl, rfl⟩
    · rintro ⟨rfl, rfl⟩
      exact ⟨t, hinterprets⟩
  · intro path hpath e hload s
    obtain ⟨source, hjob⟩ := runFile_of_error (hpaths path hpath) hload s
    rw [hjob]

/-- A working directory with two program files in it. One holds the text, the other one a program
that prints a line and then fails. -/
def besides (text : RawText) : Environment where
  files := {
    workingDirectory := .ok "/"
    has := fun path => path == "a.lox.yaml" || path == "b.lox.yaml"
    read := fun path =>
      if path == "a.lox.yaml" then .ok text
      else if path == "b.lox.yaml" then .ok Pipeline.failingSource
      else .error .notFound }
  plain := false
  stream := .buffer

theorem settingsOf_besides (text : RawText) :
    settingsOf (besides text).files "" = .ok Settings.default := by
  cbv

theorem load_besides (text : RawText) : Program.load (besides text).files "b.lox.yaml" =
    .ok ⟨"b.lox.yaml", Pipeline.failing⟩ :=
  (Program.load_of_read rfl).trans (Pipeline.ofText_failingSource _)

theorem greeting_interprets :
    (∃ t, Interprets (besides "").files { Interpreter.new with maxDepth := 10000 }
      ["gone.lox.yaml", "b.lox.yaml"]
      (run (besides "") ["gone.lox.yaml", "b.lox.yaml"]).output
      (run (besides "") ["gone.lox.yaml", "b.lox.yaml"]).errorText t) ∧
    ∀ s, (runFile (besides "").files s "gone.lox.yaml").interpreter = s := by
  have hparse : Request.parse {} ["gone.lox.yaml", "b.lox.yaml"] =
      .run {} ["gone.lox.yaml", "b.lox.yaml"] := by cbv
  have hextensions : ∀ path ∈ ["gone.lox.yaml", "b.lox.yaml"],
      (Program.extension? path).isSome := by decide
  have hgone : Program.load (besides "").files "gone.lox.yaml" =
      .error (.unreadable "gone.lox.yaml" .notFound) := rfl
  have hends : ∀ path ∈ ["gone.lox.yaml", "b.lox.yaml"], Ends (besides "").files path := by
    refine List.forall_mem_cons.2 ⟨fun e he => ?_, List.forall_mem_singleton.2 ?_⟩
    · cases hgone.symm.trans he
      rfl
    · exact .of_ok (load_besides "")
  have hrun := run_interprets hparse (by decide) hextensions hends (settingsOf_besides "") rfl rfl
    rfl
  exact ⟨(hrun.1 _ _).2 ⟨rfl, rfl⟩, hrun.2 _ List.mem_cons_self _ hgone⟩

/-- Under a condition on the files, a run without traces and colours writes what one interpreter
writes that interprets the files in turn, and why files cannot be loaded. -/
def InterpretsIf (C : FileSystem → List String → Prop) : Prop :=
  ∀ (env : Environment) (args paths : List String) (options : Options) (settings : Settings),
    Request.parse {} args = .run options paths → C env.files paths →
    (∀ path ∈ paths, (Program.extension? path).isSome) →
    settingsOf env.files options.settingsPath = .ok settings → settings.trace = false →
    options.verbose = false → settings.useColor env.plain env.stream = false →
    ∃ t, Interprets env.files { Interpreter.new with maxDepth := settings.maxDepth } paths
      (run env args).output (run env args).errorText t

section Endless

open Yaml (Node hasEvents)

/-- A statement that is inside itself. -/
def endlessText : String := "- &a \x7bblock: [*a]\x7d\n"

def endlessEvents : List Yaml.Event :=
  [.sequenceStart { mark := ⟨0, 0, 0⟩ },
    .mappingStart { mark := ⟨2, 0, 2⟩, anchor := some "a" },
    .scalar { mark := ⟨6, 0, 6⟩ } "block" true,
    .sequenceStart { mark := ⟨13, 0, 13⟩ }, .alias ⟨14, 0, 14⟩ "a", .collectionEnd,
    .collectionEnd, .collectionEnd]

theorem load_endless : Program.load (besides endlessText).files "a.lox.yaml" =
    .error (.unusable "a.lox.yaml" (.notProgram ⟨⟨1, 3⟩, .endless⟩)) := by
  have hevents : hasEvents endlessText endlessEvents = true := by decide +kernel
  obtain ⟨root, hnode, hdecode⟩ : ∃ root, Node.ofEvents endlessEvents = .ok root ∧
      Program.decodeStmts root = .error ⟨⟨1, 3⟩, .endless⟩ := ⟨_, by rfl, by cbv⟩
  refine (Program.load_of_read rfl).trans ?_
  unfold Program.ofText
  rw [Program.decode_of_ofText (Node.ofText_of_hasEvents hevents hnode), hdecode]
  rfl

theorem output_endless :
    (run (besides endlessText) ["a.lox.yaml", "b.lox.yaml"]).output = "" := by
  have hparse : Request.parse {} ["a.lox.yaml", "b.lox.yaml"] =
      .run {} ["a.lox.yaml", "b.lox.yaml"] := by cbv
  obtain ⟨source, hjob⟩ := runFile_of_error (by decide) load_endless
    { Interpreter.new with maxDepth := Settings.default.maxDepth }
  rw [run_eq_runFiles hparse (by decide) (by decide) (settingsOf_besides endlessText), runFiles,
    List.foldl_cons, Progress.next, hjob]
  rfl

end Endless

/-- There has to be a file, since the usage is explained otherwise, and reading each of the files
has to end. -/
theorem run_beyond_interpreting :
    ¬ InterpretsIf (fun _ _ => True) ∧
      ¬ InterpretsIf (fun fs paths => ∀ path ∈ paths, Ends fs path) ∧
      ¬ InterpretsIf (fun _ paths => paths ≠ []) := by
  have hempty : ¬ InterpretsIf (fun fs paths => ∀ path ∈ paths, Ends fs path) := by
    intro h
    obtain ⟨t, hinterprets⟩ := h (besides "") [] [] {} Settings.default rfl (by simp) (by simp)
      (settingsOf_besides "") rfl rfl rfl
    obtain ⟨-, herrors, -⟩ := Interprets.nil.deterministic hinterprets
    have husage : (run (besides "") []).errorText = usageText := plainText_singleton .usage
    rw [husage] at herrors
    exact absurd herrors (by decide)
  refine ⟨fun h => hempty ?_, hempty, fun h => ?_⟩
  · intro env args paths options settings hparse _
    exact h env args paths options settings hparse trivial
  · have hparse : Request.parse {} ["a.lox.yaml", "b.lox.yaml"] =
        .run {} ["a.lox.yaml", "b.lox.yaml"] := by cbv
    obtain ⟨t, hinterprets⟩ := h (besides endlessText) _ _ {} Settings.default hparse (by decide)
      (by decide) (settingsOf_besides endlessText) rfl rfl rfl
    let start : Interpreter := { Interpreter.new with maxDepth := Settings.default.maxDepth }
    have hvalue : (Interpreter.interpret Pipeline.failing start).1 = .value () := by cbv
    have hprints : (Interpreter.interpret Pipeline.failing start).2.output =
        start.output ++ "a\n" := by cbv
    have hreports : (Interpreter.interpret Pipeline.failing start).2.errors =
        start.errors ++ (Interpreter.interpret Pipeline.failing start).2.errors :=
      String.empty_append.symm
    have hfiles := Interprets.unloaded load_endless
      (.loaded (load_besides endlessText) (Prod.ext hvalue rfl) hprints hreports .nil)
    obtain ⟨houtput, -⟩ := hfiles.deterministic hinterprets
    rw [output_endless] at houtput
    exact absurd houtput (by decide)

end CommandLine

end TreeScript
