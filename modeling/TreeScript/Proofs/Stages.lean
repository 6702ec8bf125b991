import TreeScript.Pipeline
import TreeScript.Proofs.Aliases

/-!
# Stages after a failure

Failures that a job has recorded stay recorded. A job that has failed before its program could run
therefore never runs it in a later execution stage: such stages might as well be left out. After a
runtime error the program is still there and no failure is recorded, so an execution stage runs it
once more.
-/

namespace TreeScript.Pipeline

/-! ## Failures stay -/

namespace Context

theorem failures_prefix_decode (c : Context) : c.failures <+: c.decode.failures := by
  unfold decode
  split
  · exact List.prefix_refl _
  · exact List.prefix_append _ _

theorem failures_prefix_load (fs : FileSystem) (c : Context) :
    c.failures <+: (c.load fs).failures := by
  unfold load
  split
  · split
    next text _ => exact failures_prefix_decode { c with source := some text }
    · exact List.prefix_append _ _
  · exact c.failures_prefix_decode

end Context

namespace Job

theorem failures_start [Machine] (job : Job) (p : Program) :
    (job.start p).context.failures = job.context.failures := by
  unfold start
  split <;> rfl

theorem failures_run [Machine] (job : Job) : job.run.context.failures = job.context.failures := by
  unfold run
  split
  · exact job.failures_start _
  · rfl

theorem failures_execute [Machine] (job : Job) :
    job.execute.context.failures = job.context.failures := by
  unfold execute
  split
  · split
    · exact job.failures_start _
    · rfl
  · rfl

/-- There is nothing to run: no program, or a failure that has been recorded. -/
def Blocked (job : Job) : Prop := job.context.program = none ∨ job.context.failures ≠ []

theorem execute_of_blocked [Machine] {job : Job} (h : job.Blocked) : job.execute = job := by
  unfold execute
  rcases h with hnone | hfailures
  · rw [hnone]
  · have hempty : job.context.failures.isEmpty = false := List.isEmpty_eq_false_iff.2 hfailures
    simp only [hempty, Bool.false_eq_true, if_false]
    split <;> rfl

end Job

section Process

variable {fs : FileSystem} {before later : List Stage} {job : Job} [Machine]

theorem failures_prefix_apply (job : Job) (stage : Stage) :
    job.context.failures <+: (stage.apply fs job).context.failures := by
  cases stage with
  | load => exact job.context.failures_prefix_load fs
  | execute => exact job.failures_execute ▸ List.prefix_refl _
  | run => exact job.failures_run ▸ List.prefix_refl _
  | fail text => exact List.prefix_append _ _

theorem failures_apply_ne_nil (h : job.context.failures ≠ []) (stage : Stage) :
    (stage.apply fs job).context.failures ≠ [] :=
  fun hnil => h (List.prefix_nil.1 (hnil ▸ failures_prefix_apply job stage))

/-! ## Stages without executions -/

theorem process_filter_execute (h : job.context.failures ≠ []) (later : List Stage) :
    process fs later job = process fs (later.filter (· ≠ .execute)) job := by
  induction later generalizing job with
  | nil => rfl
  | cons stage rest ih =>
      by_cases hexecute : stage = .execute
      · subst hexecute
        have hskip : Stage.execute.apply fs job = job := Job.execute_of_blocked (.inr h)
        change process fs rest (Stage.execute.apply fs job) = _
        rw [hskip]
        exact ih h
      · rw [List.filter_cons_of_pos (by simpa using hexecute)]
        exact ih (failures_apply_ne_nil h stage)

/-- After a failure only a stage that runs the program in any case reaches the interpreter. -/
theorem interpreter_process (h : job.context.failures ≠ []) (hrun : .run ∉ later) :
    (process fs later job).interpreter = job.interpreter := by
  induction later generalizing job with
  | nil => rfl
  | cons stage rest ih =>
      obtain ⟨hstage, hrest⟩ := not_or.1 (mt List.mem_cons.2 hrun)
      have hfirst : (stage.apply fs job).interpreter = job.interpreter := by
        cases stage with
        | load => rfl
        | execute => exact congrArg Job.interpreter (Job.execute_of_blocked (.inr h))
        | run => exact absurd rfl hstage
        | fail text => rfl
      exact (ih (failures_apply_ne_nil h stage) hrest).trans hfirst

theorem process_append (before later : List Stage) (job : Job) :
    process fs (before ++ later) job = process fs later (process fs before job) :=
  List.foldl_append

/-- Where there is nothing to run, an execution stage leaves the job and its interpreter as they
are. Once a failure has been recorded this is so for good: all later execution stages might as well
be left out. -/
theorem executions_skipped (hblocked : (process fs before job).Blocked) :
    process fs (before ++ [.execute]) job = process fs before job ∧
      ((process fs before job).context.failures ≠ [] → ∀ later,
        process fs (before ++ later) job =
            process fs (before ++ later.filter (· ≠ .execute)) job ∧
          (.run ∉ later → (process fs (before ++ later) job).interpreter =
            (process fs before job).interpreter)) := by
  constructor
  · rw [process_append]
    exact Job.execute_of_blocked hblocked
  · intro hfailures later
    rw [process_append, process_append]
    exact ⟨process_filter_execute hfailures later, interpreter_process hfailures⟩

end Process

/-! ## Programs without a file -/

def noFiles : FileSystem where
  workingDirectory := .ok "/"
  has := fun _ => false
  read := fun _ => .error .notFound

theorem process_load_of_ofText [Machine] (fs : FileSystem) {path : String} {text : RawText}
    {p : Program} (h : Program.ofText path text = .ok p) (rest : List Stage) (s : Interpreter) :
    process fs (.load :: rest) ⟨{ file := path, source := some text }, s⟩ =
      process fs rest ⟨{ file := path, source := some text, program := some p }, s⟩ := by
  have hload : Context.load fs { file := path, source := some text } =
      { file := path, source := some text, program := some p } := by
    change Context.decode { file := path, source := some text } = _
    unfold Context.decode
    simp only [Option.getD_some, h]
  change process fs rest ⟨Context.load fs { file := path, source := some text }, s⟩ = _
  rw [hload]

def misspelled : Job :=
  ⟨{ file := "", source := some "- nope: \x7b\x7d\n" }, .new⟩

theorem executions_skipped_misspelled :
    (process noFiles [.load] misspelled).context.failures ≠ [] ∧
      (process noFiles [.load, .execute, .load, .execute] misspelled).interpreter = .new := by
  have hfailed : (process noFiles [.load] misspelled).context.failures.isEmpty = false := by
    decide +kernel
  have hne := List.isEmpty_eq_false_iff.1 hfailed
  obtain ⟨-, hskipped⟩ := executions_skipped (.inr hne)
  obtain ⟨-, hsame⟩ := hskipped hne [.execute, .load, .execute]
  exact ⟨hne, hsame (by decide)⟩

section Failing

open Yaml (Node hasEvents)
open Program (leaf pair)

/-- A program that prints `a` and then fails because of `x`. -/
def failingSource : String := "- print: \x7bliteral: a\x7d\n- print: \x7bvariable: x\x7d\n"

def failingEvents : List Yaml.Event :=
  let mapping (index line column : Nat) : Yaml.Event :=
    .mappingStart { mark := ⟨index, line, column⟩ }
  let plain (index line column : Nat) (text : String) : Yaml.Event :=
    .scalar { mark := ⟨index, line, column⟩ } text true
  [.sequenceStart { mark := ⟨0, 0, 0⟩ },
    mapping 2 0 2, plain 2 0 2 "print",
    mapping 9 0 9, plain 10 0 10 "literal", plain 19 0 19 "a", .collectionEnd, .collectionEnd,
    mapping 24 1 2, plain 24 1 2 "print",
    mapping 31 1 9, plain 32 1 10 "variable", plain 42 1 20 "x", .collectionEnd, .collectionEnd,
    .collectionEnd]

def failingNode : Node :=
  .sequence ⟨⟨1, 1⟩, "!!seq", none⟩
    [pair 1 3 (leaf 1 3 "print") (pair 1 10 (leaf 1 11 "literal") (leaf 1 20 "a")),
      pair 2 3 (leaf 2 3 "print") (pair 2 10 (leaf 2 11 "variable") (leaf 2 21 "x"))]

def failing : List Stmt :=
  [.print (.ofKind .printWord 1) (.literal ⟨.string, "a", .text "a", 1, 20⟩ (.text "a")),
    .print (.ofKind .printWord 2) (.variable (.ofName "x" 2))]

theorem ofText_failingSource (path : String) :
    Program.ofText path failingSource = .ok ⟨path, failing⟩ := by
  have hevents : hasEvents failingSource failingEvents = true := by decide +kernel
  have hnode : Node.ofEvents failingEvents = .ok failingNode := by cbv
  have hdecode : Program.decodeStmts failingNode = .ok failing := by cbv
  unfold Program.ofText
  rw [Program.decode_of_ofText (Node.ofText_of_hasEvents hevents hnode), hdecode]
  rfl

/-- The job once the source has been loaded. -/
def failingJob : Job :=
  ⟨{ file := "", source := some failingSource, program := some ⟨"", failing⟩ }, .new⟩

/-- After a runtime error an execution stage runs the program again. -/
theorem executions_repeated :
    ¬ ∀ (fs : FileSystem) (before : List Stage) (job : Job),
      (process fs before job).context.failed = true →
      process fs (before ++ [.execute]) job = process fs before job := by
  intro h
  have hsame := h noFiles [.load, .execute] ⟨{ file := "", source := some failingSource }, .new⟩
  rw [List.cons_append, List.cons_append, List.nil_append,
    process_load_of_ofText noFiles (ofText_failingSource ""),
    process_load_of_ofText noFiles (ofText_failingSource "")] at hsame
  have hfailed : (process noFiles [.execute] failingJob).context.failed = true := by cbv
  have honce : (process noFiles [.execute] failingJob).interpreter.printed = ["a"] := by cbv
  have htwice : (process noFiles [.execute, .execute] failingJob).interpreter.printed =
      ["a", "a"] := by cbv
  have hlines := congrArg (·.interpreter.printed) (hsame hfailed)
  cases htwice.symm.trans (hlines.trans honce)

end Failing

end TreeScript.Pipeline
