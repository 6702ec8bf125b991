import TreeScript.Proofs.Soundness
import TreeScript.Proofs.Stages

/-!
# The record of a job

A job goes through stages while files may come, go and change. Each stage makes at most one entry:
a program that was loaded, a failure, or why a run stopped. The context of the job is a record of
these entries to which stages only add (`Records`): all failures in order, the last stop, and the
program, which is what the source says and stays so once it has been loaded.
-/

namespace TreeScript.Pipeline

structure Step where
  files : FileSystem
  stage : Stage

section

variable [Machine]

def Step.apply (job : Job) (step : Step) : Job := step.stage.apply step.files job

def after (steps : List Step) (job : Job) : Job := steps.foldl Step.apply job

end

/-! ## Entries -/

inductive Entry where
  | loaded (p : Program)
  | failed (f : Failure)
  | stopped (stop : Stop)

namespace Entry

def failure? : Entry → Option Failure
  | failed f => some f
  | _ => none

def stop? : Entry → Option Stop
  | stopped stop => some stop
  | _ => none

end Entry

def Stop.of? : Outcome Unit → Option Stop
  | .value _ => none
  | .error e => some (.error e)
  | .fault f => some (.fault f)

theorem Stop.eq_fault_of_of? {outcome : Outcome Unit} {f : Fault}
    (h : Stop.of? outcome = some (.fault f)) : outcome = .fault f := by
  cases outcome <;> cases h
  rfl

section

variable [Machine]

def Job.stop? (job : Job) : Option Stop :=
  match job.context.program with
  | none => some .noProgram
  | some p => Stop.of? (Interpreter.execute p.statements job.interpreter).1

/-- The program that there is to be had, in the file if the source is missing, or why there is
none. -/
def Context.readProgram (fs : FileSystem) (c : Context) : Except Program.LoadError Program :=
  if c.source.isNone && !c.file.isEmpty then Program.load fs c.file
  else Program.ofText c.file (c.source.getD "")

def Step.entry? (job : Job) (step : Step) : Option Entry :=
  match step.stage with
  | .load =>
    match job.context.readProgram step.files with
    | .ok p => some (.loaded p)
    | .error e => some (.failed (.load e))
  | .execute =>
    if job.context.program.isSome && job.context.failures.isEmpty then job.stop?.map .stopped
    else none
  | .run => job.stop?.map .stopped
  | .fail text => some (.failed (.other text))

/-- What some steps add to the record of a job, in order. -/
def log : List Step → Job → List Entry
  | [], _ => []
  | step :: rest, job => (step.entry? job).toList ++ log rest (step.apply job)

end

/-! ## One step -/

namespace Context

def note (c : Context) : Entry → Context
  | .loaded p => { c with program := some p }
  | .failed f => c.record f
  | .stopped stop => { c with stop := some stop }

/-- There is no file left to read. -/
def Settled (c : Context) : Prop := c.source = none → c.file = ""

theorem not_missing {c : Context} (h : c.Settled) :
    ¬ (c.source.isNone && !c.file.isEmpty) = true := by
  intro hmissing
  rw [Bool.and_eq_true, Option.isNone_iff_eq_none, Bool.not_eq_true'] at hmissing
  rw [h hmissing.1] at hmissing
  cases hmissing.2

theorem load_of_settled {c : Context} (h : c.Settled) (fs : FileSystem) : c.load fs = c.decode :=
  if_neg (not_missing h)

theorem readProgram_of_settled {c : Context} (h : c.Settled) (fs : FileSystem) :
    c.readProgram fs = Program.ofText c.file (c.source.getD "") :=
  if_neg (not_missing h)

section Decode

variable {c : Context}

theorem decode_of_ok {p : Program} (h : Program.ofText c.file (c.source.getD "") = .ok p) :
    c.decode = { c with program := some p } := by
  unfold decode
  rw [h]

theorem decode_of_error {e : Program.LoadError}
    (h : Program.ofText c.file (c.source.getD "") = .error e) :
    c.decode = c.record (.load e) := by
  unfold decode
  rw [h]

end Decode

theorem load_cases (fs : FileSystem) (c : Context) :
    (∃ p source, c.readProgram fs = .ok p ∧ Program.ofText c.file (source.getD "") = .ok p ∧
        (source = none → c.file = "") ∧ c.load fs = { c with source, program := some p }) ∨
      ∃ e source, c.readProgram fs = .error e ∧
        c.load fs = { c with source, failures := c.failures ++ [.load e] } := by
  by_cases hsettled : c.Settled
  · rw [readProgram_of_settled hsettled, load_of_settled hsettled]
    cases htext : Program.ofText c.file (c.source.getD "") with
    | ok p => exact .inl ⟨p, c.source, rfl, htext, hsettled, decode_of_ok htext⟩
    | error e => exact .inr ⟨e, c.source, rfl, decode_of_error htext⟩
  · obtain ⟨hsource, hfile⟩ := Classical.not_imp.1 hsettled
    have hmissing : (c.source.isNone && !c.file.isEmpty) = true := by
      rw [Bool.and_eq_true, Option.isNone_iff_eq_none, Bool.not_eq_true']
      exact ⟨hsource, String.isEmpty_eq_false_iff.2 hfile⟩
    rw [readProgram, load, if_pos hmissing, if_pos hmissing, Program.load]
    cases hread : fs.read c.file with
    | error e => exact .inr ⟨.unreadable c.file e, c.source, rfl, rfl⟩
    | ok text =>
        change (∃ p source, Program.ofText c.file text = .ok p ∧ _) ∨
          ∃ e source, Program.ofText c.file text = .error e ∧ _
        cases htext : Program.ofText c.file text with
        | ok p =>
            refine .inl ⟨p, some text, rfl, htext, nofun, ?_⟩
            exact decode_of_ok (c := { c with source := some text }) htext
        | error e =>
            refine .inr ⟨e, some text, rfl, ?_⟩
            exact decode_of_error (c := { c with source := some text }) htext

end Context

section

variable [Machine]

namespace Job

theorem context_start (job : Job) (p : Program) :
    (job.start p).context =
      ((Stop.of? (Interpreter.execute p.statements job.interpreter).1).map Entry.stopped).elim
        job.context job.context.note := by
  unfold start
  split
  next heq => rw [heq]; rfl
  next heq => rw [heq]; rfl
  next heq => rw [heq]; rfl

theorem context_run (job : Job) :
    job.run.context = (job.stop?.map Entry.stopped).elim job.context job.context.note := by
  unfold run stop?
  cases job.context.program with
  | none => rfl
  | some p => exact job.context_start p

theorem execute_eq (job : Job) :
    job.execute =
      if job.context.program.isSome && job.context.failures.isEmpty then job.run else job := by
  unfold execute run
  cases job.context.program with
  | none => rfl
  | some p => cases job.context.failures.isEmpty <;> rfl

end Job

section Apply

variable (job : Job) (step : Step)

end Apply

/-! ## Many steps -/

def Step.text? (step : Step) : Option String :=
  match step.stage with
  | .fail text => some text
  | _ => none

def Failure.text? : Failure → Option String
  | .other text => some text
  | .load _ => none

end

/-! ## Jobs that start fresh -/

/-- The program is the one that the source says, nothing is left to read, and no run has ended in a
fault. -/
structure Context.Sourced (c : Context) : Prop where
  settled : ∀ p, c.program = some p → c.Settled
  ofText : ∀ p, c.program = some p → Program.ofText c.file (c.source.getD "") = .ok p
  stop : ∀ f, c.stop ≠ some (.fault f)

theorem sound_ofText [Machine] {path : String} {text : RawText} {p : Program}
    (h : Program.ofText path text = .ok p) :
    Run.Sound (Interpreter.execute p.statements) := by
  obtain ⟨statements, hdecode, h⟩ := Program.bind_eq_ok h
  cases h
  exact Interpreter.sound_execute
    (Program.wellFormed_decode_text (Program.mapError_eq_ok hdecode))

namespace Context.Sourced

theorem fresh (file : String) (source : Option String) : Context.Sourced { file, source } :=
  ⟨nofun, nofun, nofun⟩

theorem load {c : Context} (h : c.Sourced) (fs : FileSystem) : (c.load fs).Sourced := by
  rcases c.load_cases fs with ⟨p, source, -, htext, hsettled, hload⟩ | ⟨e, source, hread, hload⟩
  · rw [hload]
    refine ⟨fun _ _ => hsettled, fun p' hp' => ?_, h.stop⟩
    cases hp'
    exact htext
  · -- A program that is there is what the source says, so reading it once more does not fail.
    have hnone : ∀ p, c.program ≠ some p := by
      intro p hp
      rw [readProgram_of_settled (h.settled p hp), h.ofText p hp] at hread
      cases hread
    rw [hload]
    exact ⟨fun p hp => absurd hp (hnone p), fun p hp => absurd hp (hnone p), h.stop⟩

variable [Machine]

theorem stop?_ne_fault {job : Job} (h : job.context.Sourced) (f : Fault) :
    job.stop? ≠ some (.fault f) := by
  unfold Job.stop?
  cases hp : job.context.program with
  | none => exact nofun
  | some p =>
      intro hstop
      exact (sound_ofText (h.ofText p hp) job.interpreter).1 f (Stop.eq_fault_of_of? hstop)

theorem run {job : Job} (h : job.context.Sourced) : job.run.context.Sourced := by
  rw [job.context_run]
  cases hstop : job.stop? with
  | none => exact h
  | some stop =>
      refine ⟨h.settled, h.ofText, fun f hf => ?_⟩
      cases hf
      exact h.stop?_ne_fault f hstop

theorem apply {job : Job} (h : job.context.Sourced) (step : Step) :
    (step.apply job).context.Sourced := by
  obtain ⟨fs, stage⟩ := step
  cases stage with
  | load => exact h.load fs
  | execute =>
      change job.execute.context.Sourced
      rw [Job.execute_eq]
      split
      · exact h.run
      · exact h
  | run => exact h.run
  | fail text => exact ⟨h.settled, h.ofText, h.stop⟩

theorem after {job : Job} (h : job.context.Sourced) (steps : List Step) :
    (Pipeline.after steps job).context.Sourced := by
  induction steps generalizing job with
  | nil => exact h
  | cons step rest ih => exact ih (h.apply step)

end Context.Sourced

variable [Machine]

/-- What the context of a job says after some steps from a fresh start. -/
structure Records (fresh : Job) (steps : List Step) : Prop where
  /-- All failures, in the order in which they happened. -/
  failures : (after steps fresh).context.failures = (log steps fresh).filterMap Entry.failure?
  /-- The last one of the runs that did not come to their end. -/
  stop : (after steps fresh).context.stop = ((log steps fresh).filterMap Entry.stop?).getLast?
  /-- A run stops because of an error or because there is no program. -/
  stop_ne_fault : ∀ f, (after steps fresh).context.stop ≠ some (.fault f)
  /-- There is a program if and only if one has been loaded. -/
  program : (after steps fresh).context.program.isSome ↔ ∃ p, .loaded p ∈ log steps fresh
  /-- The program is what the source says. -/
  ofText : ∀ p, (after steps fresh).context.program = some p →
    Program.ofText fresh.context.file ((after steps fresh).context.source.getD "") = .ok p
  /-- Once there is a program, loading changes nothing, whatever has become of the file. -/
  reload : (after steps fresh).context.program.isSome → ∀ fs,
    (after steps fresh).context.load fs = (after steps fresh).context
  /-- Each stage that records a text has done so once and in its turn, whatever has failed. -/
  texts : (after steps fresh).context.failures.filterMap Failure.text? =
    steps.filterMap Step.text?

structure Context.Extends (c d : Context) : Prop where
  file : d.file = c.file
  failures : ∃ new : Option Failure, d.failures = c.failures ++ new.toList
  stop : c.stop.isSome → d.stop.isSome
  failed : c.failed = true → d.failed = true
  program : c.program.isSome → d.program = c.program ∧ d.source = c.source

end TreeScript.Pipeline
