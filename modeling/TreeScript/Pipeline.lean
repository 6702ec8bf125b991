import TreeScript.Eval
import TreeScript.Program.Load

/-!
# Running program files in stages

A job carries one program through a list of stages, together with the interpreter that runs it and
that later jobs continue with. Every stage runs; a stage that needs what an earlier one failed to
provide does nothing.
-/

namespace TreeScript.Pipeline

inductive Failure where
  | load (e : Program.LoadError)
  | other (text : String)

def Failure.message : Failure → String
  | .load e => e.message
  | .other text => text

def Failure.isEndless : Failure → Bool
  | .load e => e.isEndless
  | .other _ => false

inductive Stop where
  | error (e : RuntimeError)
  | fault (f : Fault)
  | noProgram

def Stop.report : Stop → String
  | .error e => e.report
  | .fault f => f.message
  | .noProgram => "no program to execute"

/-- What is known about one program. The file is empty if it has none, and the source is missing as
long as nobody has read it. -/
structure Context where
  file : String
  source : Option RawText := none
  program : Option Program := none
  failures : List Failure := []
  stop : Option Stop := none

namespace Context

def failed (c : Context) : Bool := !c.failures.isEmpty || c.stop.isSome

/-- Whether a document was read to which there is no end. No process survives that. -/
def isEndless (c : Context) : Bool := c.failures.any Failure.isEndless

def record (c : Context) (f : Failure) : Context := { c with failures := c.failures ++ [f] }

def decode (c : Context) : Context :=
  match Program.ofText c.file (c.source.getD "") with
  | .ok program => { c with program := some program }
  | .error e => c.record (.load e)

/-- Decodes the source, which is read from the file if it is missing. -/
def load (fs : FileSystem) (c : Context) : Context :=
  if c.source.isNone && !c.file.isEmpty then
    match fs.read c.file with
    | .ok text => { c with source := some text }.decode
    | .error e => c.record (.load (.unreadable c.file e))
  else c.decode

end Context

structure Job where
  context : Context
  interpreter : Interpreter

namespace Job

variable [Machine]

def start (job : Job) (p : Program) : Job :=
  match Interpreter.execute p.statements job.interpreter with
  | (.value _, s) => { job with interpreter := s }
  | (.error e, s) => ⟨{ job.context with stop := some (.error e) }, s⟩
  | (.fault f, s) => ⟨{ job.context with stop := some (.fault f) }, s⟩

def run (job : Job) : Job :=
  match job.context.program with
  | some p => job.start p
  | none => { job with context := { job.context with stop := some .noProgram } }

/-- Runs the program if there is one and nothing has failed before it could run. -/
def execute (job : Job) : Job :=
  match job.context.program with
  | some p => if job.context.failures.isEmpty then job.start p else job
  | none => job

end Job

inductive Stage where
  /-- Reads and decodes the program. -/
  | load
  /-- Runs the program unless loading it failed. -/
  | execute
  /-- Runs the program in any case. -/
  | run
  /-- Records a failure. -/
  | fail (text : String)
deriving DecidableEq, Repr

def Stage.apply [Machine] (fs : FileSystem) (job : Job) : Stage → Job
  | .load => { job with context := job.context.load fs }
  | .execute => job.execute
  | .run => job.run
  | .fail text => { job with context := job.context.record (.other text) }

def process [Machine] (fs : FileSystem) (stages : List Stage) (job : Job) : Job :=
  stages.foldl (Stage.apply fs) job

def backendName : String := "tree-walk"

end TreeScript.Pipeline
