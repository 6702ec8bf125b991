import TreeScript.CommandLine.Notice
import TreeScript.Settings.Load

/-!
# Running from the command line

All program files are run in order by one interpreter, so that the globals of one file are there in
the next, also when the first one was stopped by an error. The exit code tells the worst that
happened: wrong usage, a file that could not be loaded, or a runtime error. A document without an
end takes all of the stack, and the run is over.
-/

namespace TreeScript.CommandLine

def internalCode : Nat := 1

def overflowCode : Nat := 2

def usageCode : Nat := 64

def dataCode : Nat := 65

def runtimeCode : Nat := 70

structure Environment where
  files : FileSystem
  /-- Whether the user has asked for no colours. -/
  plain : Bool
  stream : ErrorStream

structure Report where
  code : Nat
  output : String := ""
  color : Bool := false
  notices : List Notice

def Report.errorText (r : Report) : String := String.join (r.notices.map (Notice.render r.color))

def settingsOf (fs : FileSystem) (path : String) : Except SettingsError Settings :=
  if path.isEmpty then do Settings.loadOrDefault fs ((← Settings.find? fs ".").getD "")
  else Settings.load fs path

variable [Machine]

def runFile (fs : FileSystem) (s : Interpreter) (path : String) : Pipeline.Job :=
  Pipeline.process fs [.load, .execute] ⟨{ file := path }, s⟩

def codeOf (c : Pipeline.Context) : Nat :=
  if c.stop.isSome then runtimeCode else if c.failures.isEmpty then 0 else dataCode

def noticesOf (trace : Bool) (job : Pipeline.Job) : List Notice :=
  let c := job.context
  (if trace then [.running c.file] else []) ++ c.failures.map .failure ++
    c.stop.toList.map .stop ++
    match c.program with
    | some p =>
      if trace then [.ran c.file p.statements.length job.interpreter.chain.globals.names] else []
    | none => []

structure Progress where
  interpreter : Interpreter
  code : Nat := 0
  notices : List Notice := []
  /-- There is no stack left. -/
  overflowed : Bool := false

def Progress.complete (trace : Bool) (p : Progress) (job : Pipeline.Job) : Progress :=
  { p with
    interpreter := job.interpreter
    code := max p.code (codeOf job.context)
    notices := p.notices ++ noticesOf trace job }

def Progress.overflow (trace : Bool) (p : Progress) (path : String) : Progress :=
  { p with
    code := overflowCode
    notices := p.notices ++ if trace then [.running path] else []
    overflowed := true }

def Progress.next (fs : FileSystem) (trace : Bool) (p : Progress) (path : String) : Progress :=
  if p.overflowed then p
  else
    let job := runFile fs p.interpreter path
    if job.context.isEndless then p.overflow trace path else p.complete trace job

def runFiles (env : Environment) (settings : Settings) (verbose : Bool) (paths : List String) :
    Report :=
  let start : Progress := { interpreter := { Interpreter.new with maxDepth := settings.maxDepth } }
  let p := paths.foldl (Progress.next env.files (settings.trace || verbose)) start
  { code := p.code
    output := p.interpreter.output
    color := settings.useColor env.plain env.stream
    notices := p.notices }

def run (env : Environment) (args : List String) : Report :=
  match Request.parse {} args with
  | .help => ⟨0, "", false, [.usage]⟩
  | .refused e => ⟨usageCode, "", false, [.badUsage e, .usage]⟩
  | .run options paths =>
    if paths.isEmpty then ⟨usageCode, "", false, [.usage]⟩
    else
      match paths.find? fun path => (Program.extension? path).isNone with
      | some path => ⟨usageCode, "", false, [.notProgram path]⟩
      | none =>
        match settingsOf env.files options.settingsPath with
        | .error (.incomparableKey key) =>
          ⟨internalCode, "", false, [.internalError (.incomparableKey key)]⟩
        | .error e => ⟨usageCode, "", false, [.badSettings e]⟩
        | .ok settings => runFiles env settings options.verbose paths

/-- The paths that a run with the given arguments may read, if it is known where it takes place. -/
def consulted (workingDirectory : Option String) (args : List String) : List String :=
  match Request.parse {} args with
  | .run options paths =>
    (if options.settingsPath.isEmpty then
      (workingDirectory.map fun path => Settings.candidates (Files.Place.ofPath path)).getD []
    else [options.settingsPath]) ++ paths
  | _ => []

end TreeScript.CommandLine
