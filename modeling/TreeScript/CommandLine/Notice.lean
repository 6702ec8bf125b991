import TreeScript.CommandLine.Options
import TreeScript.Pipeline
import TreeScript.Settings.SettingsError

/-!
# Notices

Everything that is written to the error stream, one notice a write. Only reports of what went wrong
with a program are coloured.
-/

namespace TreeScript.CommandLine

inductive Notice where
  | usage
  | badUsage (e : UsageError)
  | notProgram (path : String)
  | badSettings (e : SettingsError)
  | internalError (e : SettingsError)
  | running (path : String)
  | ran (path : String) (statements : Nat) (globals : List String)
  | failure (f : Pipeline.Failure)
  | stop (s : Pipeline.Stop)

def usageText : String :=
  "Usage: lox [-config lox.yaml] [-v] file.lox.yaml...\n" ++
  "  -config string\n" ++
  "    \tpath to lox.yaml (default: search upwards from the working directory)\n" ++
  "  -v\ttrace progress to stderr\n"

def paint (color : Bool) (text : String) : String :=
  if color then "\x1b[31m" ++ text ++ "\x1b[0m\n" else text ++ "\n"

namespace Notice

def isTrace : Notice → Bool
  | .running _ => true
  | .ran _ _ _ => true
  | _ => false

def render (color : Bool) : Notice → String
  | .usage => usageText
  | .badUsage e => e.message ++ "\n"
  | .notProgram path =>
    "Error: " ++ path ++ ": not a program file (want " ++
      String.intercalate " or " Program.extensions ++ ")\n"
  | .badSettings e => "Error: " ++ e.message ++ "\n"
  | .internalError e =>
    "Internal error: " ++ e.message ++ "\nThis is a bug. Please report it.\n"
  | .running path => "lox: running " ++ path ++ "\n"
  | .ran path statements globals =>
    "lox: " ++ path ++ ": " ++ toString statements ++ " statements, globals: [" ++
      String.intercalate " " globals ++ "]\n"
  | .failure f => paint color f.message
  | .stop s => paint color s.report

end Notice

end TreeScript.CommandLine
