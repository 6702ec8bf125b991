import TreeScript.CommandLine.Run

/-!
# The program

Reads the files that the arguments lead to, runs the programs in them, and writes what they print
and what went wrong.
-/

namespace TreeScript

def isPresent (path : String) : IO Bool := do
  try
    let _ ← (← IO.FS.realPath path).metadata
    return true
  catch _ => return false

def isDirectory (path : String) : IO Bool := do
  try
    (← IO.FS.realPath path).isDir
  catch _ => return false

def readPath (path : String) : IO (Except FileError RawText) := do
  try
    let bytes ← IO.FS.readBinFile path
    return .ok ⟨bytes.data.toList⟩
  catch e =>
    if ← isDirectory path then return .error .isDirectory
    match e with
    | .noFileOrDirectory .. => return .error .notFound
    | .inappropriateType .. => return .error .notDirectory
    | .permissionDenied .. => return .error (.other ("open " ++ path ++ ": permission denied"))
    | _ => return .error (.other ("open " ++ path ++ ": " ++ toString e))

/-- The part of the file system that a run may look at. -/
def readFiles (args : List String) : IO FileSystem := do
  let workingDirectory : Except String String ←
    try pure (.ok (← IO.currentDir).toString)
    catch e => pure (.error ("getwd: " ++ toString e))
  let paths := CommandLine.consulted workingDirectory.toOption args
  let present ← paths.filterM fun path => isPresent path
  let contents ← paths.mapM fun path => return (path, ← readPath path)
  return {
    workingDirectory
    has := present.contains
    read := fun path => (contents.lookup path).getD (.error .notFound) }

end TreeScript

open TreeScript in
def main (args : List String) : IO UInt32 := do
  let stderr ← IO.getStderr
  let env : CommandLine.Environment := {
    files := ← readFiles args
    plain := (← IO.getEnv "NO_COLOR").isSome
    stream := if ← stderr.isTty then .terminal else .file }
  let report := CommandLine.run env args
  (← IO.getStdout).putStr report.output
  stderr.putStr report.errorText
  return report.code.toUInt32
