import TreeScript.Files.Path
import TreeScript.Settings.Document

/-!
# Settings files

Settings are kept in a file with one of two names, in the working directory or the closest directory
above it.
-/

namespace TreeScript.Settings

open Files (Place)

def fileNames : List String := ["lox.yaml", "lox.yml"]

/-- The paths where settings are looked for, the closest first. -/
def candidates (here : Place) : List String :=
  here.ancestors.flatMap fun place => fileNames.map place.child

def origin (fs : FileSystem) (directory : String) : Except SettingsError Place :=
  if Files.isAbsolute directory then .ok (Place.ofPath directory)
  else do
    let workingDirectory ← fs.workingDirectory.mapError .unresolved
    return (Place.ofPath workingDirectory).locate directory

/-- The settings file that is closest to a directory. -/
def find? (fs : FileSystem) (directory : String) : Except SettingsError (Option String) := do
  return (candidates (← origin fs directory)).find? fs.has

def load (fs : FileSystem) (path : String) : Except SettingsError Settings := do
  let text ← (fs.read path).mapError (.unreadable path)
  parse text path

/-- The settings in the file at a path; the usual ones if the path is empty or leads nowhere. -/
def loadOrDefault (fs : FileSystem) (path : String) : Except SettingsError Settings :=
  if path.isEmpty then .ok default
  else
    match load fs path with
    | .error (.unreadable _ .notFound) => .ok default
    | result => result

end TreeScript.Settings
