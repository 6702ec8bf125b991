import TreeScript.Files
import TreeScript.Program.Decode

/-!
# Program files

A program file has one of two extensions and holds a program document.
-/

namespace TreeScript

namespace Program

def extensions : List String := [".lox.yaml", ".lox.yml"]

def extension? (path : String) : Option String :=
  extensions.find? fun ext => ext.toList.isSuffixOf path.toList

inductive LoadError where
  | unreadable (path : String) (e : FileError)
  | unusable (path : String) (e : ReadError)

/-- The error in words. It starts with the path, unless that is empty. -/
def LoadError.message : LoadError → String
  | .unreadable path e => "reading program " ++ path ++ ": " ++ e.message path
  | .unusable path e => if path.isEmpty then e.message else path ++ ": " ++ e.message

def LoadError.isEndless : LoadError → Bool
  | .unreadable _ _ => false
  | .unusable _ e => e.isEndless

def ofText (path : String) (text : RawText) : Except LoadError Program := do
  let statements ← (decode text).mapError (.unusable path)
  return ⟨path, statements⟩

def load (fs : FileSystem) (path : String) : Except LoadError Program := do
  let text ← (fs.read path).mapError (.unreadable path)
  ofText path text

section Load

variable {fs : FileSystem} {path : String}

theorem load_of_read {text : RawText} (h : fs.read path = .ok text) :
    load fs path = ofText path text := by
  unfold load
  rw [h]
  rfl

theorem load_of_read_error {e : FileError} (h : fs.read path = .error e) :
    load fs path = .error (.unreadable path e) := by
  unfold load
  rw [h]
  rfl

end Load

end Program

end TreeScript
