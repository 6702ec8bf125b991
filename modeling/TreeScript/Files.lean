import TreeScript.RawText

/-!
# Files

A file system answers what stands in the file at a path, or why nothing can be read there. Paths
that do not start with a slash count from the working directory.
-/

namespace TreeScript

inductive FileError where
  | notFound
  | notDirectory
  | isDirectory
  /-- Any other error, in its own words. -/
  | other (text : String)
deriving DecidableEq, Repr

def FileError.message (path : String) : FileError → String
  | .notFound => "open " ++ path ++ ": no such file or directory"
  | .notDirectory => "open " ++ path ++ ": not a directory"
  | .isDirectory => "read " ++ path ++ ": is a directory"
  | .other text => text

structure FileSystem where
  /-- The path of the working directory, from the root, or why nobody knows it. -/
  workingDirectory : Except String String
  /-- Whether there is a file or a directory at a path. -/
  has : String → Bool
  /-- The content of the file at a path. -/
  read : String → Except FileError RawText

end TreeScript
