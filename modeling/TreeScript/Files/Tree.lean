import TreeScript.Files
import TreeScript.Files.Path

/-!
# File systems in memory

Files with their contents, and directories. A directory exists if it is listed or if something
stands below it. A path is followed part by part, and every part but the last one has to lead to a
directory.
-/

namespace TreeScript.Files

inductive Entry where
  | file (content : RawText)
  | directory
deriving DecidableEq, Repr

structure Tree where
  files : List (Place × RawText)
  directories : List Place

namespace Tree

def ofPaths (files : List (String × String)) (directories : List String) : Tree :=
  ⟨files.map fun (path, content) => (Place.ofPath path, .ofText content),
    directories.map Place.ofPath⟩

def entry? (t : Tree) (here : Place) : Option Entry :=
  match t.files.lookup here with
  | some content => some (.file content)
  | none =>
    if here.isEmpty || t.directories.any here.isSuffixOf || t.files.any (here.isSuffixOf ·.1) then
      some .directory
    else none

def walk (t : Tree) (entry : Entry) (here : Place) : List String → Except FileError Entry
  | [] => .ok entry
  | part :: rest =>
    match entry with
    | .file _ => .error .notDirectory
    | .directory =>
      match t.entry? (here.follow part) with
      | some next => walk t next (here.follow part) rest
      | none => .error .notFound

def read (t : Tree) (here : Place) (path : String) : Except FileError RawText :=
  if path.isEmpty then .error .notFound
  else
    match walk t .directory (if isAbsolute path then [] else here) (parts path) with
    | .ok (.file content) => .ok content
    | .ok .directory => .error .isDirectory
    | .error e => .error e

def has (t : Tree) (here : Place) (path : String) : Bool :=
  match t.read here path with
  | .ok _ => true
  | .error .isDirectory => true
  | .error _ => false

def toFileSystem (t : Tree) (workingDirectory : String) : FileSystem where
  workingDirectory := .ok workingDirectory
  has := t.has (.ofPath workingDirectory)
  read := t.read (.ofPath workingDirectory)

end Tree

end TreeScript.Files
