/-!
# Paths

A place below the root is the list of the names that lead to it, innermost first, so that the
directories above a place are the tails of its list.
-/

namespace TreeScript.Files

abbrev Place : Type := List String

def splitSlashes : List Char → List (List Char)
  | [] => [[]]
  | '/' :: rest => [] :: splitSlashes rest
  | c :: rest =>
    match splitSlashes rest with
    | [] => [[c]]
    | part :: parts => (c :: part) :: parts

def parts (path : String) : List String := (splitSlashes path.toList).map String.ofList

def isAbsolute (path : String) : Bool := path.toList.head? == some '/'

namespace Place

def follow (here : Place) (part : String) : Place :=
  if part == "" || part == "." then here
  else if part == ".." then here.tail
  else part :: here

def locate (here : Place) (path : String) : Place :=
  (parts path).foldl follow (if isAbsolute path then [] else here)

def ofPath (path : String) : Place := locate [] path

def path (here : Place) : String := "/" ++ String.intercalate "/" here.reverse

def child (here : Place) (name : String) : String := path (name :: here)

def ancestors : Place → List Place
  | [] => [[]]
  | name :: above => (name :: above) :: ancestors above

end Place

end TreeScript.Files
