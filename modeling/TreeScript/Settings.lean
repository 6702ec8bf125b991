import TreeScript.Eval

/-!
# Settings

How programs are run: whether errors are coloured, how deeply programs may be nested, and whether
progress is traced. Settings are first taken as they are written, then checked, and then completed.
-/

namespace TreeScript

/-- The settings of a run. An empty colour and a depth of zero stand for the usual ones. -/
structure Settings where
  color : String := ""
  maxDepth : Int := 0
  trace : Bool := false
deriving DecidableEq, Repr

inductive ErrorStream where
  /-- Something in memory. -/
  | buffer
  | file
  | terminal
deriving DecidableEq, Repr

namespace Settings

def colors : List String := ["auto", "always", "never"]

/-- A word in lower case. Only ASCII letters are changed: no other letter has a lower-case form that
occurs in one of the colour words. -/
def lower (word : String) : String := String.ofList (word.toList.map Char.toLower)

def knowsColor (color : String) : Bool := lower color == "" || colors.contains (lower color)

/-- The settings with nothing left open. -/
def complete (s : Settings) : Settings where
  color := if lower s.color == "" then "auto" else lower s.color
  maxDepth := if s.maxDepth = 0 then Interpreter.defaultMaxDepth else s.maxDepth
  trace := s.trace

/-- The settings that hold where none are written down. -/
def default : Settings := complete {}

/-- Whether errors written to a stream are coloured. `plain` says that the user has asked for no
colours, which counts only where the settings leave it open. -/
def useColor (s : Settings) (plain : Bool) (stream : ErrorStream) : Bool :=
  if s.color == "always" then true
  else if s.color == "never" then false
  else !plain && decide (stream = .terminal)

end Settings

end TreeScript
