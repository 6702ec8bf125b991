import TreeScript.Yaml.Token

/-!
# Folding of lines

Inside plain and quoted scalars, blanks between two words of a line are kept, and line breaks are
folded: a single one reads as a space, and of several all but the first are kept.
-/

namespace TreeScript.Yaml

inductive Separation where
  /-- Blanks on one line, last one first. -/
  | blanks (text : List Char)
  /-- Line breaks: the first one, unless it is escaped, and the others, last one first. -/
  | breaks (first : Option Char) (others : List Char)

namespace Separation

def none : Separation := .blanks []

/-- One more blank. Beside line breaks blanks do not count. -/
def addBlank (c : Char) : Separation → Separation
  | .blanks text => .blanks (c :: text)
  | .breaks first others => .breaks first others

/-- One more line break. Blanks before it do not count. -/
def addBreak (c : Char) : Separation → Separation
  | .blanks _ => .breaks (some (breakText c)) []
  | .breaks first others => .breaks first (breakText c :: others)

def hasBreak : Separation → Bool
  | .blanks _ => false
  | .breaks _ _ => true

def isEmpty : Separation → Bool
  | .blanks [] => true
  | _ => false

def folded : Separation → List Char
  | .blanks text => text
  | .breaks (some '\n') [] => [' ']
  | .breaks (some '\n') others => others
  | .breaks (some c) others => others ++ [c]
  | .breaks Option.none others => others

end Separation

end TreeScript.Yaml
